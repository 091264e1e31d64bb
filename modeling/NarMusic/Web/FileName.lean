/-
  `parseFilenameFromContentDisposition` (`web/app/utils.js`) on the header that
  `Response::downloadFile` writes.

  The server escapes the bytes of a name, the client's `decodeURIComponent` decodes the
  escapes and then the bytes (`decodeURIComponent_urlEncode`).  The first `*` of the
  header is that of `filename*`, so the expression matches there and nowhere before.
-/
import NarMusic.Http.Response
import NarMusic.Web.Text

namespace NarMusic.Web

open Cxx Response

/-- `/filename\*=UTF-8''(.+)/i` at one position. -/
def extendedFilename (s : Text) : Option Text :=
  (afterFold "filename*=UTF-8''".toList s).bind fun s => nonempty (s.takeWhile (!isLineTerminator ·))

/-- `/filename="?([^"]+)"?/i` at one position. -/
def plainFilename (s : Text) : Option Text :=
  (afterFold "filename=".toList s).bind fun s =>
    nonempty ((if s.head? = some '"' then s.tail else s).takeWhile (· ≠ '"'))

def parseFilenameFromContentDisposition (contentDisposition : Option Text) (fallback : Text) : Text :=
  match contentDisposition with
  | none => fallback
  | some header =>
    if header = [] then fallback
    else match search extendedFilename header with
      | some name => (decodeURIComponent name).getD name
      | none =>
        match search plainFilename header with
        | some name => (decodeURIComponent name).getD name
        | none => fallback

/-! ## Escapes -/

/-- What a byte of a name is in the component. -/
def part (b : Byte) : Char ⊕ Byte := if isUnreserved b then .inl (Char.ofNat b.toNat) else .inr b

/-- The bytes `urlEncodeUtf8` leaves are letters, digits and four others, all ASCII. -/
theorem isUnreserved_spec {b : Byte} (h : isUnreserved b) :
    b < 0x80 ∧ b ≠ 37 ∧ b ≠ 42 ∧ b ≠ 13 ∧ b ≠ 10 ∧ b ≠ 34 ∧ b ≠ 59 := by
  simp only [isUnreserved, Bool.or_eq_true, Bool.and_eq_true, decide_eq_true_eq, UInt8.le_iff_toNat_le,
    ← UInt8.toNat_inj] at h
  simp only [UInt8.lt_iff_toNat_lt, ne_eq, ← UInt8.toNat_inj]
  simp only [UInt8.reduceToNat] at h ⊢
  omega

theorem hexUpper_spec {n : Byte} (h : n < 16) :
    hexValue (Char.ofNat (hexUpper n).toNat) = some n.toNat := by
  have hall : ∀ m < 16, hexValue (Char.ofNat (hexUpper (.ofNat m)).toNat) = some m := by decide
  simpa using hall n.toNat (UInt8.lt_iff_toNat_lt.1 h)

theorem ofNat_percent {b : Byte} (h : b < 0x80) : Char.ofNat b.toNat = '%' ↔ b = 37 := by
  have hall : ∀ m < 128, Char.ofNat m = '%' ↔ m = 37 := by decide
  rw [hall _ (UInt8.lt_iff_toNat_lt.1 h), ← UInt8.toNat_inj]
  rfl

theorem escapes_urlEncode (s : Str) : escapes (isomorphicDecode (urlEncodeUtf8 s)) = some (s.map part) := by
  induction s with
  | nil => rfl
  | cons b s ih =>
    unfold urlEncodeUtf8 isomorphicDecode at ih ⊢
    rw [List.flatMap_cons, List.map_append, List.map_cons]
    by_cases h : isUnreserved b
    · obtain ⟨hascii, hpercent, -⟩ := isUnreserved_spec h
      have hne : Char.ofNat b.toNat ≠ '%' := fun heq => hpercent ((ofNat_percent hascii).1 heq)
      rw [if_pos h, List.map_cons, List.map_nil, List.singleton_append, escapes_cons hne, ih]
      simp [part, h]
    · obtain ⟨hhi, hlo⟩ := nibbles b
      have hb : UInt8.ofNat ((b / 16).toNat * 16 + (b % 16).toNat) = b := by
        rw [nibbles_join, UInt8.ofNat_toNat]
      have hpercent : Char.ofNat (37 : Byte).toNat = '%' := rfl
      rw [if_neg h, List.map_cons, List.map_cons, List.map_cons, List.map_nil, List.cons_append,
        List.cons_append, List.singleton_append, hpercent,
        escapes_percent (hexUpper_spec hhi) (hexUpper_spec hlo), hb, ih]
      simp [part, h]

/-! ## Characters -/

theorem decodeParts_inl (n : ℕ) (c : Char) (parts : List (Char ⊕ Byte)) :
    decodeParts (n + 1) (.inl c :: parts) = (decodeParts n parts).map (c :: ·) := by
  rw [decodeParts]
  cases decodeParts n parts <;> rfl

theorem takeBytes_map (bytes : Str) (parts : List (Char ⊕ Byte)) :
    takeBytes bytes.length (bytes.map Sum.inr ++ parts) = some (bytes, parts) := by
  induction bytes with
  | nil => rfl
  | cons b bytes ih => rw [List.length_cons, List.map_cons, List.cons_append, takeBytes, ih, Option.map_some]

theorem decodeParts_inr {c : Char} {b : Byte} {bytes : Str} (hc : String.utf8EncodeChar c = b :: bytes)
    (hcount : octetCount b = some (bytes.length + 1)) (n : ℕ) (parts : List (Char ⊕ Byte)) :
    decodeParts (n + 1) (.inr b :: (bytes.map Sum.inr ++ parts)) = (decodeParts n parts).map (c :: ·) := by
  have hdecode : Utf8.decodeChar (b :: bytes) = some (c, []) := by
    rw [← hc]
    simpa using Utf8.decodeChar_encode c []
  rw [decodeParts, hcount]
  simp only [Option.bind_eq_bind, Option.bind_some, Nat.add_sub_cancel, takeBytes_map, hdecode]
  cases decodeParts n parts <;> rfl

/-- A character is left as it is, or all its bytes are escaped. -/
theorem encodeChar_parts (c : Char) :
    (∃ b, String.utf8EncodeChar c = [b] ∧ part b = .inl c) ∨
      ∃ b bytes, String.utf8EncodeChar c = b :: bytes ∧ octetCount b = some (bytes.length + 1) ∧
        (b :: bytes).map part = (b :: bytes).map Sum.inr := by
  have hmax := Utf8.char_lt c
  have hbyte {n : ℕ} (h : 0x80 ≤ n) (h' : n < 256) : part (.ofNat n) = .inr (.ofNat n) := by
    refine if_neg fun hu => ?_
    have hlt := (isUnreserved_spec hu).1
    rw [UInt8.lt_iff_toNat_lt, UInt8.toNat_ofNat', Nat.mod_eq_of_lt h'] at hlt
    exact absurd hlt (not_lt.2 h)
  have hcount {n : ℕ} (h' : n < 256) : octetCount (.ofNat n) =
      if n < 0x80 then some 1 else if n < 0xC0 then none else if n < 0xE0 then some 2
      else if n < 0xF0 then some 3 else if n < 0xF8 then some 4 else none := by
    simp only [octetCount, UInt8.lt_iff_toNat_lt, UInt8.toNat_ofNat', Nat.mod_eq_of_lt h']
    rfl
  rcases Utf8.encodeChar_cases c with ⟨h1, he⟩ | ⟨h1, h2, he⟩ | ⟨h1, h2, he⟩ | ⟨h1, he⟩
  · by_cases hu : isUnreserved (.ofNat c.toNat)
    · refine Or.inl ⟨_, he, ?_⟩
      rw [part, if_pos hu, UInt8.toNat_ofNat', Nat.mod_eq_of_lt (by omega), Char.ofNat_toNat]
    · refine Or.inr ⟨_, [], he, ?_, ?_⟩
      · rw [hcount (by omega), if_pos h1]
        rfl
      · simp [part, hu]
  · refine Or.inr ⟨_, _, he, ?_, ?_⟩
    · rw [hcount (by omega), if_neg (by omega), if_neg (by omega), if_pos (by omega)]
      rfl
    · simp only [List.map_cons, List.map_nil]
      rw [hbyte (by omega) (by omega), hbyte (by omega) (by omega)]
  · refine Or.inr ⟨_, _, he, ?_, ?_⟩
    · rw [hcount (by omega), if_neg (by omega), if_neg (by omega), if_neg (by omega), if_pos (by omega)]
      rfl
    · simp only [List.map_cons, List.map_nil]
      rw [hbyte (by omega) (by omega), hbyte (by omega) (by omega), hbyte (by omega) (by omega)]
  · refine Or.inr ⟨_, _, he, ?_, ?_⟩
    · rw [hcount (by omega), if_neg (by omega), if_neg (by omega), if_neg (by omega), if_neg (by omega),
        if_pos (by omega)]
      rfl
    · simp only [List.map_cons, List.map_nil]
      rw [hbyte (by omega) (by omega), hbyte (by omega) (by omega), hbyte (by omega) (by omega),
        hbyte (by omega) (by omega)]

theorem decodeParts_encode {cs : List Char} {n : ℕ} (h : (Utf8.encode cs).length ≤ n) :
    decodeParts n ((Utf8.encode cs).map part) = some cs := by
  induction cs generalizing n with
  | nil => cases n <;> rfl
  | cons c cs ih =>
    rw [Utf8.encode_cons, List.length_append] at h
    rw [Utf8.encode_cons, List.map_append]
    rcases encodeChar_parts c with ⟨b, hb, hpart⟩ | ⟨b, bytes, hb, hcount, hparts⟩
    · rw [hb, List.length_singleton] at h
      obtain ⟨n, rfl⟩ : ∃ m, n = m + 1 := ⟨n - 1, by omega⟩
      rw [hb, List.map_cons, List.map_nil, List.singleton_append, hpart, decodeParts_inl,
        ih (by omega), Option.map_some]
    · rw [hb, List.length_cons] at h
      obtain ⟨n, rfl⟩ : ∃ m, n = m + 1 := ⟨n - 1, by omega⟩
      rw [hb, hparts, List.map_cons, List.cons_append, decodeParts_inr hb hcount, ih (by omega),
        Option.map_some]

/-- **An escaped name** is decoded. -/
theorem decodeURIComponent_urlEncode (name : Text) :
    decodeURIComponent (isomorphicDecode (urlEncodeUtf8 (Utf8.encode name))) = some name := by
  unfold decodeURIComponent
  rw [escapes_urlEncode]
  exact decodeParts_encode (List.length_map _ ▸ le_rfl)

/-! ## The header -/

/-- No character of an escaped name is a line terminator or a `*`. -/
theorem mem_isomorphicDecode_urlEncode {s : Str} {c : Char} (h : c ∈ isomorphicDecode (urlEncodeUtf8 s)) :
    isLineTerminator c = false ∧ c ≠ '*' := by
  obtain ⟨b, hb, rfl⟩ := List.mem_map.1 h
  have hall : ∀ m < 128, m ≠ 42 → m ≠ 13 → m ≠ 10 →
      isLineTerminator (Char.ofNat m) = false ∧ Char.ofNat m ≠ '*' := by decide
  rcases mem_urlEncode hb with hu | rfl
  · obtain ⟨hascii, -, hstar, hcr, hlf, -⟩ := isUnreserved_spec hu
    simp only [ne_eq, ← UInt8.toNat_inj] at hstar hcr hlf
    exact hall _ (UInt8.lt_iff_toNat_lt.1 hascii) hstar hcr hlf
  · exact hall 37 (by decide) (by decide) (by decide) (by decide)

/-- The expression finds what stands behind the first `*=UTF-8''`. -/
theorem search_extendedFilename {pre name : Text} (hpre : '*' ∉ pre) (hname : name ≠ [])
    (hline : ∀ c ∈ name, isLineTerminator c = false) :
    search extendedFilename (pre ++ ("filename*=UTF-8''".toList ++ name)) = some name := by
  have hsplit : "filename*=UTF-8''".toList = "filename".toList ++ '*' :: "=UTF-8''".toList := by decide
  rw [search_skip]
  · refine search_of_exec ?_
    have hall : name.takeWhile (!isLineTerminator ·) = name := by
      rw [List.takeWhile_eq_self_iff]
      intro c hc
      rw [hline c hc]
      rfl
    rw [extendedFilename, afterFold_append, Option.bind_some, hall, nonempty, if_neg hname]
  · intro t ht hsuffix
    have hstar : '*' ∉ t ++ "filename".toList := by
      rw [List.mem_append]
      rintro (h | h)
      · exact hpre (hsuffix.subset h)
      · exact absurd h (by decide)
    have hlen : "filename".toList.length < (t ++ "filename".toList).length := by
      rw [List.length_append]
      exact Nat.lt_add_of_pos_left (List.length_pos_iff.2 ht)
    have hnone := afterFold_star "=UTF-8''".toList ('*' :: ("=UTF-8''".toList ++ name)) hlen hstar
    rw [extendedFilename, Option.bind_eq_none_iff]
    intro s hs
    rw [hsplit, List.append_assoc, ← List.append_assoc, List.cons_append, hnone] at hs
    exact absurd hs (by simp)

/-- **A name survives the header**: the value has no line end, quote or semicolon but its own, and
    the client reads the name from it. -/
theorem downloadFile_filename (info : FileStreamInfo) (name : Text) (hname : name ≠ []) (fallback : Text) :
    ∃ e, (downloadFile info (Utf8.encode name)).headers.get (lit "Content-Disposition") =
        some (lit "attachment; filename=\"" ++ e ++ lit "\"; filename*=UTF-8''" ++ e) ∧
      (∀ b ∈ e, b ≠ 13 ∧ b ≠ 10 ∧ b ≠ 34 ∧ b ≠ 59) ∧
      parseFilenameFromContentDisposition
          (((downloadFile info (Utf8.encode name)).headers.get (lit "Content-Disposition")).map isomorphicDecode)
          fallback = name := by
  have hvalue : (downloadFile info (Utf8.encode name)).headers.get (lit "Content-Disposition") =
      some (lit "attachment; filename=\"" ++ urlEncodeUtf8 (Utf8.encode name) ++
        lit "\"; filename*=UTF-8''" ++ urlEncodeUtf8 (Utf8.encode name)) := rfl
  refine ⟨urlEncodeUtf8 (Utf8.encode name), hvalue, fun b hb => ?_, ?_⟩
  · rcases mem_urlEncode hb with hu | rfl
    · obtain ⟨-, -, -, hrest⟩ := isUnreserved_spec hu
      exact hrest
    · decide
  · have hfixed : lit "\"; filename*=UTF-8''" = lit "\"; " ++ lit "filename*=UTF-8''" := by decide +kernel
    have hliteral : isomorphicDecode (lit "filename*=UTF-8''") = "filename*=UTF-8''".toList := by
      decide +kernel
    have hpre : '*' ∉ isomorphicDecode
        (lit "attachment; filename=\"" ++ urlEncodeUtf8 (Utf8.encode name) ++ lit "\"; ") := by
      rw [isomorphicDecode_append, isomorphicDecode_append, List.mem_append, List.mem_append]
      rintro ((h | h) | h)
      · exact absurd h (by decide +kernel)
      · exact (mem_isomorphicDecode_urlEncode h).2 rfl
      · exact absurd h (by decide +kernel)
    have hne : isomorphicDecode (urlEncodeUtf8 (Utf8.encode name)) ≠ [] := by
      intro h
      have hdecode := decodeURIComponent_urlEncode name
      rw [h] at hdecode
      exact hname (Option.some.inj hdecode).symm
    have hsearch := search_extendedFilename hpre hne fun c hc => (mem_isomorphicDecode_urlEncode hc).1
    rw [← hliteral, ← isomorphicDecode_append, ← isomorphicDecode_append, List.append_assoc,
      ← List.append_assoc (lit "\"; "), ← hfixed, ← List.append_assoc] at hsearch
    have hnonempty : isomorphicDecode (lit "attachment; filename=\"" ++ urlEncodeUtf8 (Utf8.encode name) ++
        lit "\"; filename*=UTF-8''" ++ urlEncodeUtf8 (Utf8.encode name)) ≠ [] := by
      rw [isomorphicDecode_append]
      exact List.append_ne_nil_of_right_ne_nil _ hne
    rw [hvalue, Option.map_some, parseFilenameFromContentDisposition]
    simp only [if_neg hnonempty, hsearch, decodeURIComponent_urlEncode, Option.getD_some]

/-- A name with a quote, a percent sign, a semicolon and what looks like another parameter. -/
theorem tricky_filename :
    ∃ e, (downloadFile {} (Utf8.encode "歌\";%2A filename*=UTF-8''x".toList)).headers.get
          (lit "Content-Disposition") =
        some (lit "attachment; filename=\"" ++ e ++ lit "\"; filename*=UTF-8''" ++ e) ∧
      (∀ b ∈ e, b ≠ 13 ∧ b ≠ 10 ∧ b ≠ 34 ∧ b ≠ 59) ∧
      parseFilenameFromContentDisposition
          (((downloadFile {} (Utf8.encode "歌\";%2A filename*=UTF-8''x".toList)).headers.get
            (lit "Content-Disposition")).map isomorphicDecode)
          [] = "歌\";%2A filename*=UTF-8''x".toList :=
  downloadFile_filename {} _ (by decide) []

end NarMusic.Web

/-
  Other spellings of a canonical request: names of headers in other letters, and
  any number of blanks behind a colon.

  Both readers compare the names byte by byte and skip two bytes behind the
  colon, so that a text in another spelling is mostly another request
  (`spelling_unchanged`).
-/
import NarMusic.Http.Canonical
import NarMusic.Http.Readers

namespace NarMusic

open Cxx

def lower (s : Str) : Str := s.map tolower

/-- A canonical request whose headers are told apart without the case of their names. -/
structure CanonicalHeaders extends Canonical where
  names_distinct : (headers.map fun h => lower h.1).Nodup
  length_correct : ∀ h ∈ headers, lower h.1 = lower contentLengthKey → h.2 = dec body.length

/-- A header with the letters of its name, and the number of blanks behind its colon. -/
structure SpelledHeader where
  header : Str × Str
  name : Str
  blanks : ℕ
  same : lower name = lower header.1

namespace SpelledHeader

def line (e : SpelledHeader) : Str := e.name ++ 58 :: (List.replicate e.blanks 32 ++ e.header.2)

/-- What stands two bytes behind the colon. -/
def value (e : SpelledHeader) : Str := (List.replicate e.blanks 32 ++ e.header.2).tail

def field (e : SpelledHeader) : Str × Str := (e.name, e.value)

end SpelledHeader

/-- A request in another spelling. -/
structure Spelling (c : CanonicalHeaders) where
  spelled : List SpelledHeader
  headers : spelled.map SpelledHeader.header = c.headers

/-- The spelling of the request itself. -/
def CanonicalHeaders.spelling (c : CanonicalHeaders) : Spelling c where
  spelled := c.headers.map fun h => ⟨h, h.1, 1, rfl⟩
  headers := by
    rw [List.map_map]
    exact List.map_id c.headers

/-- The text with as much of the body as has come in. -/
def Spelling.text {c : CanonicalHeaders} (s : Spelling c) (body : Str) : Str :=
  c.requestLine ++ crlf ++ s.spelled.flatMap (fun e => e.line ++ crlf) ++ crlf ++ body

theorem CanonicalHeaders.text_spelling (c : CanonicalHeaders) : c.spelling.text c.body = c.bytes := by
  have hlines : c.spelling.spelled.flatMap (fun e => e.line ++ crlf) =
      c.headers.flatMap fun h => headerLine h ++ crlf := by
    rw [CanonicalHeaders.spelling, List.flatMap_map]
    rfl
  rw [Spelling.text, hlines, Canonical.bytes]

/-- The headers that authorisation, range streaming and compression look up. -/
def lookedUp : List Str := [lit "Range", lit "Authorization", lit "Accept-Encoding"]

/-- Neither the framing nor the body nor the headers that are looked up change. -/
structure Spelling.Unchanged {c : CanonicalHeaders} (s : Spelling c) : Prop where
  complete : ∀ n ≤ c.body.length, Request.isCompleteRequest (s.text (c.body.take n)) =
    Request.isCompleteRequest (c.spelling.text (c.body.take n))
  parsed : ∃ req req', Request.parse (c.spelling.text c.body) = .ok (some req) ∧
    Request.parse (s.text c.body) = .ok (some req') ∧ req'.body = req.body ∧
    ∀ name ∈ lookedUp, req'.header name = req.header name

/-! ## The lines of a spelling -/

theorem tolower_eq {b : Byte} (hb : b ∈ [10, 13, 58]) (c : Byte) : tolower c = b ↔ c = b := by
  have hsmall : b.toNat < 65 := by
    simp only [List.mem_cons, List.not_mem_nil, or_false] at hb
    rcases hb with rfl | rfl | rfl <;> decide
  unfold tolower
  split_ifs with hletter
  · simp only [Bool.and_eq_true, decide_eq_true_eq, UInt8.le_iff_toNat_le, UInt8.reduceToNat] at hletter
    rw [← UInt8.toNat_inj, ← UInt8.toNat_inj, UInt8.toNat_add, show (32 : UInt8).toNat = 32 from rfl]
    omega
  · exact Iff.rfl

theorem mem_lower {b : Byte} (hb : b ∈ [10, 13, 58]) (s : Str) : b ∈ lower s ↔ b ∈ s := by
  simp only [lower, List.mem_map, tolower_eq hb, exists_eq_right]

namespace Spelling

variable {c : CanonicalHeaders} (s : Spelling c)

theorem header_mem {e : SpelledHeader} (he : e ∈ s.spelled) : e.header ∈ c.headers := by
  rw [← s.headers]
  exact List.mem_map_of_mem he

theorem name_plain {e : SpelledHeader} (he : e ∈ s.spelled) : Plain e.name ∧ 58 ∉ e.name := by
  have hheader := c.headers_plain e.header (s.header_mem he)
  have hname : ∀ b ∈ [10, 13, 58], b ∉ e.header.1 → b ∉ e.name := by
    intro b hb hnot hmem
    rw [← mem_lower hb, e.same, mem_lower hb] at hmem
    exact hnot hmem
  exact ⟨⟨hname 13 (by simp) hheader.name_plain.1, hname 10 (by simp) hheader.name_plain.2⟩,
    hname 58 (by simp) hheader.name_colon⟩

theorem line_plain {e : SpelledHeader} (he : e ∈ s.spelled) : Plain e.line ∧ e.line ≠ [] := by
  obtain ⟨⟨h13, h10⟩, -⟩ := s.name_plain he
  obtain ⟨hv13, hv10⟩ := (c.headers_plain e.header (s.header_mem he)).value_plain
  refine ⟨⟨?_, ?_⟩, by simp [SpelledHeader.line]⟩
  · simp [SpelledHeader.line, h13, hv13]
  · simp [SpelledHeader.line, h10, hv10]

end Spelling

namespace Request

/-- The CR at the end of a line is not part of its field. -/
theorem field_cr {line : Str} (h : Plain line) : field (line ++ [13]) = field line := by
  unfold field
  by_cases hmem : 58 ∈ line
  · obtain ⟨name, tail, rfl, hname⟩ := List.eq_append_cons_of_mem hmem
    have hsplit : name ++ 58 :: tail ++ [13] = name ++ 58 :: (tail ++ [13]) := by simp
    have hdrop : ∀ t, (name ++ 58 :: t).drop (name.length + 2) = t.tail := by
      intro t
      rw [← List.drop_drop, List.drop_left' rfl]
      cases t <;> rfl
    have hplain : Plain tail.tail := by
      refine ⟨fun hm => h.1 ?_, fun hm => h.2 ?_⟩
      · exact List.mem_append_right _ (List.mem_cons_of_mem _ (List.mem_of_mem_tail hm))
      · exact List.mem_append_right _ (List.mem_cons_of_mem _ (List.mem_of_mem_tail hm))
    have hpop : popCR (tail ++ [13]).tail = popCR tail.tail := by
      cases tail with
      | nil => rfl
      | cons b t => exact popCR_append.trans (popCR_plain hplain).symm
    rw [hsplit, find_byte hname, find_byte hname, Option.map_some, Option.map_some, hdrop, hdrop, hpop,
      List.take_left' rfl, List.take_left' rfl]
  · have hmem' : 58 ∉ line ++ [13] := by simp [hmem]
    rw [find_byte_none hmem, find_byte_none hmem']
    rfl

theorem filterMap_crLines {lines : List Str} (h : ∀ line ∈ lines, Plain line) :
    (crLines lines).filterMap field = lines.filterMap field := by
  induction lines using crLines.induct with
  | case1 => rfl
  | case2 line => rfl
  | case3 line line' lines ih =>
    have ih := ih fun l hl => h l (List.mem_cons_of_mem _ hl)
    rw [crLines, List.filterMap_cons, field_cr (h line List.mem_cons_self), ih]
    rfl

/-- Only the last line can end with its colon. -/
theorem bare_crLines {lines : List Str} {line : Str} :
    (line ∈ crLines lines ∧ Bare line) ↔ lines.getLast? = some line ∧ Bare line := by
  refine and_congr_left fun hbare => ?_
  have hcr : ∀ l : Str, line ≠ l ++ [13] := by
    rintro l rfl
    obtain ⟨name, -, hname⟩ := hbare
    have hlast := congrArg List.getLast? hname
    rw [List.getLast?_append, List.getLast?_append] at hlast
    cases hlast
  induction lines using crLines.induct with
  | case1 => simp [crLines]
  | case2 l => simp [crLines, eq_comm]
  | case3 l l' lines ih =>
    rw [crLines, List.mem_cons, List.getLast?_cons_cons]
    exact (or_iff_right (hcr l)).trans ih

end Request

/-! ## What the readers make of a spelling -/

namespace Spelling

open Request

variable {c : CanonicalHeaders} (s : Spelling c)

theorem field_line {e : SpelledHeader} (he : e ∈ s.spelled) : Request.field e.line = some e.field := by
  obtain ⟨-, hcolon⟩ := s.name_plain he
  have hvalue := (c.headers_plain e.header (s.header_mem he)).value_plain
  have hdrop : ∀ t : Str, (e.name ++ 58 :: t).drop (e.name.length + 2) = t.tail := by
    intro t
    rw [← List.drop_drop, List.drop_left' rfl]
    cases t <;> rfl
  have hplain : Plain e.value := by
    refine ⟨fun hm => hvalue.1 ?_, fun hm => hvalue.2 ?_⟩
    · simpa using List.mem_of_mem_tail hm
    · simpa using List.mem_of_mem_tail hm
  unfold Request.field SpelledHeader.line
  rw [find_byte hcolon, Option.map_some, List.take_left' rfl, hdrop]
  exact congrArg (fun v => some (e.name, v)) (popCR_plain hplain)

/-- The text as a block of lines. -/
theorem text_eq (body : Str) : s.text body =
    c.requestLine ++ (lineBlock (s.spelled.map SpelledHeader.line) ++ (blankLine ++ body)) := by
  have hlines := flatMap_crlf (s.spelled.map SpelledHeader.line)
  rw [List.flatMap_map] at hlines
  simp only [text, List.append_assoc]
  rw [← List.append_assoc crlf, hlines]
  simp [blankLine, crlf]

theorem lines_plain : ∀ line ∈ s.spelled.map SpelledHeader.line, Plain line ∧ line ≠ [] := by
  intro line hline
  obtain ⟨e, he, rfl⟩ := List.mem_map.1 hline
  exact s.line_plain he

def headerEnd : ℕ := (c.requestLine ++ lineBlock (s.spelled.map SpelledHeader.line)).length

theorem find_text_blank (body : Str) : Cxx.find blankLine (s.text body) = some s.headerEnd := by
  rw [text_eq, find_block_blank c.requestLine_plain.1 s.lines_plain, headerEnd]

theorem find_text_crlf (body : Str) : Cxx.find crlf (s.text body) = some c.requestLine.length := by
  rw [text_eq, find_block_crlf c.requestLine_plain.1]

/-- The lines both functions read. -/
def readLines (body : Str) : List Str := headerLines (s.text body) s.headerEnd c.requestLine.length

theorem nil_of_spelled {n : ℕ} (h : s.spelled = []) : c.body.take n = [] := by
  have hheaders := s.headers
  rw [h, List.map_nil] at hheaders
  by_contra hne
  have hbody : c.body ≠ [] := fun hnil => hne (by rw [hnil, List.take_nil])
  simpa [← hheaders] using c.length_present hbody

theorem readLines_eq (n : ℕ) :
    s.readLines (c.body.take n) = crLines (s.spelled.map SpelledHeader.line) ∨
      s.spelled = [] ∧ s.readLines (c.body.take n) = [[13]] := by
  have ht : s.spelled.map SpelledHeader.line = [] → c.body.take n = [] :=
    fun hnil => s.nil_of_spelled (List.map_eq_nil_iff.1 hnil)
  obtain ⟨headersStr, hsubstr, hlines⟩ := headersStr_block c.requestLine s.lines_plain ht
  obtain ⟨headersStr', hsubstr', hread⟩ := substrLen_headerLines s.headerEnd
    (s.find_text_crlf (c.body.take n))
  rw [text_eq, headerEnd, hsubstr] at hsubstr'
  obtain rfl := Except.ok.inj hsubstr'
  unfold readLines
  rw [← hread, ← List.map_eq_nil_iff (f := SpelledHeader.line)]
  exact hlines

theorem readLines_field (n : ℕ) :
    (s.readLines (c.body.take n)).filterMap Request.field = s.spelled.map SpelledHeader.field := by
  rcases s.readLines_eq n with h | ⟨hnil, h⟩
  · rw [h, filterMap_crLines fun line hline => (s.lines_plain line hline).1, List.filterMap_map]
    exact List.filterMap_eq_map_iff_forall_eq_some.2 fun e he => s.field_line he
  · rw [h, hnil]
    rfl

/-- A line without a value is the last one, with no blanks. -/
theorem bare_readLines {n : ℕ} {line : Str} : (line ∈ s.readLines (c.body.take n) ∧ Bare line) ↔
    ∃ e, s.spelled.getLast? = some e ∧ e.line = line ∧ e.header.2 = [] ∧ e.blanks = 0 := by
  have hline : ∀ e ∈ s.spelled, Bare e.line ↔ e.header.2 = [] ∧ e.blanks = 0 := by
    intro e he
    have hfind : Cxx.find [58] e.line = some e.name.length := find_byte (s.name_plain he).2 _
    rw [bare_iff hfind]
    simp only [SpelledHeader.line, List.length_append, List.length_cons, List.length_replicate,
      ← List.length_eq_zero_iff]
    omega
  rcases s.readLines_eq n with h | ⟨hnil, h⟩
  · rw [h, bare_crLines, List.getLast?_map, Option.map_eq_some_iff]
    constructor
    · rintro ⟨⟨e, he, rfl⟩, hbare⟩
      exact ⟨e, he, rfl, (hline e (List.mem_of_getLast? he)).1 hbare⟩
    · rintro ⟨e, he, rfl, hbare⟩
      exact ⟨⟨e, he, rfl⟩, (hline e (List.mem_of_getLast? he)).2 hbare⟩
  · rw [h, hnil]
    constructor
    · rintro ⟨hmem, name, -, hbare⟩
      obtain rfl := List.mem_singleton.1 hmem
      have hlast := congrArg List.getLast? hbare
      rw [List.getLast?_append] at hlast
      cases hlast
    · rintro ⟨e, he, -⟩
      cases he

/-! ## Lookups -/

theorem names_nodup : (s.spelled.map fun e => lower e.name).Nodup := by
  have heq : (s.spelled.map fun e => lower e.name) = c.headers.map fun h => lower h.1 := by
    rw [← s.headers, List.map_map]
    exact List.map_congr_left fun e _ => e.same
  rw [heq]
  exact c.names_distinct

theorem fields_nodup : ((s.spelled.map SpelledHeader.field).map Prod.fst).Nodup := by
  refine List.Nodup.of_map lower ?_
  rw [List.map_map, List.map_map]
  exact s.names_nodup

/-- A header is found under a name of its letters exactly when it is spelled so. -/
theorem assoc_field {e : SpelledHeader} (he : e ∈ s.spelled) {name : Str}
    (hname : lower e.header.1 = lower name) :
    OrdMap.assoc name (s.spelled.map SpelledHeader.field) = if e.name = name then some e.value else none := by
  split_ifs with heq
  · rw [← heq]
    exact OrdMap.assoc_of_nodup s.fields_nodup (List.mem_map_of_mem he)
  · rw [OrdMap.assoc_eq_none_iff, List.map_map]
    intro hmem
    obtain ⟨e', he', hname'⟩ := List.mem_map.1 hmem
    have hlower : lower e'.name = lower e.name := by
      rw [e.same, hname]
      exact congrArg lower hname'
    have hsame := List.inj_on_of_nodup_map s.names_nodup he' he hlower
    exact heq (hsame ▸ hname')

theorem assoc_field_none {name : Str} (h : ∀ e ∈ s.spelled, lower e.header.1 ≠ lower name) :
    OrdMap.assoc name (s.spelled.map SpelledHeader.field) = none := by
  rw [OrdMap.assoc_eq_none_iff, List.map_map]
  intro hmem
  obtain ⟨e, he, hname⟩ := List.mem_map.1 hmem
  exact h e he (e.same ▸ congrArg lower hname)

/-! ## The content length -/

/-- The content length `parse` reads. -/
def readLength : ℕ := contentLength (.ofList (s.spelled.map SpelledHeader.field))

theorem readLength_assoc : s.readLength =
    match OrdMap.assoc contentLengthKey (s.spelled.map SpelledHeader.field) with
    | some v => (stoul v).getD 0
    | none => 0 := by
  have hget := OrdMap.get_ofList s.fields_nodup contentLengthKey
  unfold readLength contentLength
  cases h : OrdMap.assoc contentLengthKey (s.spelled.map SpelledHeader.field) with
  | none => simp only [hget, h]
  | some v => simp only [hget, h]

theorem body_lt : c.body.length < 2 ^ 64 := lt_of_le_of_lt c.body_le (by decide)

/-- What is read of the content length, after blanks or without its first digit. -/
theorem stoul_value {e : SpelledHeader} (he : e ∈ s.spelled)
    (hname : lower e.header.1 = lower contentLengthKey) :
    (stoul e.value).getD 0 ≤ c.body.length ∧
      ((stoul e.value).getD 0 = c.body.length ↔ c.body.length = 0 ∨ 1 ≤ e.blanks) := by
  have hdec := c.length_correct e.header (s.header_mem he) hname
  obtain ⟨hle, hlt⟩ := stoul_dec_tail (body_lt (c := c))
  unfold SpelledHeader.value
  rw [hdec]
  cases hblanks : e.blanks with
  | zero =>
    rw [List.replicate_zero, List.nil_append]
    exact ⟨hle, by omega⟩
  | succ k =>
    have htail : (List.replicate (k + 1) 32 ++ dec c.body.length).tail =
        List.replicate k 32 ++ dec c.body.length := rfl
    rw [htail, stoul_blanks, stoul_dec body_lt]
    simp

theorem readLength_mem {e : SpelledHeader} (he : e ∈ s.spelled)
    (hname : lower e.header.1 = lower contentLengthKey) :
    s.readLength = if e.name = contentLengthKey then (stoul e.value).getD 0 else 0 := by
  rw [readLength_assoc, s.assoc_field he hname]
  split_ifs <;> rfl

theorem readLength_le : s.readLength ≤ c.body.length := by
  by_cases hmem : ∃ e ∈ s.spelled, lower e.header.1 = lower contentLengthKey
  · obtain ⟨e, he, hname⟩ := hmem
    rw [s.readLength_mem he hname]
    split_ifs
    · exact (s.stoul_value he hname).1
    · exact Nat.zero_le _
  · rw [readLength_assoc, s.assoc_field_none fun e he hname => hmem ⟨e, he, hname⟩]
    exact Nat.zero_le _

/-- The body is read whole exactly when its length is spelled as the code spells it. -/
theorem readLength_eq : s.readLength = c.body.length ↔
    (c.body ≠ [] → ∀ e ∈ s.spelled, e.header.1 = contentLengthKey →
      e.name = contentLengthKey ∧ 1 ≤ e.blanks) := by
  by_cases hbody : c.body = []
  · have hle := s.readLength_le
    rw [hbody, List.length_nil] at hle
    simp only [hbody, List.length_nil, ne_eq, not_true, false_implies, iff_true]
    omega
  · have hpos : 0 < c.body.length := List.length_pos_of_ne_nil hbody
    obtain ⟨h, hmem, hkey⟩ := List.mem_map.1 (c.length_present hbody)
    rw [← s.headers] at hmem
    obtain ⟨e, he, rfl⟩ := List.mem_map.1 hmem
    have hname : lower e.header.1 = lower contentLengthKey := congrArg lower hkey
    have hvalue := (s.stoul_value he hname).2
    rw [s.readLength_mem he hname]
    constructor
    · intro hread _ e' he' hkey'
      have hlower : lower e'.name = lower e.name := by rw [e.same, e'.same, hkey, hkey']
      obtain rfl := List.inj_on_of_nodup_map s.names_nodup he' he hlower
      split_ifs at hread with hspelled
      · exact ⟨hspelled, by have := hvalue.1 hread; omega⟩
      · omega
    · intro hall
      obtain ⟨hspelled, hblanks⟩ := hall hbody e he hkey
      rw [if_pos hspelled]
      exact hvalue.2 (Or.inr hblanks)

/-- A field that `isCompleteRequest` takes for a content length. -/
theorem lengthOf_spelled {n : ℕ} {line : Str} (hline : line ∈ s.readLines (c.body.take n)) {v : Option ℕ}
    (h : lengthOf line = some v) : ∃ e ∈ s.spelled, Request.field line = some e.field ∧
      e.name = contentLengthKey ∧ v = stoul e.value := by
  obtain ⟨f, hf, hkey⟩ := Option.bind_eq_some_iff.1 h
  have hmem : f ∈ s.spelled.map SpelledHeader.field := by
    rw [← s.readLines_field n]
    exact List.mem_filterMap.2 ⟨line, hline, hf⟩
  obtain ⟨e, he, rfl⟩ := List.mem_map.1 hmem
  have hname : popCR e.field.1 = e.name := popCR_plain (s.name_plain he).1
  rw [hname] at hkey
  split_ifs at hkey with hspelled
  exact ⟨e, he, hf, hspelled, (Option.some.inj hkey).symm⟩

theorem not_isOver {n : ℕ} : ∀ line ∈ s.readLines (c.body.take n), ¬ IsOver line := by
  rintro line hline ⟨m, hm, hlimit⟩
  obtain ⟨e, he, -, hname, hvalue⟩ := s.lengthOf_spelled hline hm
  have hle := (s.stoul_value he (e.same ▸ congrArg lower hname)).1
  rw [← hvalue, Option.getD_some] at hle
  have := c.body_le
  omega

/-- A content length is never without a value. -/
theorem not_bareLength {n : ℕ} : ∀ line ∈ s.readLines (c.body.take n), ¬ BareLength line := by
  intro line hline hbareLength
  obtain ⟨hbare, hlength⟩ := bareLength_iff.1 hbareLength
  obtain ⟨v, hv⟩ := Option.ne_none_iff_exists'.1 hlength
  obtain ⟨e, he, hfield, hname, -⟩ := s.lengthOf_spelled hline hv
  obtain ⟨e', he', rfl, hempty, -⟩ := s.bare_readLines.1 ⟨hline, hbare⟩
  have hmem := List.mem_of_getLast? he'
  rw [s.field_line hmem] at hfield
  have hname' : e'.name = contentLengthKey := (congrArg Prod.fst (Option.some.inj hfield)).trans hname
  have hdec := c.length_correct e'.header (s.header_mem hmem) (e'.same ▸ congrArg lower hname')
  exact dec_ne_nil _ (hdec.symm.trans hempty)

theorem lastLength_readLines (n : ℕ) :
    (lastLength (s.readLines (c.body.take n))).getD 0 = s.readLength := by
  have hlast : lastLength (s.readLines (c.body.take n)) =
      (s.spelled.filterMap fun e => if e.name = contentLengthKey then stoul e.value else none).getLast? := by
    have hjoin : ∀ line, (lengthOf line).join = (Request.field line).bind fun f =>
        if popCR f.1 = contentLengthKey then stoul f.2 else none := by
      intro line
      unfold lengthOf
      cases Request.field line with
      | none => rfl
      | some f =>
        rw [Option.bind_some, Option.bind_some]
        split_ifs <;> rfl
    unfold lastLength
    simp only [hjoin]
    rw [← List.filterMap_filterMap, s.readLines_field n, List.filterMap_map]
    refine congrArg List.getLast? (List.filterMap_congr fun e he => ?_)
    have hname : popCR e.field.1 = e.name := popCR_plain (s.name_plain he).1
    dsimp only [Function.comp]
    rw [hname]
    rfl
  rw [hlast]
  by_cases hmem : ∃ e ∈ s.spelled, e.name = contentLengthKey
  · obtain ⟨e, he, hname⟩ := hmem
    obtain ⟨before, after, hsplit⟩ := List.append_of_mem he
    have hother : ∀ l : List SpelledHeader, (∀ e' ∈ l, e' ∈ s.spelled ∧ lower e'.name ≠ lower e.name) →
        l.filterMap (fun e => if e.name = contentLengthKey then stoul e.value else none) = [] := by
      intro l hl
      refine List.filterMap_eq_nil_iff.2 fun e' he' => if_neg fun hname' => ?_
      exact (hl e' he').2 (by rw [hname, hname'])
    have hnodup := s.names_nodup
    rw [hsplit, List.map_append, List.map_cons, List.nodup_append, List.nodup_cons] at hnodup
    obtain ⟨-, ⟨hafter, -⟩, hbefore⟩ := hnodup
    rw [s.readLength_mem he (e.same ▸ congrArg lower hname), if_pos hname, hsplit, List.filterMap_append,
      hother before, List.filterMap_cons, hother after, if_pos hname]
    · cases stoul e.value <;> rfl
    · exact fun e' he' => ⟨by rw [hsplit]; simp [he'],
        fun heq => hafter (heq ▸ List.mem_map_of_mem (f := fun e => lower e.name) he')⟩
    · exact fun e' he' => ⟨by rw [hsplit]; simp [he'],
        fun heq => hbefore _ (List.mem_map_of_mem (f := fun e => lower e.name) he') _ List.mem_cons_self heq⟩
  · have hnil : (s.spelled.filterMap fun e => if e.name = contentLengthKey then stoul e.value else none) = [] :=
      List.filterMap_eq_nil_iff.2 fun e he => if_neg fun hname => hmem ⟨e, he, hname⟩
    have hnone : OrdMap.assoc contentLengthKey (s.spelled.map SpelledHeader.field) = none := by
      rw [OrdMap.assoc_eq_none_iff, List.map_map]
      rintro hkey
      obtain ⟨e, he, hname⟩ := List.mem_map.1 hkey
      exact hmem ⟨e, he, hname⟩
    rw [hnil, readLength_assoc, hnone]
    rfl

theorem complete_text {n : ℕ} (hn : n ≤ c.body.length) :
    isCompleteRequest (s.text (c.body.take n)) = .ok (decide (s.readLength ≤ n)) := by
  obtain ⟨hreturns, htrue⟩ := isCompleteRequest_lines (s.find_text_blank (c.body.take n))
    (s.find_text_crlf (c.body.take n))
  have hreads : Reads (s.readLines (c.body.take n)) := fun before line after heq hbare =>
    absurd hbare (s.not_bareLength line (by rw [heq]; simp))
  have hlen : (s.text (c.body.take n)).length - (s.headerEnd + 4) = n := by
    rw [text_eq, headerEnd]
    simp only [List.length_append, blankLine_length, List.length_take]
    omega
  have harrived : Arrived (s.text (c.body.take n)) s.headerEnd c.requestLine.length ↔ s.readLength ≤ n := by
    unfold Arrived
    rw [hlen, ← s.lastLength_readLines n]
    exact or_iff_right fun ⟨line, hline, hover⟩ => s.not_isOver line hline hover
  obtain ⟨complete, hcomplete⟩ := hreturns.2 hreads
  rw [harrived, hcomplete] at htrue
  rw [hcomplete]
  cases complete <;> simp_all

/-! ## What `parse` makes of it -/

theorem requestParts_requestLine : requestParts c.requestLine ≠ none := by
  rw [ne_eq, requestParts_eq_none, Canonical.requestLine, List.count_append, List.count_cons_self,
    List.count_append, List.count_cons_self]
  omega

theorem parse_text : (∃ e, s.spelled.getLast? = some e ∧ e.header.2 = [] ∧ e.blanks = 0) ∧
      parse (s.text c.body) = .error .outOfRange ∨
    (¬ ∃ e, s.spelled.getLast? = some e ∧ e.header.2 = [] ∧ e.blanks = 0) ∧
      ∃ req, parse (s.text c.body) = .ok (some req) ∧ req.body = c.body.take s.readLength ∧
        ∀ name, req.header name = (OrdMap.assoc name (s.spelled.map SpelledHeader.field)).getD [] := by
  have hparse := parse_lines (s.find_text_blank c.body) (s.find_text_crlf c.body)
  have hline : (s.text c.body).take c.requestLine.length = c.requestLine := by
    rw [text_eq, List.take_left' rfl]
  have hrest : (s.text c.body).drop (s.headerEnd + 4) = c.body := by
    rw [text_eq, headerEnd, ← List.append_assoc, ← List.append_assoc, List.drop_left']
    simp [Nat.add_assoc]
  have hfields := s.readLines_field c.body.length
  have hbare := @bare_readLines c s c.body.length
  rw [List.take_length] at hfields hbare
  have hread : headerLines (s.text c.body) s.headerEnd c.requestLine.length = s.readLines c.body := rfl
  obtain ⟨⟨method, path, queryString⟩, hparts⟩ := Option.ne_none_iff_exists'.1
    (requestParts_requestLine (c := c))
  rw [hline, hparts, hrest, hread] at hparse
  dsimp only at hparse
  by_cases hlast : ∃ e, s.spelled.getLast? = some e ∧ e.header.2 = [] ∧ e.blanks = 0
  · obtain ⟨e, he, hempty⟩ := hlast
    rw [headerLoop_bare ⟨e.line, hbare.2 ⟨e, he, rfl, hempty⟩⟩] at hparse
    exact Or.inl ⟨⟨e, he, hempty⟩, hparse⟩
  · have hnone : ∀ line ∈ s.readLines c.body, ¬ Bare line :=
      fun line hmem h => hlast (by
        obtain ⟨e, he, -, hempty⟩ := hbare.1 ⟨hmem, h⟩
        exact ⟨e, he, hempty⟩)
    rw [headerLoop_fields hnone, hfields] at hparse
    have hlimit : ¬ MAX_CONTENT_LENGTH < s.readLength := not_lt.2 (s.readLength_le.trans c.body_le)
    dsimp only [Except.map] at hparse
    rw [show contentLength ((s.spelled.map SpelledHeader.field).foldl (fun m f => m.insert f.1 f.2) .empty) =
      s.readLength from rfl, if_neg hlimit] at hparse
    refine Or.inr ⟨hlast, _, hparse, rfl, fun name => ?_⟩
    exact congrArg (·.getD []) (OrdMap.get_ofList s.fields_nodup name)

/-! ## Spellings that change nothing -/

/-- A lookup that gives the same value: neither spelling has the name that is looked up, or both
    have it and the one blank (or no value and no blank), or the one that has it has no value. -/
def Kept (e : SpelledHeader) (name : Str) : Prop :=
  (e.header.1 ≠ name ∧ e.name ≠ name) ∨
    (e.header.1 = name ∧ e.name = name ∧ (e.blanks = 1 ∨ e.blanks = 0 ∧ e.header.2 = [])) ∨
    (e.header.1 = name ∧ e.name ≠ name ∧ e.header.2 = []) ∨
    (e.header.1 ≠ name ∧ e.name = name ∧ e.blanks + e.header.2.length ≤ 1)

theorem value_eq_nil {e : SpelledHeader} : e.value = [] ↔ e.blanks + e.header.2.length ≤ 1 := by
  rw [← List.length_eq_zero_iff, SpelledHeader.value, List.length_tail, List.length_append,
    List.length_replicate]
  omega

theorem value_eq {e : SpelledHeader} :
    e.value = e.header.2 ↔ e.blanks = 1 ∨ e.blanks = 0 ∧ e.header.2 = [] := by
  constructor
  · intro h
    have hlen := congrArg List.length h
    rw [SpelledHeader.value, List.length_tail, List.length_append, List.length_replicate] at hlen
    rw [← List.length_eq_zero_iff]
    omega
  · unfold SpelledHeader.value
    rintro (h | ⟨h, hnil⟩)
    · rw [h]
      rfl
    · rw [h, hnil]
      rfl

theorem kept_same_iff {e : SpelledHeader} {name : Str} :
    (if e.name = name then e.value else []) = (if e.header.1 = name then e.header.2 else []) ↔
      Kept e name := by
  unfold Kept
  by_cases hname : e.name = name
  · by_cases hheader : e.header.1 = name
    · simp only [hname, hheader, if_true, ne_eq, not_true, false_and, true_and, false_or, or_false]
      exact value_eq
    · simp only [hname, hheader, if_true, if_false, ne_eq, not_true, not_false_iff, false_and, and_false,
        true_and, false_or]
      exact value_eq_nil
  · by_cases hheader : e.header.1 = name
    · simp only [hname, hheader, if_true, if_false, ne_eq, not_true, not_false_iff, false_and, true_and,
        and_false, false_or, or_false]
      exact eq_comm
    · simp [hname, hheader]

theorem spelling_readLength : c.spelling.readLength = c.body.length := by
  refine c.spelling.readLength_eq.2 fun _ e he hkey => ?_
  obtain ⟨h, -, rfl⟩ := List.mem_map.1 he
  exact ⟨hkey, le_rfl⟩

theorem spelling_parse : ∃ req, parse (c.spelling.text c.body) = .ok (some req) ∧ req.body = c.body ∧
    ∀ name, req.header name = (OrdMap.assoc name (c.spelling.spelled.map SpelledHeader.field)).getD [] := by
  rcases c.spelling.parse_text with ⟨⟨e, he, -, hblanks⟩, -⟩ | ⟨-, req, hreq, hbody, hheader⟩
  · obtain ⟨h, -, rfl⟩ := List.mem_map.1 (List.mem_of_getLast? he)
    cases hblanks
  · rw [spelling_readLength, List.take_length] at hbody
    exact ⟨req, hreq, hbody, hheader⟩

/-- The lookup in a spelling and in the request itself. -/
theorem assoc_same (name : Str) :
    ((OrdMap.assoc name (s.spelled.map SpelledHeader.field)).getD [] =
        (OrdMap.assoc name (c.spelling.spelled.map SpelledHeader.field)).getD []) ↔
      ∀ e ∈ s.spelled, lower e.header.1 = lower name → Kept e name := by
  have hplain : ∀ e ∈ s.spelled, (⟨e.header, e.header.1, 1, rfl⟩ : SpelledHeader) ∈ c.spelling.spelled :=
    fun e he => List.mem_map_of_mem (s.header_mem he)
  by_cases hmem : ∃ e ∈ s.spelled, lower e.header.1 = lower name
  · obtain ⟨e, he, hname⟩ := hmem
    rw [s.assoc_field he hname, c.spelling.assoc_field (hplain e he) hname]
    have hiff : ((if e.name = name then some e.value else none).getD [] =
        (if e.header.1 = name then some e.header.2 else none).getD []) ↔ Kept e name := by
      rw [← kept_same_iff]
      split_ifs <;> rfl
    refine hiff.trans ⟨fun hkept e' he' hname' => ?_, fun hall => hall e he hname⟩
    have hlower : lower e'.name = lower e.name := by rw [e.same, e'.same, hname, hname']
    exact List.inj_on_of_nodup_map s.names_nodup he' he hlower ▸ hkept
  · have hnone : ∀ e ∈ s.spelled, lower e.header.1 ≠ lower name := fun e he hname => hmem ⟨e, he, hname⟩
    have hnone' : ∀ e ∈ c.spelling.spelled, lower e.header.1 ≠ lower name := by
      intro e' he' hname
      obtain ⟨h, hh, rfl⟩ := List.mem_map.1 he'
      rw [← s.headers] at hh
      obtain ⟨e, he, rfl⟩ := List.mem_map.1 hh
      exact hnone e he hname
    rw [s.assoc_field_none hnone, c.spelling.assoc_field_none hnone']
    exact ⟨fun _ e he hname => absurd hname (hnone e he), fun _ => rfl⟩

theorem complete_same : (∀ n ≤ c.body.length, isCompleteRequest (s.text (c.body.take n)) =
      isCompleteRequest (c.spelling.text (c.body.take n))) ↔ s.readLength = c.body.length := by
  constructor
  · intro h
    have hle := s.readLength_le
    have hsame := h s.readLength hle
    rw [s.complete_text hle, c.spelling.complete_text hle, spelling_readLength] at hsame
    have hge : c.body.length ≤ s.readLength := by simpa using hsame
    omega
  · intro h n hn
    rw [s.complete_text hn, c.spelling.complete_text hn, spelling_readLength, h]

theorem spelling_unchanged : s.Unchanged ↔
    (c.body ≠ [] → ∀ e ∈ s.spelled, e.header.1 = contentLengthKey →
        e.name = contentLengthKey ∧ 1 ≤ e.blanks) ∧
      (∀ e, s.spelled.getLast? = some e → e.header.2 = [] → 1 ≤ e.blanks) ∧
      ∀ name ∈ lookedUp, ∀ e ∈ s.spelled, lower e.header.1 = lower name → Kept e name := by
  obtain ⟨req, hreq, hbody, hheader⟩ := spelling_parse (c := c)
  have hlast : (¬ ∃ e, s.spelled.getLast? = some e ∧ e.header.2 = [] ∧ e.blanks = 0) ↔
      ∀ e, s.spelled.getLast? = some e → e.header.2 = [] → 1 ≤ e.blanks := by
    simp only [not_exists, not_and, Nat.one_le_iff_ne_zero]
  rw [← readLength_eq, ← hlast]
  constructor
  · rintro ⟨hcomplete, req₀, req', hreq₀, hreq', -, hheaders⟩
    obtain rfl : req₀ = req := Option.some.inj (Except.ok.inj (hreq₀.symm.trans hreq))
    refine ⟨s.complete_same.1 hcomplete, ?_⟩
    rcases s.parse_text with ⟨-, hthrow⟩ | ⟨hnone, req'', hreq'', -, hheader'⟩
    · rw [hthrow] at hreq'
      cases hreq'
    · obtain rfl : req'' = req' := Option.some.inj (Except.ok.inj (hreq''.symm.trans hreq'))
      refine ⟨hnone, fun name hname => (s.assoc_same name).1 ?_⟩
      rw [← hheader', ← hheader]
      exact hheaders name hname
  · rintro ⟨hlength, hnone, hkept⟩
    rcases s.parse_text with ⟨hbare, -⟩ | ⟨-, req', hreq', hbody', hheader'⟩
    · exact absurd hbare hnone
    · refine ⟨s.complete_same.2 hlength, req, req', hreq, hreq', ?_, fun name hname => ?_⟩
      · rw [hbody', hbody, hlength, List.take_length]
      · rw [hheader', hheader]
        exact (s.assoc_same name).2 (hkept name hname)

theorem okTarget_space : 32 ∉ lit "/" := by decide

theorem okVersion_space : 32 ∉ lit "HTTP/1.1" := by decide

/-- A request with a body of two bytes. -/
def okRequest : CanonicalHeaders where
  method := .POST
  target := lit "/"
  version := lit "HTTP/1.1"
  headers := [(contentLengthKey, lit "2")]
  body := lit "ok"
  method_known := by decide
  target_space := okTarget_space
  target_plain := by unfold Plain; decide
  version_space := okVersion_space
  version_plain := by unfold Plain; decide
  headers_plain := by
    intro h hh
    obtain rfl := List.mem_singleton.1 hh
    exact ⟨by decide, by decide, by unfold Plain; decide, by unfold Plain; decide⟩
  headers_nodup := List.nodup_singleton _
  body_le := by decide
  length_present := fun _ => List.mem_singleton.2 rfl
  length_value := by
    intro h hh _
    obtain rfl := List.mem_singleton.1 hh
    decide +kernel
  names_distinct := List.nodup_singleton _
  length_correct := by
    intro h hh _
    obtain rfl := List.mem_singleton.1 hh
    decide +kernel

/-- The same request with the name in small letters. -/
def smallLetters : Spelling okRequest where
  spelled := [⟨(contentLengthKey, lit "2"), lit "content-length", 1, by decide +kernel⟩]
  headers := rfl

theorem smallLetters_lost : ¬ smallLetters.Unchanged := by
  intro h
  have hlength := smallLetters.complete_same.1 h.complete
  have hread : smallLetters.readLength = 0 := by decide +kernel
  rw [hread] at hlength
  cases hlength

end Spelling

end NarMusic

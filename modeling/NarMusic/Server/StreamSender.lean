/-
  The range of a request for a file (`infrastructure/streaming/stream_sender.cpp`).

  `parseRangeHeader` has six exits.  Its first and its last one give the whole file; the
  others leave in the bounds what had been written there when they were reached, and both
  callers use the bounds whatever it returns.
-/
import NarMusic.Server.FileStream

namespace NarMusic

open Cxx

structure StreamData where
  buffer : Str := []
  fileSize : ℤ := 0
  rangeStart : ℤ := 0
  rangeEnd : ℤ := 0
  requestSize : ℤ := 0
  isPartial : Bool := false

namespace StreamSender

/-- A literal of an expression with the flag `icase`, and what is behind it. -/
def icaseLiteral : Str → Str → Option Str
  | [], s => some s
  | _ :: _, [] => none
  | p :: pat, c :: s => if tolower c = tolower p then icaseLiteral pat s else none

/-- `bytes=(\d+)-(\d*)` at one position: its two groups. -/
def rangeAt (s : Str) : Option (Str × Str) :=
  (icaseLiteral (lit "bytes=") s).bind fun t =>
    if t.takeWhile isdigit = [] then none
    else match t.dropWhile isdigit with
      | 45 :: u => some (t.takeWhile isdigit, u.takeWhile isdigit)
      | _ => none

/-- `std::regex_search(rangeHeader, match, rangeRegex)`. -/
def rangeSearch : Str → Option (Str × Str)
  | [] => rangeAt []
  | c :: s => (rangeAt (c :: s)).or (rangeSearch s)

/-- What it returns, and what the caller's `start` and `end` hold then; they held `start` and
    `stop`. -/
def parseRangeHeader (rangeHeader : Str) (fileSize start stop : ℤ) : Bool × ℤ × ℤ :=
  if rangeHeader = [] ∨ fileSize ≤ 0 then (false, 0, fileSize - 1)
  else match rangeSearch rangeHeader with
    | none => (false, 0, fileSize - 1)
    | some (first, last) =>
      match stoll first with
      | none => (false, start, stop)
      | some start =>
        match if last = [] then some (fileSize - 1) else stoll last with
        | none => (false, start, stop)
        | some stop =>
          if start < 0 ∨ fileSize ≤ start then (false, start, stop)
          else
            let stop := if fileSize ≤ stop then fileSize - 1 else stop
            (decide (start ≤ stop), start, stop)

/-- `buffer.resize(n)` of a `std::vector<char>`; `n` bytes are a `size_t` here. -/
def resize (n : ℤ) : Except Exn ℕ :=
  if 2 ^ 63 ≤ (n % 2 ^ 64).toNat then .error (.other (lit "vector::_M_default_append"))
  else .ok (n % 2 ^ 64).toNat

/-- `fileSize` is what `getFileSize` returned, and `file` is what the second open gives. -/
def read (fileSize : ℤ) (file : Option Str) (rangeHeader : Str) : Except Exn StreamData :=
  if fileSize ≤ 0 then .ok { fileSize }
  else
    let (isPartial, rangeStart, rangeEnd) := parseRangeHeader rangeHeader fileSize 0 0
    let result : StreamData :=
      { fileSize, rangeStart, rangeEnd, requestSize := rangeEnd - rangeStart + 1, isPartial }
    match file with
    | none => .ok result
    | some content =>
      (resize result.requestSize).map fun n =>
        let bytes := (content.drop rangeStart.toNat).take n
        -- a short read leaves the bytes behind it as `resize` made them
        { result with buffer := bytes ++ List.replicate (n - bytes.length) 0 }

def resolveStreamInfo (fileSize : ℤ) (filePath rangeHeader : Str) : FileStreamInfo :=
  if fileSize ≤ 0 then { filePath, fileSize }
  else
    let (isPartial, rangeStart, rangeEnd) := parseRangeHeader rangeHeader fileSize 0 (fileSize - 1)
    { filePath, fileSize, rangeStart, rangeEnd, isPartial }

/-! ## Bounds -/

/-- Bounds inside a file, and around all of it for a plain response. -/
structure Resolved (fileSize : ℤ) (isPartial : Bool) (rangeStart rangeEnd : ℤ) : Prop where
  start_nonneg : 0 ≤ rangeStart
  start_le : rangeStart ≤ rangeEnd
  end_le : rangeEnd ≤ fileSize - 1
  whole : isPartial = false → rangeStart = 0 ∧ rangeEnd = fileSize - 1

/-- The numbers of the header, if it has any, are a range that begins inside the file; or one
    of them is too large for a `long long`, and what the bounds hold then is the whole file. -/
def RangeFits (rangeHeader : Str) (fileSize start stop : ℤ) : Prop :=
  ∀ first last, rangeSearch rangeHeader = some (first, last) →
    if 2 ^ 63 ≤ digitsVal first then start = 0 ∧ stop = fileSize - 1
    else if 2 ^ 63 ≤ digitsVal last then digitsVal first = 0 ∧ stop = fileSize - 1
    else digitsVal first < fileSize ∧ (last = [] ∨ digitsVal first ≤ digitsVal last)

theorem rangeSearch_digits {s first last : Str} (h : rangeSearch s = some (first, last)) :
    first ≠ [] ∧ (∀ c ∈ first, isdigit c = true) ∧ ∀ c ∈ last, isdigit c = true := by
  have hat : ∀ {s}, rangeAt s = some (first, last) →
      first ≠ [] ∧ (∀ c ∈ first, isdigit c = true) ∧ ∀ c ∈ last, isdigit c = true := by
    intro s hs
    obtain ⟨t, -, ht⟩ := Option.bind_eq_some_iff.1 hs
    split_ifs at ht with hne
    split at ht
    · obtain ⟨rfl, rfl⟩ := Prod.mk.inj (Option.some.inj ht)
      exact ⟨hne, fun c hc => List.mem_takeWhile_imp hc, fun c hc => List.mem_takeWhile_imp hc⟩
    · cases ht
  induction s with
  | nil => exact hat h
  | cons c s ih =>
    rcases Option.or_eq_some_iff.1 h with h | ⟨-, h⟩
    · exact hat h
    · exact ih h

/-- What the header is read as. -/
theorem parseRangeHeader_some {rangeHeader first last : Str} {fileSize : ℤ} (hsize : 0 < fileSize)
    (h : rangeSearch rangeHeader = some (first, last)) (start stop : ℤ) :
    parseRangeHeader rangeHeader fileSize start stop =
      if 2 ^ 63 ≤ digitsVal first then (false, start, stop)
      else if 2 ^ 63 ≤ digitsVal last then (false, ↑(digitsVal first), stop)
      else if fileSize ≤ digitsVal first then
        (false, ↑(digitsVal first), if last = [] then fileSize - 1 else digitsVal last)
      else (decide (last = [] ∨ digitsVal first ≤ digitsVal last), ↑(digitsVal first),
        if last = [] then fileSize - 1 else min ↑(digitsVal last) (fileSize - 1)) := by
  obtain ⟨hne, hfirst, hlast⟩ := rangeSearch_digits h
  have hheader : ¬ (rangeHeader = [] ∨ fileSize ≤ 0) := by
    rintro (rfl | hle)
    · cases h
    · omega
  unfold parseRangeHeader
  rw [if_neg hheader, h]
  dsimp only
  rw [stoll_digits hfirst hne]
  by_cases h1 : 2 ^ 63 ≤ digitsVal first
  · rw [if_neg (Nat.not_lt.2 h1), if_pos h1]
  rw [if_pos (Nat.not_le.1 h1), if_neg h1]
  have hread : (if last = [] then some (fileSize - 1) else stoll last) =
      if 2 ^ 63 ≤ digitsVal last then none
      else some (if last = [] then fileSize - 1 else ↑(digitsVal last)) := by
    by_cases hopen : last = []
    · subst hopen
      rfl
    · rw [if_neg hopen, if_neg hopen, stoll_digits hlast hopen]
      split_ifs <;> first | rfl | omega
  dsimp only
  rw [hread]
  by_cases h2 : 2 ^ 63 ≤ digitsVal last
  · rw [if_pos h2, if_pos h2]
  rw [if_neg h2, if_neg h2]
  dsimp only
  by_cases h3 : fileSize ≤ digitsVal first
  · rw [if_pos (Or.inr h3), if_pos h3]
  have hinside : ¬ ((digitsVal first : ℤ) < 0 ∨ fileSize ≤ digitsVal first) := by omega
  rw [if_neg hinside, if_neg h3]
  by_cases hopen : last = []
  · have hend : ¬ fileSize ≤ fileSize - 1 := by omega
    have hle : (digitsVal first : ℤ) ≤ fileSize - 1 := by omega
    simp only [hopen, if_true, if_neg hend, hle, true_or, decide_true]
  · have hend : (if fileSize ≤ digitsVal last then fileSize - 1 else ↑(digitsVal last)) =
        min ↑(digitsVal last) (fileSize - 1) := by
      split_ifs <;> omega
    have hle : (digitsVal first : ℤ) ≤ min ↑(digitsVal last) (fileSize - 1) ↔
        digitsVal first ≤ digitsVal last := by
      omega
    simp only [hopen, if_false, hend, hle, false_or]

theorem parseRangeHeader_none {rangeHeader : Str} {fileSize : ℤ} (h : rangeSearch rangeHeader = none)
    (start stop : ℤ) : parseRangeHeader rangeHeader fileSize start stop = (false, 0, fileSize - 1) := by
  unfold parseRangeHeader
  rw [h]
  exact ite_self _

/-- The bounds are good exactly when the numbers of the header are. -/
theorem parseRangeHeader_iff {rangeHeader : Str} {fileSize start stop rangeStart rangeEnd : ℤ}
    {isPartial : Bool} (hsize : 0 < fileSize)
    (h : parseRangeHeader rangeHeader fileSize start stop = (isPartial, rangeStart, rangeEnd)) :
    Resolved fileSize isPartial rangeStart rangeEnd ↔ RangeFits rangeHeader fileSize start stop := by
  cases hsearch : rangeSearch rangeHeader with
  | none =>
    rw [parseRangeHeader_none hsearch] at h
    obtain ⟨rfl, rfl, rfl⟩ : false = isPartial ∧ 0 = rangeStart ∧ fileSize - 1 = rangeEnd := by
      simpa using h
    refine iff_of_true ⟨le_rfl, by omega, le_rfl, fun _ => ⟨rfl, rfl⟩⟩ fun first last hsome => ?_
    rw [hsearch] at hsome
    cases hsome
  | some groups =>
    obtain ⟨first, last⟩ := groups
    have hfits : RangeFits rangeHeader fileSize start stop ↔
        if 2 ^ 63 ≤ digitsVal first then start = 0 ∧ stop = fileSize - 1
        else if 2 ^ 63 ≤ digitsVal last then digitsVal first = 0 ∧ stop = fileSize - 1
        else digitsVal first < fileSize ∧ (last = [] ∨ digitsVal first ≤ digitsVal last) := by
      refine ⟨fun hfits => hfits first last hsearch, fun hif first' last' hsome => ?_⟩
      obtain ⟨rfl, rfl⟩ := Prod.mk.inj (Option.some.inj (hsearch.symm.trans hsome))
      exact hif
    rw [hfits]
    rw [parseRangeHeader_some hsize hsearch] at h
    -- a plain answer is good where it is the whole file, and any other one where it is a range
    have hwhole : ∀ s e : ℤ, (false, s, e) = (isPartial, rangeStart, rangeEnd) →
        (Resolved fileSize isPartial rangeStart rangeEnd ↔ s = 0 ∧ e = fileSize - 1) := by
      intro s e heq
      obtain ⟨rfl, rfl, rfl⟩ : false = isPartial ∧ s = rangeStart ∧ e = rangeEnd := by simpa using heq
      refine ⟨fun hr => hr.whole rfl, ?_⟩
      rintro ⟨rfl, rfl⟩
      exact ⟨le_rfl, by omega, le_rfl, fun _ => ⟨rfl, rfl⟩⟩
    by_cases h1 : 2 ^ 63 ≤ digitsVal first
    · rw [if_pos h1] at h ⊢
      exact hwhole _ _ h
    by_cases h2 : 2 ^ 63 ≤ digitsVal last
    · rw [if_neg h1, if_pos h2] at h ⊢
      rw [hwhole _ _ h, Nat.cast_eq_zero]
    rw [if_neg h1, if_neg h2] at h ⊢
    by_cases h3 : fileSize ≤ digitsVal first
    · rw [if_pos h3] at h
      refine iff_of_false (fun hr => ?_) (fun hr => absurd hr.1 (Int.not_lt.2 h3))
      have := ((hwhole _ _ h).1 hr).1
      omega
    · rw [if_neg h3] at h
      obtain ⟨rfl, rfl, rfl⟩ := Prod.ext_iff.1 h |>.imp_right Prod.ext_iff.1
      dsimp only
      by_cases hle : last = [] ∨ digitsVal first ≤ digitsVal last
      · refine iff_of_true ⟨by omega, ?_, ?_, fun hfalse => ?_⟩ ⟨by omega, hle⟩
        · split_ifs with hopen
          · omega
          · have := hle.resolve_left hopen
            omega
        · split_ifs <;> omega
        · simp [hle] at hfalse
      · refine iff_of_false (fun hr => hle ?_) (fun hr => hle hr.2)
        by_contra hnot
        rw [not_or] at hnot
        have hstart := hr.start_le
        rw [if_neg hnot.1] at hstart
        omega

theorem resolveStreamInfo_iff {fileSize : ℤ} (h0 : 0 < fileSize) {filePath rangeHeader : Str}
    {info : FileStreamInfo} (hinfo : resolveStreamInfo fileSize filePath rangeHeader = info) :
    info.fileSize = fileSize ∧ (Resolved fileSize info.isPartial info.rangeStart info.rangeEnd ↔
      RangeFits rangeHeader fileSize 0 (fileSize - 1)) := by
  rcases hparse : parseRangeHeader rangeHeader fileSize 0 (fileSize - 1) with
    ⟨isPartial, rangeStart, rangeEnd⟩
  unfold resolveStreamInfo at hinfo
  rw [if_neg (Int.not_le.2 h0), hparse] at hinfo
  subst hinfo
  exact ⟨rfl, parseRangeHeader_iff h0 hparse⟩

/-- What is resolved then is a range of the file, as the connection streams it. -/
theorem resolveStreamInfo_valid {content : Str} (hne : content ≠ []) (filePath : Str) {rangeHeader : Str}
    (h : RangeFits rangeHeader content.length 0 (content.length - 1)) :
    (resolveStreamInfo content.length filePath rangeHeader).Valid content := by
  have h0 : (0 : ℤ) < content.length := by
    have := List.length_pos_iff.2 hne
    omega
  obtain ⟨hsize, hiff⟩ := resolveStreamInfo_iff h0
    (rfl : resolveStreamInfo content.length filePath rangeHeader = _)
  obtain ⟨hs, hle, he, -⟩ := hiff.2 h
  exact ⟨hsize, hs, hle, by omega⟩

/-! ## What is announced -/

/-- The response announces that many bytes. -/
def Announces (resp : Response) (n : ℤ) : Prop :=
  ∃ head tail, resp.serializeHeaders = head ++ contentLengthKey ++ lit ": " ++ decInt n ++ crlf ++ tail

theorem streamFile_announces (info : FileStreamInfo) :
    Announces (.streamFile info) (info.rangeEnd - info.rangeStart + 1) := by
  obtain ⟨hfile, hinfo, hget⟩ :=
    Link.fileResponse_spec (Or.inr rfl : _ ∨ Response.streamFile info = .streamFile info)
  refine ⟨(Response.streamFile info).headLines, (Response.streamFile info).connectionLine ++ crlf, ?_⟩
  rw [Response.serializeHeaders, Response.lengthLine, if_pos hget, Response.contentLen, if_pos hfile, hinfo]
  simp only [List.append_assoc]

/-- A buffer of any size from 0 on is made. -/
theorem resize_ok {n : ℤ} (h0 : 0 ≤ n) (h : n < 2 ^ 63) : resize n = .ok n.toNat := by
  have hmod : n % 2 ^ 64 = n := Int.emod_eq_of_lt h0 (by omega)
  unfold resize
  rw [hmod, if_neg (by omega)]

/-- A stream of the file announces at least one byte and no more than it has. -/
structure ServedInside (fileSize : ℤ) (info : FileStreamInfo) : Prop where
  resolved : Resolved fileSize info.isPartial info.rangeStart info.rangeEnd
  announced : ∃ n, Announces (.streamFile info) n ∧ 1 ≤ n ∧ n ≤ fileSize

/-- A read of the file that asked for a buffer of such a size. -/
structure ReadInside (fileSize : ℤ) (data : StreamData) : Prop where
  resolved : Resolved fileSize data.isPartial data.rangeStart data.rangeEnd
  size_nonneg : 0 ≤ data.requestSize

/-- **Ranges stay inside the file** where the numbers of the header are a range of it. -/
theorem range_inside {fileSize : ℤ} (h0 : 0 < fileSize) (hmax : fileSize < 2 ^ 63) (filePath : Str)
    (file : Option Str) (rangeHeader : Str) :
    (ServedInside fileSize (resolveStreamInfo fileSize filePath rangeHeader) ↔
      RangeFits rangeHeader fileSize 0 (fileSize - 1)) ∧
    ((∃ data, read fileSize file rangeHeader = .ok data ∧ ReadInside fileSize data) ↔
      RangeFits rangeHeader fileSize 0 0) := by
  constructor
  · obtain ⟨-, hiff⟩ := resolveStreamInfo_iff h0 (rfl : resolveStreamInfo fileSize filePath rangeHeader = _)
    rw [← hiff]
    refine ⟨fun h => h.resolved, fun h => ⟨h, _, streamFile_announces _, ?_, ?_⟩⟩
    · have := h.start_le
      omega
    · have := h.start_nonneg
      have := h.end_le
      omega
  · rcases hparse : parseRangeHeader rangeHeader fileSize 0 0 with ⟨isPartial, rangeStart, rangeEnd⟩
    have hread : ∀ data, read fileSize file rangeHeader = .ok data → data.isPartial = isPartial ∧
        data.rangeStart = rangeStart ∧ data.rangeEnd = rangeEnd := by
      intro data hdata
      unfold read at hdata
      rw [if_neg (Int.not_le.2 h0), hparse] at hdata
      cases file with
      | none =>
        obtain rfl := Except.ok.inj hdata
        exact ⟨rfl, rfl, rfl⟩
      | some content =>
        dsimp only at hdata
        cases hresize : resize (rangeEnd - rangeStart + 1) with
        | error e =>
          rw [hresize] at hdata
          cases hdata
        | ok n =>
          rw [hresize] at hdata
          obtain rfl := Except.ok.inj hdata
          exact ⟨rfl, rfl, rfl⟩
    rw [← parseRangeHeader_iff h0 hparse]
    constructor
    · rintro ⟨data, hdata, h⟩
      obtain ⟨rfl, rfl, rfl⟩ := hread data hdata
      exact h.resolved
    · intro h
      have hsize : 0 ≤ rangeEnd - rangeStart + 1 ∧ rangeEnd - rangeStart + 1 < 2 ^ 63 := by
        obtain ⟨hs, hle, he, -⟩ := h
        omega
      unfold read
      rw [if_neg (Int.not_le.2 h0), hparse]
      cases file with
      | none => exact ⟨_, rfl, h, hsize.1⟩
      | some content =>
        dsimp only
        rw [resize_ok hsize.1 hsize.2]
        exact ⟨_, rfl, h, hsize.1⟩

/-- The numbers `2-3` of a file of five bytes. -/
theorem range_inside_five :
    ServedInside 5 (resolveStreamInfo 5 [] (lit "bytes=2-3")) ∧
    ∃ data, read 5 (some (lit "hello")) (lit "bytes=2-3") = .ok data ∧ ReadInside 5 data := by
  have hread : rangeSearch (lit "bytes=2-3") = some (lit "2", lit "3") ∧ digitsVal (lit "2") = 2 ∧
      digitsVal (lit "3") = 3 := by
    decide +kernel
  obtain ⟨hsearch, htwo, hthree⟩ := hread
  have hfits : ∀ start stop, RangeFits (lit "bytes=2-3") 5 start stop := by
    intro start stop first last h
    obtain ⟨rfl, rfl⟩ := Prod.mk.inj (Option.some.inj (hsearch.symm.trans h))
    rw [htwo, hthree]
    norm_num
  obtain ⟨hserved, hread⟩ :=
    range_inside (by decide : (0 : ℤ) < 5) (by decide) [] (some (lit "hello")) (lit "bytes=2-3")
  exact ⟨hserved.2 (hfits _ _), hread.2 (hfits _ _)⟩

/-- A range behind the end is answered with a negative length, and its buffer cannot be made. -/
theorem range_behind :
    ¬ ServedInside 5 (resolveStreamInfo 5 [] (lit "bytes=9-")) ∧
      ¬ ∃ data, read 5 (some (lit "hello")) (lit "bytes=9-") = .ok data ∧ ReadInside 5 data := by
  have hread : parseRangeHeader (lit "bytes=9-") 5 0 (5 - 1) = (false, 9, 4) ∧
      parseRangeHeader (lit "bytes=9-") 5 0 0 = (false, 9, 4) ∧
      resize (4 - 9 + 1) = .error (.other (lit "vector::_M_default_append")) := by
    decide +kernel
  obtain ⟨hresolve, hparse, hresize⟩ := hread
  constructor
  · intro h
    have hle := h.resolved.start_le
    unfold resolveStreamInfo at hle
    rw [if_neg (by decide), hresolve] at hle
    exact absurd hle (by decide)
  · rintro ⟨data, hdata, -⟩
    unfold read at hdata
    rw [if_neg (by decide), hparse] at hdata
    dsimp only at hdata
    rw [hresize] at hdata
    cases hdata

end StreamSender

end NarMusic

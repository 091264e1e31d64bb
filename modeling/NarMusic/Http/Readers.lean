/-
  The two readers of a request over all byte strings: `isCompleteRequest`, which
  decides when to parse, and `parse`.

  Both cut the same lines out of the text and skip two bytes behind the first
  colon of a line.  They differ in what they make of the lines: the one takes
  the last readable content length, and stops at one over the limit; the other
  takes the last line with the exact name.
-/
import NarMusic.Http.Request

namespace NarMusic

open Cxx

deriving instance DecidableEq for Request

namespace Request

/-! ## Lines -/

/-- The lines that both functions cut out of a text whose first line ends at `endLine` and
    whose blank line is at `headerEnd`. -/
def headerLines (data : Str) (headerEnd endLine : ℕ) : List Str :=
  getlines 10 ((data.drop (endLine + 2)).take (sizeSub headerEnd (endLine + 2)))

/-- A line that ends with its first colon. -/
def Bare (line : Str) : Prop := ∃ name, 58 ∉ name ∧ line = name ++ [58]

/-- The name and the value of a line with a colon. -/
def field (line : Str) : Option (Str × Str) :=
  (find [58] line).map fun colonPos => (line.take colonPos, popCR (line.drop (colonPos + 2)))

/-- What a line that `isCompleteRequest` takes for a content length says, `none` inside where
    the number cannot be read. -/
def lengthOf (line : Str) : Option (Option ℕ) :=
  (field line).bind fun f => if popCR f.1 = contentLengthKey then some (stoul f.2) else none

/-- A content length over the limit. -/
def IsOver (line : Str) : Prop := ∃ n, lengthOf line = some (some n) ∧ MAX_CONTENT_LENGTH < n

/-- A line without a value where `isCompleteRequest` looks for a content length. -/
def BareLength (line : Str) : Prop :=
  ∃ name, 58 ∉ name ∧ line = name ++ [58] ∧ popCR name = contentLengthKey

/-- The last content length that can be read. -/
def lastLength (lines : List Str) : Option ℕ := (lines.filterMap fun line => (lengthOf line).join).getLast?

/-- What the last line with the exact name says. -/
def exactLength (lines : List Str) : Option ℕ :=
  ((lines.filterMap field).filterMap fun f =>
    if f.1 = contentLengthKey then some (stoul f.2) else none).getLast?.join

theorem Bare.find {line : Str} (h : Bare line) : find [58] line = some (line.length - 1) := by
  obtain ⟨name, hname, rfl⟩ := h
  rw [find_byte hname []]
  simp

theorem bare_iff {line : Str} {colonPos : ℕ} (h : find [58] line = some colonPos) :
    Bare line ↔ line.length < colonPos + 2 := by
  have hle := find_le h
  rw [List.length_singleton] at hle
  constructor
  · intro hbare
    rw [hbare.find] at h
    have := Option.some.inj h
    omega
  · intro hlt
    obtain ⟨hpre, hbefore⟩ := find_some h
    refine ⟨line.take colonPos, ?_, ?_⟩
    · intro hmem
      obtain ⟨j, hj, heq⟩ := List.getElem_of_mem hmem
      rw [List.length_take] at hj
      refine hbefore j (by omega) ?_
      rw [List.getElem_take] at heq
      rw [List.drop_eq_getElem_cons (by omega), heq]
      simp
    · obtain ⟨rest, hrest⟩ := hpre
      have hlen := congrArg List.length hrest
      simp only [List.length_append, List.length_singleton, List.length_drop] at hlen
      obtain rfl : rest = [] := List.eq_nil_of_length_eq_zero (by omega)
      rw [List.append_nil] at hrest
      rw [hrest, List.take_append_drop]

theorem bare_iff_find {line : Str} : Bare line ↔ find [58] line = some (line.length - 1) := by
  refine ⟨Bare.find, fun h => (bare_iff h).2 ?_⟩
  have hle := find_le h
  rw [List.length_singleton] at hle
  omega

instance : DecidablePred Bare := fun _ => decidable_of_iff _ bare_iff_find.symm

theorem field_eq_none {line : Str} : field line = none ↔ find [58] line = none := by
  simp [field]

/-! ## The loop of `parse` -/

theorem headerLoop_bare {lines : List Str} (h : ∃ line ∈ lines, Bare line) (acc : OrdMap Str Str) :
    headerLoop lines acc = .error .outOfRange := by
  induction lines generalizing acc with
  | nil => simp at h
  | cons line lines ih =>
    have htail : ¬ Bare line → ∃ line ∈ lines, Bare line := by
      intro hline
      obtain ⟨bare, hmem, hbare⟩ := h
      rcases List.mem_cons.1 hmem with rfl | hmem
      · exact absurd hbare hline
      · exact ⟨bare, hmem, hbare⟩
    rw [headerLoop]
    cases hf : Cxx.find [58] line with
    | none =>
      refine ih (htail fun hbare => ?_) acc
      rw [hbare.find] at hf
      cases hf
    | some colonPos =>
      dsimp only
      by_cases hline : Bare line
      · have hlt := (bare_iff hf).1 hline
        rw [substr, if_neg (by omega)]
      · have hle : colonPos + 2 ≤ line.length := by
          have := mt (bare_iff hf).2 hline
          omega
        rw [substr, if_pos hle]
        exact ih (htail hline) _

theorem headerLoop_fields {lines : List Str} (h : ∀ line ∈ lines, ¬ Bare line) (acc : OrdMap Str Str) :
    headerLoop lines acc = .ok ((lines.filterMap field).foldl (fun m f => m.insert f.1 f.2) acc) := by
  induction lines generalizing acc with
  | nil => rfl
  | cons line lines ih =>
    have ih := ih fun l hl => h l (List.mem_cons_of_mem _ hl)
    rw [headerLoop, List.filterMap_cons]
    cases hf : Cxx.find [58] line with
    | none =>
      rw [field_eq_none.2 hf]
      exact ih acc
    | some colonPos =>
      have hle : colonPos + 2 ≤ line.length := by
        have := mt (bare_iff hf).2 (h line List.mem_cons_self)
        omega
      have hfield : field line = some (line.take colonPos, popCR (line.drop (colonPos + 2))) := by
        rw [field, hf, Option.map_some]
      rw [hfield]
      dsimp only
      rw [substr, if_pos hle]
      exact ih _

theorem contentLength_insert (m : OrdMap Str Str) (name value : Str) :
    contentLength (m.insert name value) =
      if name = contentLengthKey then (stoul value).getD 0 else contentLength m := by
  unfold contentLength
  rw [OrdMap.get_insert]
  by_cases hname : contentLengthKey = name
  · rw [if_pos hname, if_pos hname.symm]
  · rw [if_neg hname, if_neg (Ne.symm hname)]

/-- The header map holds the last value of each name. -/
theorem contentLength_fields (fields : List (Str × Str)) (acc : OrdMap Str Str) :
    contentLength (fields.foldl (fun m f => m.insert f.1 f.2) acc) =
      match (fields.filterMap fun f =>
        if f.1 = contentLengthKey then some (stoul f.2) else none).getLast? with
      | some n => n.getD 0
      | none => contentLength acc := by
  induction fields using List.reverseRecOn with
  | nil => rfl
  | append_singleton fields f ih =>
    rw [List.foldl_append, List.filterMap_append, List.foldl_cons, List.foldl_nil, contentLength_insert]
    by_cases hf : f.1 = contentLengthKey
    · simp [hf]
    · simp [hf, ih]

theorem contentLength_exact (lines : List Str) :
    contentLength ((lines.filterMap field).foldl (fun m f => m.insert f.1 f.2) .empty) =
      (exactLength lines).getD 0 := by
  rw [contentLength_fields, exactLength]
  rcases ((lines.filterMap field).filterMap _).getLast? with _ | n
  · rfl
  · rfl

/-! ## The loop of `isCompleteRequest` -/

/-- One line, in the words of `lengthOf`. -/
theorem contentLengthLoop_cons (line : Str) (lines : List Str) (acc : ℕ) :
    contentLengthLoop (line :: lines) acc =
      match lengthOf line with
      | none => contentLengthLoop lines acc
      | some n =>
        if Bare line then .error .outOfRange
        else if MAX_CONTENT_LENGTH < n.getD acc then .ok none
        else contentLengthLoop lines (n.getD acc) := by
  rw [contentLengthLoop, lengthOf, field]
  cases hf : Cxx.find [58] line with
  | none => rfl
  | some colonPos =>
    rw [Option.map_some, Option.bind_some]
    dsimp only
    by_cases hname : popCR (line.take colonPos) = contentLengthKey
    · rw [if_pos hname, if_pos hname]
      dsimp only
      by_cases hbare : Bare line
      · have hlt := (bare_iff hf).1 hbare
        rw [if_pos hbare, substr, if_neg (by omega)]
      · have hle : colonPos + 2 ≤ line.length := by
          have := mt (bare_iff hf).2 hbare
          omega
        rw [if_neg hbare, substr, if_pos hle]
    · rw [if_neg hname, if_neg hname]

theorem bareLength_iff {line : Str} : BareLength line ↔ Bare line ∧ lengthOf line ≠ none := by
  have hname : ∀ name : Str, 58 ∉ name →
      (lengthOf (name ++ [58]) ≠ none ↔ popCR name = contentLengthKey) := by
    intro name hname
    unfold lengthOf field
    rw [find_byte hname []]
    simp
  constructor
  · rintro ⟨name, hcolon, rfl, hkey⟩
    exact ⟨⟨name, hcolon, rfl⟩, (hname name hcolon).2 hkey⟩
  · rintro ⟨⟨name, hcolon, rfl⟩, hlength⟩
    exact ⟨name, hcolon, rfl, (hname name hcolon).1 hlength⟩

theorem lastLength_cons (line : Str) (lines : List Str) :
    lastLength (line :: lines) = (lastLength lines).or (lengthOf line).join := by
  unfold lastLength
  rw [List.filterMap_cons]
  cases (lengthOf line).join with
  | none => exact (Option.or_none).symm
  | some n =>
    rw [List.getLast?_cons]
    cases (lines.filterMap fun line => (lengthOf line).join).getLast? <;> rfl

theorem isOver_iff {line : Str} {n : Option ℕ} (hn : lengthOf line = some n) {acc : ℕ}
    (hacc : acc ≤ MAX_CONTENT_LENGTH) : IsOver line ↔ MAX_CONTENT_LENGTH < n.getD acc := by
  unfold IsOver
  rw [hn]
  cases n with
  | none => simpa using hacc
  | some n => simp

/-- Lines that neither throw nor end the loop. -/
theorem contentLengthLoop_lines {lines : List Str} (hbare : ∀ line ∈ lines, ¬ BareLength line)
    (hover : ∀ line ∈ lines, ¬ IsOver line) {acc : ℕ} (hacc : acc ≤ MAX_CONTENT_LENGTH) :
    contentLengthLoop lines acc = .ok (some ((lastLength lines).getD acc)) := by
  induction lines generalizing acc with
  | nil => rfl
  | cons line lines ih =>
    have ih := @ih (fun l hl => hbare l (List.mem_cons_of_mem _ hl))
      (fun l hl => hover l (List.mem_cons_of_mem _ hl))
    rw [contentLengthLoop_cons, lastLength_cons]
    cases hn : lengthOf line with
    | none =>
      dsimp only
      rw [ih hacc, Option.join_none, Option.or_none]
    | some n =>
      have hline : ¬ Bare line := fun h =>
        hbare line List.mem_cons_self (bareLength_iff.2 ⟨h, by rw [hn]; exact Option.some_ne_none n⟩)
      have hle := mt (isOver_iff hn hacc).2 (hover line List.mem_cons_self)
      dsimp only
      rw [if_neg hline, if_neg hle, ih (not_lt.1 hle)]
      cases lastLength lines <;> cases n <;> rfl

/-- Every line without a value stands behind a length over the limit. -/
def Reads (lines : List Str) : Prop :=
  ∀ before line after, lines = before ++ line :: after → BareLength line → ∃ l ∈ before, IsOver l

theorem reads_cons {line : Str} {lines : List Str} :
    Reads (line :: lines) ↔ ¬ BareLength line ∧ (IsOver line ∨ Reads lines) := by
  constructor
  · intro h
    refine ⟨fun hline => by simpa using h [] line lines rfl hline, or_iff_not_imp_left.2 fun hover => ?_⟩
    rintro before l after rfl hl
    obtain ⟨l', hl', hover'⟩ := h (line :: before) l after rfl hl
    rcases List.mem_cons.1 hl' with rfl | hl'
    · exact absurd hover' hover
    · exact ⟨l', hl', hover'⟩
  · rintro ⟨hline, hreads⟩ before l after heq hl
    rcases List.cons_eq_append_iff.1 heq with ⟨rfl, hcons⟩ | ⟨before', rfl, hlines⟩
    · obtain ⟨rfl, -⟩ := List.cons.inj hcons
      exact absurd hl hline
    · rcases hreads with hover | hreads
      · exact ⟨line, List.mem_cons_self, hover⟩
      · obtain ⟨l', hl', hover⟩ := hreads before' l after hlines hl
        exact ⟨l', List.mem_cons_of_mem _ hl', hover⟩

theorem Reads.not_bareLength {lines : List Str} (h : Reads lines) (hover : ¬ ∃ line ∈ lines, IsOver line) :
    ∀ line ∈ lines, ¬ BareLength line := by
  intro line hline hbare
  obtain ⟨before, after, rfl⟩ := List.append_of_mem hline
  obtain ⟨l, hl, hl'⟩ := h before line after rfl hbare
  exact hover ⟨l, List.mem_append_left _ hl, hl'⟩

/-- The loop returns exactly on such lines, and ends early exactly at a length over the limit. -/
theorem contentLengthLoop_reads {lines : List Str} {acc : ℕ} (hacc : acc ≤ MAX_CONTENT_LENGTH) :
    ((∃ n, contentLengthLoop lines acc = .ok n) ↔ Reads lines) ∧
      (contentLengthLoop lines acc = .ok none ↔ Reads lines ∧ ∃ line ∈ lines, IsOver line) := by
  induction lines generalizing acc with
  | nil =>
    have hreads : Reads [] := by
      intro before line after h
      simp at h
    exact ⟨⟨fun _ => hreads, fun _ => ⟨_, rfl⟩⟩, ⟨nofun, fun h => by simp at h⟩⟩
  | cons line lines ih =>
    rw [contentLengthLoop_cons, reads_cons]
    cases hn : lengthOf line with
    | none =>
      have hline : ¬ BareLength line := fun h => (bareLength_iff.1 h).2 hn
      have hover : ¬ IsOver line := by
        rintro ⟨n, hlength, -⟩
        rw [hn] at hlength
        cases hlength
      simp only [hline, hover, not_false_iff, true_and, false_or, List.exists_mem_cons_iff]
      exact ih hacc
    | some n =>
      have hiff : BareLength line ↔ Bare line := by simp [bareLength_iff, hn]
      dsimp only
      rw [hiff]
      by_cases hbare : Bare line
      · simp [hbare]
      · by_cases hover : IsOver line
        · rw [if_neg hbare, if_pos ((isOver_iff hn hacc).1 hover)]
          simp [hbare, hover]
        · have hle := mt (isOver_iff hn hacc).2 hover
          rw [if_neg hbare, if_neg hle]
          simp only [hbare, hover, not_false_iff, true_and, false_or, List.exists_mem_cons_iff]
          exact ih (not_lt.1 hle)

/-! ## Both functions over the lines -/

variable {data : Str} {headerEnd endLine : ℕ}

/-- A text with a blank line has a first line. -/
theorem exists_endLine (hblank : Cxx.find blankLine data = some headerEnd) :
    ∃ endLine ≤ headerEnd, Cxx.find crlf data = some endLine := by
  have hle := find_le hblank
  have hcrlf : crlf <+: blankLine := ⟨[13, 10], rfl⟩
  exact exists_find (hcrlf.trans (find_some hblank).1) (by omega)

theorem substrLen_headerLines (headerEnd : ℕ) (hcrlf : Cxx.find crlf data = some endLine) :
    ∃ headersStr, substrLen data (endLine + 2) (sizeSub headerEnd (endLine + 2)) = .ok headersStr ∧
      getlines 10 headersStr = headerLines data headerEnd endLine := by
  have hle := find_le hcrlf
  have hsubstr : substr data (endLine + 2) = .ok (data.drop (endLine + 2)) := if_pos hle
  exact ⟨_, by rw [substrLen, hsubstr]; rfl, rfl⟩

/-- The bytes behind the blank line are as many as the lines say, or the lines say too much. -/
def Arrived (data : Str) (headerEnd endLine : ℕ) : Prop :=
  (∃ line ∈ headerLines data headerEnd endLine, IsOver line) ∨
    (lastLength (headerLines data headerEnd endLine)).getD 0 ≤ data.length - (headerEnd + 4)

theorem isCompleteRequest_lines (hblank : Cxx.find blankLine data = some headerEnd)
    (hcrlf : Cxx.find crlf data = some endLine) :
    ((∃ complete, isCompleteRequest data = .ok complete) ↔ Reads (headerLines data headerEnd endLine)) ∧
      (isCompleteRequest data = .ok true ↔
        Reads (headerLines data headerEnd endLine) ∧ Arrived data headerEnd endLine) := by
  obtain ⟨headersStr, hsubstr, hlines⟩ := substrLen_headerLines headerEnd hcrlf
  have hloop := @contentLengthLoop_reads (headerLines data headerEnd endLine) 0 (Nat.zero_le _)
  unfold isCompleteRequest
  rw [hblank, hcrlf]
  dsimp only
  rw [hsubstr]
  dsimp only
  rw [hlines]
  cases hl : contentLengthLoop (headerLines data headerEnd endLine) 0 with
  | error e =>
    have hnot : ¬ Reads (headerLines data headerEnd endLine) := by
      rw [← hloop.1, hl]
      simp
    simp [hnot]
  | ok n =>
    have hreads : Reads (headerLines data headerEnd endLine) := hloop.1.1 ⟨n, hl⟩
    cases n with
    | none =>
      obtain ⟨-, hover⟩ := hloop.2.1 hl
      exact ⟨⟨fun _ => hreads, fun _ => ⟨true, rfl⟩⟩, ⟨fun _ => ⟨hreads, Or.inl hover⟩, fun _ => rfl⟩⟩
    | some n =>
      have hover : ¬ ∃ line ∈ headerLines data headerEnd endLine, IsOver line := by
        intro hover
        rw [hloop.2.2 ⟨hreads, hover⟩] at hl
        cases hl
      have hn : (lastLength (headerLines data headerEnd endLine)).getD 0 = n := by
        rw [contentLengthLoop_lines (hreads.not_bareLength hover) (fun line hline h => hover ⟨line, hline, h⟩)
          (Nat.zero_le _)] at hl
        exact Option.some.inj (Except.ok.inj hl)
      unfold Arrived
      rw [hn]
      simp [hreads, hover]

/-- What `parse` reads from the request line: the method, the path and the query string. -/
def requestParts (requestLine : Str) : Option (Method × Str × Str) :=
  (Cxx.find [32] requestLine).bind fun firstSpace =>
    (Cxx.find [32] (requestLine.drop (firstSpace + 1))).map fun targetLength =>
      (parseMethod (requestLine.take firstSpace),
        splitTarget ((requestLine.drop (firstSpace + 1)).take targetLength))

theorem parse_lines (hblank : Cxx.find blankLine data = some headerEnd)
    (hcrlf : Cxx.find crlf data = some endLine) :
    parse data =
      match requestParts (data.take endLine) with
      | none => .ok none
      | some (method, path, queryString) =>
        (headerLoop (headerLines data headerEnd endLine) .empty).map fun headers =>
          if MAX_CONTENT_LENGTH < contentLength headers then none
          else some { method, path, queryString, headers, bodyLength := contentLength headers,
                      body := (data.drop (headerEnd + 4)).take (contentLength headers),
                      pathParams := .empty } := by
  have hne : data ≠ [] := by
    rintro rfl
    cases hcrlf
  have hbody : ∀ (n : ℕ) (s : Str), (if 0 < n then s.take n else []) = s.take n := by
    intro n s
    split_ifs with hn
    · rfl
    · rw [Nat.eq_zero_of_not_pos hn, List.take_zero]
  obtain ⟨headersStr, hsubstr, hlines⟩ := substrLen_headerLines headerEnd hcrlf
  unfold parse requestParts
  rw [if_neg hne, hcrlf]
  dsimp only
  cases Cxx.find [32] (data.take endLine) with
  | none => rfl
  | some firstSpace =>
    dsimp only [Option.bind_some]
    cases Cxx.find [32] ((data.take endLine).drop (firstSpace + 1)) with
    | none => rfl
    | some targetLength =>
      dsimp only [Option.map_some, parseFields]
      rw [hblank]
      dsimp only
      rw [hsubstr]
      dsimp only
      rw [hlines]
      cases headerLoop (headerLines data headerEnd endLine) .empty with
      | error e => rfl
      | ok headers =>
        dsimp only [Except.map]
        rw [hbody]
        split_ifs <;> rfl

theorem requestParts_eq_none {requestLine : Str} :
    requestParts requestLine = none ↔ requestLine.count 32 < 2 := by
  unfold requestParts
  by_cases hfirst : 32 ∈ requestLine
  · obtain ⟨a, b, rfl, ha⟩ := List.eq_append_cons_of_mem hfirst
    have hb : (a ++ 32 :: b).drop (a.length + 1) = b := by simp
    have hcount : (a ++ 32 :: b).count 32 = b.count 32 + 1 := by
      rw [List.count_append, List.count_eq_zero.2 ha, List.count_cons_self, Nat.zero_add]
    rw [find_byte ha, Option.bind_some, hb, hcount, Option.map_eq_none_iff]
    by_cases hsecond : 32 ∈ b
    · obtain ⟨c, d, rfl, hc⟩ := List.eq_append_cons_of_mem hsecond
      rw [find_byte hc, List.count_append, List.count_cons_self]
      exact iff_of_false (Option.some_ne_none _) (by omega)
    · rw [find_byte_none hsecond, List.count_eq_zero.2 hsecond]
      simp
  · rw [find_byte_none hfirst, List.count_eq_zero.2 hfirst]
    simp

/-! ## No exception -/

/-- Neither function throws, `parse` on the texts that are accepted as complete. -/
def Total (data : Str) : Prop :=
  (∃ complete, isCompleteRequest data = .ok complete) ∧
    (isCompleteRequest data = .ok true → ∃ req, parse data = .ok req)

theorem parse_total (hblank : Cxx.find blankLine data = some headerEnd)
    (hcrlf : Cxx.find crlf data = some endLine) :
    (∃ req, parse data = .ok req) ↔
      (2 ≤ (data.take endLine).count 32 → ∀ line ∈ headerLines data headerEnd endLine, ¬ Bare line) := by
  rw [parse_lines hblank hcrlf]
  cases hparts : requestParts (data.take endLine) with
  | none =>
    have hlt := requestParts_eq_none.1 hparts
    exact ⟨fun _ hle => by omega, fun _ => ⟨none, rfl⟩⟩
  | some parts =>
    have hle : 2 ≤ (data.take endLine).count 32 := by
      by_contra hlt
      rw [requestParts_eq_none.2 (by omega)] at hparts
      cases hparts
    dsimp only
    constructor
    · rintro ⟨req, hreq⟩ - line hline hbare
      rw [headerLoop_bare ⟨line, hline, hbare⟩] at hreq
      cases hreq
    · intro h
      rw [headerLoop_fields (h hle)]
      exact ⟨_, rfl⟩

theorem readers_total (data : Str) :
    Total data ↔ ∀ headerEnd endLine, Cxx.find blankLine data = some headerEnd →
      Cxx.find crlf data = some endLine →
        Reads (headerLines data headerEnd endLine) ∧
          (Arrived data headerEnd endLine → 2 ≤ (data.take endLine).count 32 →
            ∀ line ∈ headerLines data headerEnd endLine, ¬ Bare line) := by
  cases hblank : Cxx.find blankLine data with
  | none =>
    have hfalse : isCompleteRequest data = .ok false := by
      unfold isCompleteRequest
      rw [hblank]
    have htotal : Total data := ⟨⟨false, hfalse⟩, fun htrue => by rw [hfalse] at htrue; cases htrue⟩
    exact ⟨fun _ => nofun, fun _ => htotal⟩
  | some headerEnd =>
    obtain ⟨endLine, -, hcrlf⟩ := exists_endLine hblank
    obtain ⟨hreturns, htrue⟩ := isCompleteRequest_lines hblank hcrlf
    unfold Total
    rw [hreturns, htrue, parse_total hblank hcrlf, hcrlf]
    constructor
    · rintro ⟨hreads, hparse⟩ _ _ ⟨⟩ ⟨⟩
      exact ⟨hreads, fun harrived => hparse ⟨hreads, harrived⟩⟩
    · intro h
      obtain ⟨hreads, hparse⟩ := h headerEnd endLine rfl rfl
      exact ⟨hreads, fun haccepted => hparse haccepted.2⟩

/-- A last header line that ends with its colon. -/
theorem bareLength_thrown : ¬ Total (lit "GET / HTTP/1.1\r\nContent-Length:\r\n\r\n") := by
  rintro ⟨⟨complete, hcomplete⟩, -⟩
  have hthrow : isCompleteRequest (lit "GET / HTTP/1.1\r\nContent-Length:\r\n\r\n") = .error .outOfRange := by
    decide +kernel
  rw [hthrow] at hcomplete
  cases hcomplete

/-! ## More bytes behind a complete request -/

/-- The fields of a request that are read from the text. -/
def Same (req req' : Request) : Prop :=
  req'.method = req.method ∧ req'.path = req.path ∧ req'.queryString = req.queryString ∧
    req'.headers = req.headers ∧ req'.body = req.body

/-- The request stays complete and the same when bytes are appended. -/
def Settled (data : Str) (req : Request) : Prop :=
  ∀ e, isCompleteRequest (data ++ e) = .ok true ∧ ∃ req', parse (data ++ e) = .ok (some req') ∧ Same req req'

/-- What `parse` made of the lines when it succeeded. -/
theorem parse_some (hblank : Cxx.find blankLine data = some headerEnd)
    (hcrlf : Cxx.find crlf data = some endLine) {req : Request} (h : parse data = .ok (some req)) :
    (∀ line ∈ headerLines data headerEnd endLine, ¬ Bare line) ∧
      req.headers = ((headerLines data headerEnd endLine).filterMap field).foldl
        (fun m f => m.insert f.1 f.2) .empty ∧
      req.bodyLength = (exactLength (headerLines data headerEnd endLine)).getD 0 ∧
      req.body = (data.drop (headerEnd + 4)).take req.bodyLength := by
  rw [parse_lines hblank hcrlf] at h
  cases hparts : requestParts (data.take endLine) with
  | none =>
    rw [hparts] at h
    cases h
  | some parts =>
    rw [hparts] at h
    dsimp only at h
    have hbare : ∀ line ∈ headerLines data headerEnd endLine, ¬ Bare line := by
      intro line hline hbare
      rw [headerLoop_bare ⟨line, hline, hbare⟩] at h
      cases h
    rw [headerLoop_fields hbare] at h
    dsimp only [Except.map] at h
    rw [contentLength_exact] at h
    split_ifs at h with hlimit
    · cases h
    · obtain rfl := Option.some.inj (Except.ok.inj h)
      exact ⟨hbare, rfl, rfl, rfl⟩

/-- The blank line is the end of the first line, or begins behind it. -/
theorem add_two_le (hblank : Cxx.find blankLine data = some headerEnd)
    (hcrlf : Cxx.find crlf data = some endLine) (hlt : endLine < headerEnd) : endLine + 2 ≤ headerEnd := by
  by_contra hle
  obtain rfl : headerEnd = endLine + 1 := by omega
  obtain ⟨s, hs⟩ := (find_some hcrlf).1
  obtain ⟨t, ht⟩ := (find_some hblank).1
  have hdrop : data.drop (endLine + 1) = 10 :: s := by
    rw [← List.drop_drop, ← hs]
    rfl
  rw [hdrop] at ht
  cases ht

/-- The lines end inside the text, so that later bytes are not among them. -/
theorem headerLines_append (hblank : Cxx.find blankLine data = some headerEnd)
    (hcrlf : Cxx.find crlf data = some endLine)
    (h : endLine < headerEnd ∨ endLine + 2 ^ 64 ≤ data.length) (e : Str) :
    headerLines (data ++ e) headerEnd endLine = headerLines data headerEnd endLine := by
  have hle := find_le hblank
  rw [show blankLine.length = 4 from rfl] at hle
  have hcut : sizeSub headerEnd (endLine + 2) ≤ (data.drop (endLine + 2)).length := by
    rw [List.length_drop]
    unfold sizeSub
    split_ifs with hsub
    · omega
    · have hend : ¬ endLine < headerEnd := fun hlt => hsub (add_two_le hblank hcrlf hlt)
      omega
  have hcrlfLe : endLine + 2 ≤ data.length := find_le hcrlf
  unfold headerLines
  rw [List.drop_append_of_le_length hcrlfLe, List.take_append_of_le_length hcut]

/-- Where the blank line ends the first line, the lines are those of all the text behind it. -/
theorem headerLines_unbounded (hlen : data.length ≤ endLine + 2 ^ 64) :
    headerLines data endLine endLine = getlines 10 (data.drop (endLine + 2)) := by
  unfold headerLines
  rw [sizeSub, if_neg (by omega), List.take_of_length_le]
  rw [List.length_drop]
  omega

/-- The map holds what the last line says. -/
theorem headerLoop_last {whole : List Str} {last name value : Str} {headers : OrdMap Str Str}
    (h : headerLoop (whole ++ [last]) .empty = .ok headers) (hfield : field last = some (name, value)) :
    headers.get name = some value := by
  have hbare : ∀ line ∈ whole ++ [last], ¬ Bare line := by
    intro line hline hbare
    rw [headerLoop_bare ⟨line, hline, hbare⟩] at h
    cases h
  rw [headerLoop_fields hbare, List.filterMap_append, List.filterMap_cons, hfield, List.filterMap_nil,
    List.foldl_append] at h
  obtain rfl := Except.ok.inj h
  rw [List.foldl_cons, List.foldl_nil, OrdMap.get_insert, if_pos rfl]

theorem length_popCR_le (s : Str) : (popCR s).length ≤ s.length := by
  unfold popCR
  split_ifs
  · rw [List.length_dropLast]
    omega
  · exact le_rfl

/-- A colon behind the last line is a line without a value, or belongs to the last value. -/
theorem headerLoop_colon (s : Str) (headers : OrdMap Str Str)
    (h : headerLoop (getlines 10 s) .empty = .ok headers) :
    headerLoop (getlines 10 (s ++ [58])) .empty ≠ .ok headers := by
  obtain ⟨whole, last, hlast, hlines⟩ := getlines_unfinished 10 s
  have hcolon : getlines 10 (last ++ [58]) = [last ++ [58]] :=
    getlines_last (by simp [hlast]) (by simp)
  rw [hlines, hcolon]
  intro hsame
  by_cases hmem : 58 ∈ last
  · have hne : last ≠ [] := List.ne_nil_of_mem hmem
    have hold := hlines []
    rw [List.append_nil, List.append_nil, getlines_last hlast hne] at hold
    rw [hold] at h
    have hlastBare : ¬ Bare last := by
      intro hbare
      rw [headerLoop_bare ⟨last, by simp, hbare⟩] at h
      cases h
    obtain ⟨name, tail, hsplit, hname⟩ := List.eq_append_cons_of_mem hmem
    have hfind : Cxx.find [58] last = some name.length := by rw [hsplit, find_byte hname]
    have hfind' : Cxx.find [58] (last ++ [58]) = some name.length := find_append hfind [58]
    have hle : name.length + 2 ≤ last.length := by
      have := mt (bare_iff hfind).2 hlastBare
      omega
    have hvalue := headerLoop_last h (by rw [field, hfind, Option.map_some])
    have hvalue' := headerLoop_last hsame (by rw [field, hfind', Option.map_some])
    have htake : (last ++ [58]).take name.length = last.take name.length :=
      List.take_append_of_le_length (by omega)
    have hpop : popCR (last.drop (name.length + 2) ++ [58]) = last.drop (name.length + 2) ++ [58] := by
      rw [popCR, if_neg (by simp)]
    rw [htake, List.drop_append_of_le_length hle, hpop, hvalue] at hvalue'
    have hlen := congrArg List.length (Option.some.inj hvalue')
    have hpopLe := length_popCR_le (last.drop (name.length + 2))
    rw [List.length_append, List.length_singleton] at hlen
    omega
  · rw [headerLoop_bare ⟨last ++ [58], by simp, last, hmem, rfl⟩] at hsame
    cases hsame

theorem complete_settled {req : Request} (hcomplete : isCompleteRequest data = .ok true)
    (hparse : parse data = .ok (some req)) (hblank : Cxx.find blankLine data = some headerEnd)
    (hcrlf : Cxx.find crlf data = some endLine) :
    Settled data req ↔ (endLine < headerEnd ∨ endLine + 2 ^ 64 ≤ data.length) ∧
      (exactLength (headerLines data headerEnd endLine)).getD 0 ≤ data.length - (headerEnd + 4) := by
  obtain ⟨hbare, hheaders, hlength, hbody⟩ := parse_some hblank hcrlf hparse
  have hblankLe : headerEnd + 4 ≤ data.length := find_le hblank
  constructor
  · intro h
    have hlines : endLine < headerEnd ∨ endLine + 2 ^ 64 ≤ data.length := by
      by_contra hnot
      obtain ⟨endLine', hle, hcrlf'⟩ := exists_endLine hblank
      obtain rfl : endLine' = endLine := Option.some.inj (hcrlf'.symm.trans hcrlf)
      obtain rfl : endLine' = headerEnd := by omega
      obtain ⟨-, req', hparse', -, -, -, hsame, -⟩ := h [58]
      obtain ⟨hbare', hheaders', -, -⟩ := parse_some (find_append hblank [58]) (find_append hcrlf [58]) hparse'
      have hdrop : (data ++ [58]).drop (endLine' + 2) = data.drop (endLine' + 2) ++ [58] :=
        List.drop_append_of_le_length (by omega)
      have hlines : headerLines data endLine' endLine' = getlines 10 (data.drop (endLine' + 2)) :=
        headerLines_unbounded (by omega)
      have hlines' : headerLines (data ++ [58]) endLine' endLine' =
          getlines 10 (data.drop (endLine' + 2) ++ [58]) := by
        rw [← hdrop]
        exact headerLines_unbounded (by rw [List.length_append, List.length_singleton]; omega)
      rw [hlines] at hbare hheaders
      rw [hlines'] at hbare' hheaders'
      refine headerLoop_colon (data.drop (endLine' + 2)) req.headers ?_ ?_
      · rw [headerLoop_fields hbare, hheaders]
      · rw [headerLoop_fields hbare', ← hheaders', hsame]
    refine ⟨hlines, ?_⟩
    by_contra hlt
    obtain ⟨-, req', hparse', -, -, -, -, hsame⟩ := h [0]
    obtain ⟨-, -, hlength', hbody'⟩ := parse_some (find_append hblank [0]) (find_append hcrlf [0]) hparse'
    rw [headerLines_append hblank hcrlf hlines, ← hlength] at hlength'
    rw [hbody', hbody, hlength'] at hsame
    have hlen := congrArg List.length hsame
    simp only [List.length_take, List.length_drop, List.length_append, List.length_singleton] at hlen
    omega
  · rintro ⟨hlines, hle⟩ e
    obtain ⟨hreads, harrived⟩ := (isCompleteRequest_lines hblank hcrlf).2.1 hcomplete
    have hsame := headerLines_append hblank hcrlf hlines e
    refine ⟨(isCompleteRequest_lines (find_append hblank e) (find_append hcrlf e)).2.2 ⟨?_, ?_⟩, req, ?_,
      rfl, rfl, rfl, rfl, rfl⟩
    · rwa [hsame]
    · unfold Arrived
      rw [hsame, List.length_append]
      exact harrived.imp_right fun hbytes => by omega
    · have hline : (data ++ e).take endLine = data.take endLine :=
        List.take_append_of_le_length (by have : endLine + 2 ≤ data.length := find_le hcrlf; omega)
      have hrest : ((data ++ e).drop (headerEnd + 4)).take
          ((exactLength (headerLines data headerEnd endLine)).getD 0) =
          (data.drop (headerEnd + 4)).take ((exactLength (headerLines data headerEnd endLine)).getD 0) := by
        rw [List.drop_append_of_le_length hblankLe, List.take_append_of_le_length]
        rw [List.length_drop]
        exact hle
      rw [← hparse, parse_lines hblank hcrlf, parse_lines (find_append hblank e) (find_append hcrlf e), hline,
        hsame, headerLoop_fields hbare]
      dsimp only [Except.map]
      rw [contentLength_exact, hrest]

/-- A request with a body. -/
def hostText : Str := lit "POST / HTTP/1.1\r\nHost: a\r\nContent-Length: 2\r\n\r\nok"

def hostRequest : Request where
  method := .POST
  path := lit "/"
  queryString := []
  headers := .ofList [(lit "Host", lit "a"), (lit "Content-Length", lit "2")]
  body := lit "ok"
  bodyLength := 2
  pathParams := .empty

theorem hostText_read :
    isCompleteRequest hostText = .ok true ∧ parse hostText = .ok (some hostRequest) ∧
      Cxx.find blankLine hostText = some 43 ∧ Cxx.find crlf hostText = some 15 := by
  decide +kernel

theorem hostText_lengths :
    (lastLength (headerLines hostText 43 15)).getD 0 = 2 ∧ (exactLength (headerLines hostText 43 15)).getD 0 = 2 ∧
      ∀ line ∈ headerLines hostText 43 15, lengthOf line = none ∨ lengthOf line = some (some 2) := by
  decide +kernel

theorem host_settled : Settled hostText hostRequest := by
  obtain ⟨hcomplete, hparse, hblank, hcrlf⟩ := hostText_read
  refine (complete_settled hcomplete hparse hblank hcrlf).2 ⟨Or.inl (by omega), ?_⟩
  rw [hostText_lengths.2.1]
  decide

/-- Without header lines, what comes later is read as one. -/
def shortText : Str := lit "GET / HTTP/1.1\r\n\r\n"

theorem short_unsettled :
    ∃ req, isCompleteRequest shortText = .ok true ∧ parse shortText = .ok (some req) ∧
      ¬ Settled shortText req := by
  have hread : isCompleteRequest shortText = .ok true ∧
      parse shortText = .ok (some ⟨.GET, lit "/", [], .empty, [], 0, .empty⟩) ∧
      parse (shortText ++ lit "A: 1") =
        .ok (some ⟨.GET, lit "/", [], .ofList [(lit "A", lit "1")], [], 0, .empty⟩) ∧
      OrdMap.ofList [(lit "A", lit "1")] ≠ .empty := by
    decide +kernel
  obtain ⟨hcomplete, hparse, hlate, hne⟩ := hread
  refine ⟨_, hcomplete, hparse, fun h => ?_⟩
  obtain ⟨-, req', hreq', -, -, -, hheaders, -⟩ := h (lit "A: 1")
  rw [hlate] at hreq'
  obtain rfl := Option.some.inj (Except.ok.inj hreq')
  exact hne hheaders

/-! ## The two content lengths -/

/-- The content length `isCompleteRequest` waits for. -/
def waitedLength (data : Str) : Option ℕ :=
  match Cxx.find blankLine data, Cxx.find crlf data with
  | some headerEnd, some endLine =>
    match contentLengthLoop (headerLines data headerEnd endLine) 0 with
    | .ok contentLength => contentLength
    | .error _ => none
  | _, _ => none

/-- The body is as long as `bodyLength` says, and that is what `isCompleteRequest` waited for. -/
def Agree (data : Str) (headerEnd : ℕ) (req : Request) : Prop :=
  req.body.length = req.bodyLength ∧ req.body = (data.drop (headerEnd + 4)).take req.bodyLength ∧
    waitedLength data = some req.bodyLength

theorem lengths_agree {req : Request} (hcomplete : isCompleteRequest data = .ok true)
    (hparse : parse data = .ok (some req)) (hblank : Cxx.find blankLine data = some headerEnd)
    (hcrlf : Cxx.find crlf data = some endLine) :
    Agree data headerEnd req ↔
      (∀ line ∈ headerLines data headerEnd endLine, ¬ IsOver line) ∧
        (lastLength (headerLines data headerEnd endLine)).getD 0 =
          (exactLength (headerLines data headerEnd endLine)).getD 0 := by
  obtain ⟨hbare, hheaders, hlength, hbody⟩ := parse_some hblank hcrlf hparse
  obtain ⟨hreads, harrived⟩ := (isCompleteRequest_lines hblank hcrlf).2.1 hcomplete
  have hwaited : waitedLength data = some req.bodyLength ↔
      contentLengthLoop (headerLines data headerEnd endLine) 0 = .ok (some req.bodyLength) := by
    unfold waitedLength
    rw [hblank, hcrlf]
    dsimp only
    cases contentLengthLoop (headerLines data headerEnd endLine) 0 <;> simp
  have hbareLength : ∀ line ∈ headerLines data headerEnd endLine, ¬ BareLength line :=
    fun line hline h => hbare line hline (bareLength_iff.1 h).1
  constructor
  · rintro ⟨-, -, h⟩
    rw [hwaited] at h
    have hover : ∀ line ∈ headerLines data headerEnd endLine, ¬ IsOver line := by
      intro line hline hover
      rw [(contentLengthLoop_reads (Nat.zero_le _)).2.2 ⟨hreads, line, hline, hover⟩] at h
      cases h
    rw [contentLengthLoop_lines hbareLength hover (Nat.zero_le _)] at h
    exact ⟨hover, (Option.some.inj (Except.ok.inj h)).trans hlength⟩
  · rintro ⟨hover, heq⟩
    refine ⟨?_, hbody, ?_⟩
    · have hle := harrived.resolve_left fun ⟨line, hline, h⟩ => hover line hline h
      rw [hbody, List.length_take, List.length_drop, hlength]
      omega
    · rw [hwaited, contentLengthLoop_lines hbareLength hover (Nat.zero_le _), heq, hlength]

theorem host_agree : Agree hostText 43 hostRequest := by
  obtain ⟨hcomplete, hparse, hblank, hcrlf⟩ := hostText_read
  obtain ⟨hlast, hexact, hlengths⟩ := hostText_lengths
  refine (lengths_agree hcomplete hparse hblank hcrlf).2 ⟨fun line hline hover => ?_, hlast.trans hexact.symm⟩
  obtain ⟨n, hn, hlimit⟩ := hover
  rcases hlengths line hline with h | h
  · rw [h] at hn
    cases hn
  · rw [h] at hn
    cases hn
    exact absurd hlimit (by decide)

/-- The last content length cannot be read. -/
def unreadableText : Str :=
  lit "POST / HTTP/1.1\r\nContent-Length: 2\r\nContent-Length: x\r\n\r\nok"

theorem unreadable_disagree :
    ∃ headerEnd req, Cxx.find blankLine unreadableText = some headerEnd ∧
      isCompleteRequest unreadableText = .ok true ∧ parse unreadableText = .ok (some req) ∧
      ¬ Agree unreadableText headerEnd req := by
  have hread : Cxx.find blankLine unreadableText = some 53 ∧ isCompleteRequest unreadableText = .ok true ∧
      parse unreadableText =
        .ok (some ⟨.POST, lit "/", [], .ofList [(lit "Content-Length", lit "x")], [], 0, .empty⟩) ∧
      waitedLength unreadableText = some 2 := by
    decide +kernel
  obtain ⟨hblank, hcomplete, hparse, hwaited⟩ := hread
  refine ⟨53, _, hblank, hcomplete, hparse, fun h => ?_⟩
  have hsame := hwaited.symm.trans h.2.2
  cases hsame

end Request

end NarMusic

/-
  Canonical requests: the text a well-behaved client sends, and what
  `isCompleteRequest` and `parse` make of it.

  `Canonical.bytes` is the encoding.  Framing is exact on it: no proper prefix
  is a complete request and the whole text is (`complete_take`,
  `complete_bytes`), and `parse` gives back what was encoded (`parse_bytes`).
-/
import NarMusic.Http.Block

namespace NarMusic

open Cxx

/-- `methodString()`. -/
def Method.methodString : Method → Str
  | .GET => lit "GET"
  | .POST => lit "POST"
  | .PUT => lit "PUT"
  | .DELETE => lit "DELETE"
  | .UNKNOWN => lit "UNKNOWN"

/-- The line of a header. -/
def headerLine (h : Str × Str) : Str := h.1 ++ 58 :: 32 :: h.2

/-- A header whose name and value can be told apart. -/
structure PlainHeader (h : Str × Str) : Prop where
  name_ne : h.1 ≠ []
  name_colon : 58 ∉ h.1
  name_plain : Plain h.1
  value_plain : Plain h.2

/-- A request in canonical form. -/
structure Canonical where
  method : Method
  target : Str
  version : Str
  headers : List (Str × Str)
  body : Str
  method_known : method ≠ .UNKNOWN
  target_space : 32 ∉ target
  target_plain : Plain target
  version_space : 32 ∉ version
  version_plain : Plain version
  headers_plain : ∀ h ∈ headers, PlainHeader h
  headers_nodup : (headers.map Prod.fst).Nodup
  body_le : body.length ≤ MAX_CONTENT_LENGTH
  length_present : body ≠ [] → contentLengthKey ∈ headers.map Prod.fst
  length_value : ∀ h ∈ headers, h.1 = contentLengthKey → h.2 = dec body.length

namespace Canonical

def requestLine (c : Canonical) : Str :=
  c.method.methodString ++ 32 :: (c.target ++ 32 :: c.version)

/-- The bytes of a request. -/
def bytes (c : Canonical) : Str :=
  c.requestLine ++ crlf ++ c.headers.flatMap (fun h => headerLine h ++ crlf) ++ crlf ++ c.body

/-- What `parse` should give back. -/
def request (c : Canonical) : Request where
  method := c.method
  path := c.target.takeWhile (· ≠ 63)
  queryString := (c.target.dropWhile (· ≠ 63)).tail
  headers := .ofList c.headers
  body := c.body
  bodyLength := c.body.length
  pathParams := .empty

end Canonical

/-! ## The header block -/

/-- Header lines, each with the line break before it. -/
def headerBlock (hs : List (Str × Str)) : Str := hs.flatMap fun h => crlf ++ headerLine h

theorem headerLine_plain {h : Str × Str} (hh : PlainHeader h) : Plain (headerLine h) := by
  obtain ⟨-, -, ⟨h1, h2⟩, h3, h4⟩ := hh
  constructor <;> simp [headerLine, *]

theorem headerLine_ne {h : Str × Str} : headerLine h ≠ [] := by simp [headerLine]

theorem headerLine_block {hs : List (Str × Str)} (hh : ∀ h ∈ hs, PlainHeader h) :
    ∀ line ∈ hs.map headerLine, Plain line ∧ line ≠ [] := by
  intro line hline
  obtain ⟨h, hmem, rfl⟩ := List.mem_map.1 hline
  exact ⟨headerLine_plain (hh h hmem), headerLine_ne⟩

theorem headerBlock_eq (hs : List (Str × Str)) : headerBlock hs = lineBlock (hs.map headerLine) := by
  rw [headerBlock, lineBlock, List.flatMap_map]

/-- The lines `getline` reads from a header block: all but the last keep their CR. -/
def textLines : List (Str × Str) → List Str
  | [] => []
  | [h] => [headerLine h]
  | h :: h' :: hs => (headerLine h ++ [13]) :: textLines (h' :: hs)

theorem textLines_eq (hs : List (Str × Str)) : textLines hs = crLines (hs.map headerLine) := by
  induction hs using textLines.induct with
  | case1 => rfl
  | case2 h => rfl
  | case3 h h' hs ih => rw [textLines, ih]; rfl

namespace Request

theorem popCR_plain {s : Str} (h : Plain s) : popCR s = s := by
  unfold popCR
  rw [if_neg fun he => h.1 (List.mem_of_getLast? he)]

theorem popCR_append {s : Str} : popCR (s ++ [13]) = s := by simp [popCR]

/-- What both header loops read from the line of a header. -/
theorem line_parts {h : Str × Str} (hh : PlainHeader h) {tail : Str} (ht : tail = [] ∨ tail = [13]) :
    find [58] (headerLine h ++ tail) = some h.1.length ∧
      (headerLine h ++ tail).take h.1.length = h.1 ∧
      substr (headerLine h ++ tail) (h.1.length + 2) = .ok (h.2 ++ tail) ∧
      popCR (h.2 ++ tail) = h.2 := by
  have hsplit : headerLine h ++ tail = h.1 ++ 58 :: (32 :: (h.2 ++ tail)) := by simp [headerLine]
  refine ⟨by rw [hsplit, find_byte hh.name_colon], by simp [hsplit], ?_, ?_⟩
  · have : headerLine h ++ tail = (h.1 ++ [58, 32]) ++ (h.2 ++ tail) := by simp [headerLine]
    have hlen : h.1.length + 2 = (h.1 ++ [58, 32]).length := by simp
    rw [this, hlen, substr_append]
  · rcases ht with rfl | rfl
    · rw [List.append_nil, popCR_plain hh.value_plain]
    · exact popCR_append

/-- One round of the header loop of `isCompleteRequest`. -/
theorem contentLengthLoop_line {h : Str × Str} (hh : PlainHeader h) {tail : Str}
    (ht : tail = [] ∨ tail = [13]) {n : ℕ} (hn : n ≤ MAX_CONTENT_LENGTH)
    (hv : h.1 = contentLengthKey → h.2 = dec n) (lines : List Str) (acc : ℕ) :
    contentLengthLoop ((headerLine h ++ tail) :: lines) acc =
      contentLengthLoop lines (if h.1 = contentLengthKey then n else acc) := by
  obtain ⟨h1, h2, h3, h4⟩ := line_parts hh ht
  rw [contentLengthLoop, h1]
  simp only [h2, popCR_plain hh.name_plain, h3, h4]
  split_ifs with hk hlt
  · rw [hv hk, stoul_dec (lt_of_le_of_lt hn (by decide)), Option.getD_some] at hlt
    omega
  · rw [hv hk, stoul_dec (lt_of_le_of_lt hn (by decide)), Option.getD_some]
  · rfl

theorem contentLengthLoop_text {n : ℕ} (hn : n ≤ MAX_CONTENT_LENGTH) {hs : List (Str × Str)}
    (hh : ∀ h ∈ hs, PlainHeader h) (hv : ∀ h ∈ hs, h.1 = contentLengthKey → h.2 = dec n) (acc : ℕ) :
    contentLengthLoop (textLines hs) acc =
      .ok (some (if contentLengthKey ∈ hs.map Prod.fst then n else acc)) := by
  induction hs using textLines.induct generalizing acc with
  | case1 => simp [textLines, contentLengthLoop]
  | case2 h =>
    have := contentLengthLoop_line (hh h (by simp)) (.inl rfl) hn (hv h (by simp)) [] acc
    rw [List.append_nil] at this
    rw [textLines, this, contentLengthLoop]
    simp [eq_comm]
  | case3 h h' hs ih =>
    rw [textLines, contentLengthLoop_line (hh h (by simp)) (.inr rfl) hn (hv h (by simp)),
      ih (fun x hx => hh x (List.mem_cons_of_mem _ hx)) (fun x hx => hv x (List.mem_cons_of_mem _ hx))]
    by_cases hk : contentLengthKey ∈ (h' :: hs).map Prod.fst
    · rw [if_pos hk, if_pos (by rw [List.map_cons]; exact List.mem_cons_of_mem _ hk)]
    · have hiff : contentLengthKey ∈ (h :: h' :: hs).map Prod.fst ↔ h.1 = contentLengthKey := by
        rw [List.map_cons, List.mem_cons, eq_comm]
        simp only [hk, or_false]
      rw [if_neg hk]
      simp only [hiff]

theorem headerLoop_line {h : Str × Str} (hh : PlainHeader h) {tail : Str}
    (ht : tail = [] ∨ tail = [13]) (lines : List Str) (m : OrdMap Str Str) :
    headerLoop ((headerLine h ++ tail) :: lines) m = headerLoop lines (m.insert h.1 h.2) := by
  obtain ⟨h1, h2, h3, h4⟩ := line_parts hh ht
  rw [headerLoop, h1]
  simp only [h2, h3, h4]

theorem headerLoop_text {hs : List (Str × Str)} (hh : ∀ h ∈ hs, PlainHeader h) (m : OrdMap Str Str) :
    headerLoop (textLines hs) m = .ok (hs.foldl (fun m h => m.insert h.1 h.2) m) := by
  induction hs using textLines.induct generalizing m with
  | case1 => rfl
  | case2 h =>
    have := headerLoop_line (hh h (by simp)) (.inl rfl) [] m
    rw [List.append_nil] at this
    rw [textLines, this]
    rfl
  | case3 h h' hs ih =>
    rw [textLines, headerLoop_line (hh h (by simp)) (.inr rfl),
      ih fun x hx => hh x (List.mem_cons_of_mem _ hx)]
    rfl

end Request

/-! ## The whole text -/

theorem methodString_plain (m : Method) : 32 ∉ m.methodString ∧ Plain m.methodString := by
  unfold Plain; cases m <;> decide

theorem parseMethod_string {m : Method} (h : m ≠ .UNKNOWN) :
    Request.parseMethod m.methodString = m := by
  revert h; cases m <;> decide

namespace Canonical

variable (c : Canonical)

/-- The bytes before the blank line. -/
def head : Str := c.requestLine ++ headerBlock c.headers

theorem requestLine_plain : Plain c.requestLine := by
  obtain ⟨-, h1, h2⟩ := methodString_plain c.method
  have := c.target_plain
  have := c.version_plain
  unfold Plain at *
  simp [requestLine, *]

theorem bytes_eq : c.bytes = c.head ++ (blankLine ++ c.body) := by
  have hlines := flatMap_crlf (c.headers.map headerLine)
  rw [List.flatMap_map, ← headerBlock_eq] at hlines
  simp only [bytes, head, List.append_assoc]
  rw [← List.append_assoc crlf, hlines]
  simp [blankLine, crlf]

theorem head_eq : c.head = c.requestLine ++ lineBlock (c.headers.map headerLine) := by
  rw [head, headerBlock_eq]

theorem find_head_blank (t : Str) : find blankLine (c.head ++ (blankLine ++ t)) = some c.head.length := by
  rw [head_eq, List.append_assoc, find_block_blank c.requestLine_plain.1 (headerLine_block c.headers_plain)]

theorem find_head_crlf (t : Str) : find crlf (c.head ++ (blankLine ++ t)) = some c.requestLine.length := by
  rw [head_eq, List.append_assoc, find_block_crlf c.requestLine_plain.1]

/-- The text of the header block that both functions cut out. -/
theorem headersStr_eq (t : Str) (ht : c.headers = [] → t = []) :
    ∃ headersStr, substrLen (c.head ++ (blankLine ++ t)) (c.requestLine.length + 2)
        (sizeSub c.head.length (c.requestLine.length + 2)) = .ok headersStr ∧
      (getlines 10 headersStr = textLines c.headers ∨
        c.headers = [] ∧ getlines 10 headersStr = [[13]]) := by
  rw [head_eq, List.append_assoc, textLines_eq, ← List.map_eq_nil_iff]
  exact headersStr_block c.requestLine (headerLine_block c.headers_plain) fun hnil => ht (List.map_eq_nil_iff.1 hnil)

/-- The body is as long as the headers say. -/
theorem contentLength_eq :
    (if contentLengthKey ∈ c.headers.map Prod.fst then c.body.length else 0) = c.body.length := by
  split_ifs with h
  · rfl
  · by_contra hne
    exact h (c.length_present fun hb => hne (by simp [hb]))

/-- Behind the header block, the request is complete when the whole body is there. -/
theorem complete_head (t : Str) (ht : c.headers = [] → t = []) :
    Request.isCompleteRequest (c.head ++ (blankLine ++ t)) = .ok (c.body.length ≤ t.length) := by
  obtain ⟨headersStr, hs, hl⟩ := c.headersStr_eq t ht
  have hloop : Request.contentLengthLoop (getlines 10 headersStr) 0 = .ok (some c.body.length) := by
    rcases hl with hl | ⟨hnil, hl⟩
    · rw [hl, Request.contentLengthLoop_text c.body_le c.headers_plain c.length_value,
        c.contentLength_eq]
    · have hb := c.contentLength_eq
      rw [hnil, List.map_nil, if_neg List.not_mem_nil] at hb
      rw [hl, ← hb]
      rfl
  unfold Request.isCompleteRequest
  rw [c.find_head_blank, c.find_head_crlf]
  simp only [hs, hloop, List.length_append, blankLine_length]
  congr 2
  exact propext ⟨fun h => by omega, fun h => by omega⟩

theorem complete_bytes : Request.isCompleteRequest c.bytes = .ok true := by
  have hnil : c.headers = [] → c.body = [] := fun h => by
    by_contra hb
    simpa [h] using c.length_present hb
  rw [bytes_eq, c.complete_head c.body hnil]
  simp

/-- A proper prefix is not a complete request. -/
theorem complete_take {n : ℕ} (hn : n < c.bytes.length) :
    Request.isCompleteRequest (c.bytes.take n) = .ok false := by
  cases hf : find blankLine (c.bytes.take n) with
  | none => simp [Request.isCompleteRequest, hf]
  | some i =>
    -- The blank line found is that of the whole text, so only the body is cut short.
    have hi : i = c.head.length := by
      have := find_append hf (c.bytes.drop n)
      rw [List.take_append_drop, bytes_eq, c.find_head_blank] at this
      exact (Option.some.inj this).symm
    have hle := find_le hf
    have hb : c.bytes.length = c.head.length + 4 + c.body.length := by
      rw [bytes_eq]
      simp only [List.length_append, blankLine_length]
      omega
    simp only [blankLine_length, List.length_take] at hle
    obtain ⟨k, rfl⟩ : ∃ k, n = (c.head ++ blankLine).length + k :=
      ⟨n - (c.head ++ blankLine).length, by simp; omega⟩
    have hk : k < c.body.length := by
      simp only [List.length_append, blankLine_length] at hn
      omega
    have hne : c.headers ≠ [] := fun h => by
      have : c.body ≠ [] := List.ne_nil_of_length_pos (by omega)
      simpa [h] using c.length_present this
    rw [bytes_eq, ← List.append_assoc, List.take_length_add_append, List.append_assoc,
      c.complete_head _ fun h => absurd h hne]
    simp only [List.length_take]
    congr 1
    simp only [decide_eq_false_iff_not]
    omega

theorem splitTarget_eq (s : Str) :
    Request.splitTarget s = (s.takeWhile (· ≠ 63), (s.dropWhile (· ≠ 63)).tail) := by
  unfold Request.splitTarget
  by_cases h : 63 ∈ s
  · obtain ⟨a, b, rfl, ha⟩ := List.eq_append_cons_of_mem h
    have hall : ∀ x ∈ a, decide (x ≠ 63) = true := fun x hx => by
      simpa using fun he : x = 63 => ha (he ▸ hx)
    rw [find_byte ha, List.takeWhile_append_of_pos hall, List.dropWhile_append_of_pos hall]
    simp
  · have hall : ∀ b ∈ s, decide (b ≠ 63) = true := fun b hb => by
      simpa using fun he : b = 63 => h (he ▸ hb)
    rw [find_byte_none h, List.takeWhile_eq_self_iff.2 hall, List.dropWhile_eq_nil_iff.2 hall]
    rfl

/-- The content length `parse` reads back from its header map. -/
theorem contentLength_headers : Request.contentLength (.ofList c.headers) = c.body.length := by
  unfold Request.contentLength
  rw [OrdMap.get_ofList c.headers_nodup]
  cases hl : OrdMap.assoc contentLengthKey c.headers with
  | none =>
    have hb := c.contentLength_eq
    rw [if_neg (OrdMap.assoc_eq_none_iff.1 hl)] at hb
    exact hb
  | some v =>
    have hv : v = dec c.body.length := c.length_value _ (OrdMap.mem_of_assoc hl) rfl
    have hlt : c.body.length < 2 ^ 64 := lt_of_le_of_lt c.body_le (by decide)
    simp only [hv, stoul_dec hlt, Option.getD_some]

theorem headerLoop_head (t : Str) (ht : c.headers = [] → t = []) :
    ∃ headersStr, substrLen (c.head ++ (blankLine ++ t)) (c.requestLine.length + 2)
        (sizeSub c.head.length (c.requestLine.length + 2)) = .ok headersStr ∧
      Request.headerLoop (getlines 10 headersStr) .empty = .ok (.ofList c.headers) := by
  obtain ⟨headersStr, hs, hl⟩ := c.headersStr_eq t ht
  refine ⟨headersStr, hs, ?_⟩
  rcases hl with hl | ⟨hnil, hl⟩
  · rw [hl, Request.headerLoop_text c.headers_plain]
    rfl
  · rw [hl, hnil]
    rfl

/-- **`parse` gives back the request that was encoded.** -/
theorem parse_bytes : Request.parse c.bytes = .ok (some c.request) := by
  have hnil : c.headers = [] → c.body = [] := fun h => by
    by_contra hb
    simpa [h] using c.length_present hb
  obtain ⟨headersStr, hs, hl⟩ := c.headerLoop_head c.body hnil
  have hfields : ∀ target, Request.parseFields c.bytes c.requestLine.length c.method target =
      .ok (some { c.request with path := target.1, queryString := target.2 }) := fun target => by
    unfold Request.parseFields
    rw [bytes_eq, c.find_head_blank]
    simp only [hs, hl, c.contentLength_headers]
    rw [if_neg (not_lt.2 c.body_le)]
    have hdrop : (c.head ++ (blankLine ++ c.body)).drop (c.head.length + 4) = c.body := by
      rw [← List.append_assoc]
      exact List.drop_left' (by simp)
    have hbody : (if 0 < c.body.length then c.body else []) = c.body := by
      split_ifs with h
      · rfl
      · exact (List.eq_nil_of_length_eq_zero (by omega)).symm
    rw [hdrop, List.take_length, hbody]
    rfl
  have hline : c.bytes.take c.requestLine.length = c.requestLine := by
    rw [bytes_eq, head, List.append_assoc, List.take_left']
    rfl
  have hne : c.bytes ≠ [] := by
    rw [bytes_eq]
    simp [blankLine]
  have hcrlf : find crlf c.bytes = some c.requestLine.length := by
    rw [bytes_eq, c.find_head_crlf]
  have hdrop : c.requestLine.drop (c.method.methodString.length + 1) =
      c.target ++ 32 :: c.version := by
    rw [requestLine, ← List.drop_drop, List.drop_left']
    · rfl
    · rfl
  unfold Request.parse
  rw [if_neg hne, hcrlf]
  simp only [hline]
  rw [show find [32] c.requestLine = some c.method.methodString.length from
    find_byte (methodString_plain c.method).1 _]
  simp only [hdrop, find_byte c.target_space]
  rw [requestLine, List.take_left' rfl, List.take_left' rfl, parseMethod_string c.method_known,
    ← requestLine, hfields, splitTarget_eq]
  rfl

end Canonical

/-- **Framing and parsing are exact on canonical requests.** -/
theorem framing_exact (c : Canonical) :
    (∀ p, p <+: c.bytes → p ≠ c.bytes → Request.isCompleteRequest p = .ok false) ∧
      Request.isCompleteRequest c.bytes = .ok true ∧
      ∃ req, Request.parse c.bytes = .ok (some req) ∧ req.method = c.method ∧
        req.path = c.target.takeWhile (· ≠ 63) ∧
        req.queryString = (c.target.dropWhile (· ≠ 63)).tail ∧
        (∀ name value, req.headers.get name = some value ↔ (name, value) ∈ c.headers) ∧
        req.body = c.body := by
  refine ⟨?_, c.complete_bytes, c.request, c.parse_bytes, rfl, rfl, rfl,
    fun name value => OrdMap.get_ofList_eq_some c.headers_nodup, rfl⟩
  intro p hp hne
  have hlt : p.length < c.bytes.length :=
    lt_of_le_of_ne hp.length_le fun h => hne (hp.eq_of_length h)
  rw [List.prefix_iff_eq_take.1 hp]
  exact c.complete_take hlt

end NarMusic

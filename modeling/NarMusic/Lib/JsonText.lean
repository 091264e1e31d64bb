/-
  The grammar of JSON over bytes, and the braces of its texts.

  `Text` is the grammar; of the bytes of a string from 0x80 on nothing is asked.  A scan that knows
  what a string is (`step`) counts the objects that are open (`depth`) apart from the braces in
  strings (`excess`): in the text of an object the depth is at least one until its last byte
  (`Text.depth_pos`) and zero there (`Text.depth_zero`), whatever stands in its strings.  What a
  plain count of the braces sees is the difference of the two (`count_eq`).
-/
import Mathlib.Algebra.BigOperators.Group.List.Basic
import NarMusic.Lib.Hex

open Cxx

namespace JsonText

/-! ## The grammar -/

def Blank (s : Str) : Prop := ∀ c ∈ s, c = 32 ∨ c = 9 ∨ c = 10 ∨ c = 13

def Digits (s : Str) : Prop := s ≠ [] ∧ ∀ c ∈ s, isdigit c = true

/-- `-? (0 | [1-9][0-9]*) (. [0-9]+)? ([eE] [+-]? [0-9]+)?` -/
def Number (s : Str) : Prop :=
  ∃ sign whole fraction exponent, s = sign ++ whole ++ fraction ++ exponent ∧ (sign = [] ∨ sign = [45]) ∧
    Digits whole ∧ (whole = [48] ∨ whole.head? ≠ some 48) ∧
    (fraction = [] ∨ ∃ ds, fraction = 46 :: ds ∧ Digits ds) ∧
    (exponent = [] ∨ ∃ e sign ds, exponent = e :: (sign ++ ds) ∧ (e = 101 ∨ e = 69) ∧
      (sign = [] ∨ sign = [43] ∨ sign = [45]) ∧ Digits ds)

/-- What stands between the quotes of a string. -/
inductive Chars : Str → Prop
  | nil : Chars []
  | plain {c : Byte} {s : Str} : 32 ≤ c → c ≠ 34 → c ≠ 92 → Chars s → Chars (c :: s)
  | escape {c : Byte} {s : Str} : c ∈ [34, 92, 47, 98, 102, 110, 114, 116] → Chars s → Chars (92 :: c :: s)
  | unicode {a b c d : Byte} {s : Str} : isxdigit a = true → isxdigit b = true → isxdigit c = true →
      isxdigit d = true → Chars s → Chars (92 :: 117 :: a :: b :: c :: d :: s)

def Quoted (s : Str) : Prop := ∃ body, Chars body ∧ s = 34 :: (body ++ [34])

inductive Kind where
  | value
  | object
  /-- At least one element. -/
  | elements
  /-- At least one member. -/
  | members

inductive Text : Kind → Str → Prop
  | literal {s : Str} : s = lit "null" ∨ s = lit "true" ∨ s = lit "false" → Text .value s
  | number {s : Str} : Number s → Text .value s
  | string {s : Str} : Quoted s → Text .value s
  | emptyArr {w : Str} : Blank w → Text .value (91 :: (w ++ [93]))
  | arr {s : Str} : Text .elements s → Text .value (91 :: (s ++ [93]))
  | obj {s : Str} : Text .object s → Text .value s
  | emptyObj {w : Str} : Blank w → Text .object (123 :: (w ++ [125]))
  | members {s : Str} : Text .members s → Text .object (123 :: (s ++ [125]))
  | lastElement {w₁ v w₂ : Str} : Blank w₁ → Text .value v → Blank w₂ → Text .elements (w₁ ++ v ++ w₂)
  | element {w₁ v w₂ s : Str} : Blank w₁ → Text .value v → Blank w₂ → Text .elements s →
      Text .elements (w₁ ++ v ++ w₂ ++ 44 :: s)
  | lastMember {w₁ k w₂ w₃ v w₄ : Str} : Blank w₁ → Quoted k → Blank w₂ → Blank w₃ → Text .value v →
      Blank w₄ → Text .members (w₁ ++ k ++ w₂ ++ 58 :: (w₃ ++ v ++ w₄))
  | member {w₁ k w₂ w₃ v w₄ s : Str} : Blank w₁ → Quoted k → Blank w₂ → Blank w₃ → Text .value v →
      Blank w₄ → Text .members s → Text .members (w₁ ++ k ++ w₂ ++ 58 :: (w₃ ++ v ++ w₄ ++ 44 :: s))

/-! ## Braces -/

/-- Outside of strings, in a string, and behind a backslash in one. -/
inductive Mode where
  | out
  | str
  | esc
  deriving DecidableEq

structure Scan where
  mode : Mode := .out
  /-- The objects that are open. -/
  depth : ℤ := 0
  /-- The closing braces in strings, less the opening ones. -/
  excess : ℤ := 0

/-- One for a closing brace, and minus one for an opening one. -/
def closing (c : Byte) : ℤ := if c = 125 then 1 else if c = 123 then -1 else 0

def step (a : Scan) (c : Byte) : Scan :=
  match a.mode with
  | .out => { a with mode := if c = 34 then .str else .out, depth := a.depth - closing c }
  | .str => { a with mode := if c = 34 then .out else if c = 92 then .esc else .str, excess := a.excess + closing c }
  | .esc => { a with mode := .str, excess := a.excess + closing c }

def scanFrom (a : Scan) (s : Str) : Scan := s.foldl step a

def depth (s : Str) : ℤ := (scanFrom {} s).depth

def excess (s : Str) : ℤ := (scanFrom {} s).excess

/-- The opening braces of a text, less the closing ones. -/
def count (s : Str) : ℤ := -(s.map closing).sum

@[simp] theorem count_nil : count [] = 0 := rfl

theorem count_cons (c : Byte) (s : Str) : count (c :: s) = count s - closing c := by
  unfold count
  rw [List.map_cons, List.sum_cons]
  omega

theorem scanFrom_append (a : Scan) (s t : Str) : scanFrom a (s ++ t) = scanFrom (scanFrom a s) t :=
  List.foldl_append

theorem scanFrom_count (a : Scan) (s : Str) :
    (scanFrom a s).depth - (scanFrom a s).excess = a.depth - a.excess + count s := by
  induction s generalizing a with
  | nil => simp [scanFrom]
  | cons c s ih =>
    have hstep : (step a c).depth - (step a c).excess = a.depth - a.excess - closing c := by
      unfold step
      cases a.mode <;> simp only <;> omega
    have hcons : scanFrom a (c :: s) = scanFrom (step a c) s := rfl
    rw [hcons, ih, hstep, count_cons]
    omega

/-- **A plain count** takes the braces in strings with the others. -/
theorem count_eq (s : Str) : count s = depth s - excess s := by
  have h := scanFrom_count {} s
  unfold depth excess
  rw [h]
  simp

/-! ## Texts that leave the depth -/

/-- A prefix ends in the front, or behind it. -/
theorem front_or_behind {p s t : Str} (h : p <+: s ++ t) : p <+: s ∨ ∃ q, p = s ++ q ∧ q <+: t := by
  rcases List.prefix_or_prefix_of_prefix h (List.prefix_append s t) with hp | ⟨q, rfl⟩
  · exact Or.inl hp
  · exact Or.inr ⟨q, rfl, (List.prefix_append_right_inj s).1 h⟩

/-- From one mode to another the depth comes back, and it is never lower. -/
def Level (m : Mode) (s : Str) (m' : Mode) : Prop :=
  ∀ d e, (∃ e', scanFrom ⟨m, d, e⟩ s = ⟨m', d, e'⟩) ∧ ∀ p, p <+: s → d ≤ (scanFrom ⟨m, d, e⟩ p).depth

theorem Level.nil (m : Mode) : Level m [] m := by
  refine fun d e => ⟨⟨e, rfl⟩, fun p hp => ?_⟩
  rw [List.prefix_nil.1 hp]
  exact le_rfl

theorem Level.append {m m' m'' : Mode} {s t : Str} (hs : Level m s m') (ht : Level m' t m'') :
    Level m (s ++ t) m'' := by
  intro d e
  obtain ⟨⟨e', hend⟩, hle⟩ := hs d e
  obtain ⟨⟨e'', hend'⟩, hle'⟩ := ht d e'
  refine ⟨⟨e'', by rw [scanFrom_append, hend, hend']⟩, fun p hp => ?_⟩
  rcases front_or_behind hp with hp | ⟨q, rfl, hq⟩
  · exact hle p hp
  · rw [scanFrom_append, hend]
    exact hle' q hq

theorem Level.byte {m m' : Mode} {c : Byte} (h : ∀ d e, ∃ e', step ⟨m, d, e⟩ c = ⟨m', d, e'⟩) : Level m [c] m' := by
  intro d e
  obtain ⟨e', he⟩ := h d e
  refine ⟨⟨e', he⟩, fun p hp => ?_⟩
  rcases List.prefix_cons_iff.1 hp with rfl | ⟨q, rfl, hq⟩
  · exact le_rfl
  · obtain rfl := List.prefix_nil.1 hq
    exact le_of_eq (congrArg Scan.depth he).symm

theorem Level.cons {m m' m'' : Mode} {c : Byte} {s : Str} (h : ∀ d e, ∃ e', step ⟨m, d, e⟩ c = ⟨m', d, e'⟩)
    (hs : Level m' s m'') : Level m (c :: s) m'' := (Level.byte h).append hs

/-- A byte that is no quote and no brace. -/
theorem step_out {c : Byte} (hquote : c ≠ 34) (hclosing : closing c = 0) (d e : ℤ) :
    ∃ e', step ⟨.out, d, e⟩ c = ⟨.out, d, e'⟩ := ⟨e, by simp [step, hquote, hclosing]⟩

theorem Level.of_forall {s : Str} (h : ∀ c ∈ s, c ≠ 34 ∧ closing c = 0) : Level .out s .out := by
  induction s with
  | nil => exact Level.nil _
  | cons c s ih =>
    obtain ⟨⟨hquote, hclosing⟩, hs⟩ := List.forall_mem_cons.1 h
    exact .cons (step_out hquote hclosing) (ih hs)

theorem Level.of_all {s : Str} (h : s.all (fun c => c ≠ 34 && closing c = 0) = true) : Level .out s .out := by
  refine .of_forall fun c hc => ?_
  simpa using List.all_eq_true.1 h c hc

theorem Level.quoted {s : Str} (h : Quoted s) : Level .out s .out := by
  have hplain : ∀ {c : Byte}, c ≠ 34 → c ≠ 92 → ∀ d e, ∃ e', step ⟨.str, d, e⟩ c = ⟨.str, d, e'⟩ :=
    fun {c} hquote hslash d e => ⟨e + closing c, by simp only [step, if_neg hquote, if_neg hslash]⟩
  have hslash : ∀ d e, ∃ e', step ⟨.str, d, e⟩ 92 = ⟨.esc, d, e'⟩ := fun d e => ⟨_, rfl⟩
  have hescaped : ∀ (c : Byte) (d e : ℤ), ∃ e', step ⟨.esc, d, e⟩ c = ⟨.str, d, e'⟩ := fun c d e => ⟨_, rfl⟩
  have hhex : ∀ {c : Byte}, isxdigit c = true → c ≠ 34 ∧ c ≠ 92 := by
    rintro c hc
    constructor <;> rintro rfl <;> cases hc
  have hchars : ∀ {body : Str}, Chars body → Level .str body .str := by
    intro body hbody
    induction hbody with
    | nil => exact Level.nil _
    | plain _ hquote hback _ ih => exact .cons (hplain hquote hback) ih
    | escape _ _ ih => exact .cons hslash (.cons (hescaped _) ih)
    | unicode ha hb hc hd _ ih =>
      exact .cons hslash (.cons (hescaped _) (.cons (hplain (hhex ha).1 (hhex ha).2)
        (.cons (hplain (hhex hb).1 (hhex hb).2) (.cons (hplain (hhex hc).1 (hhex hc).2)
          (.cons (hplain (hhex hd).1 (hhex hd).2) ih)))))
  obtain ⟨body, hbody, rfl⟩ := h
  have hbegin : ∀ d e, ∃ e', step ⟨.out, d, e⟩ 34 = ⟨.str, d, e'⟩ := fun d e => ⟨e, by simp [step, closing]⟩
  have hend : ∀ d e, ∃ e', step ⟨.str, d, e⟩ 34 = ⟨.out, d, e'⟩ := fun d e => ⟨_, rfl⟩
  exact .cons hbegin ((hchars hbody).append (.byte hend))

theorem Level.blank {s : Str} (h : Blank s) : Level .out s .out := by
  refine .of_forall fun c hc => ?_
  rcases h c hc with rfl | rfl | rfl | rfl <;> decide

theorem digit_plain {c : Byte} (h : isdigit c = true) : c ≠ 34 ∧ closing c = 0 := by
  have hnot : c ≠ 34 ∧ c ≠ 125 ∧ c ≠ 123 := by
    refine ⟨?_, ?_, ?_⟩ <;> rintro rfl <;> cases h
  exact ⟨hnot.1, by rw [closing, if_neg hnot.2.1, if_neg hnot.2.2]⟩

theorem Level.number {s : Str} (h : Number s) : Level .out s .out := by
  obtain ⟨sign, whole, fraction, exponent, rfl, hsign, ⟨-, hwhole⟩, -, hfraction, hexponent⟩ := h
  have hsigns : ∀ {sign : Str}, sign = [] ∨ sign = [43] ∨ sign = [45] → Level .out sign .out := by
    rintro sign (rfl | rfl | rfl)
    · exact Level.nil _
    · exact .of_all rfl
    · exact .of_all rfl
  have hdigits : ∀ {ds : Str}, (∀ c ∈ ds, isdigit c = true) → Level .out ds .out :=
    fun h => .of_forall fun c hc => digit_plain (h c hc)
  have hfraction : Level .out fraction .out := by
    rcases hfraction with rfl | ⟨ds, rfl, -, hds⟩
    · exact Level.nil _
    · exact .cons (step_out (by decide) (by decide)) (hdigits hds)
  have hexponent : Level .out exponent .out := by
    rcases hexponent with rfl | ⟨e, sign, ds, rfl, he, hsign, -, hds⟩
    · exact Level.nil _
    · refine .cons (step_out ?_ ?_) ((hsigns hsign).append (hdigits hds))
      · rcases he with rfl | rfl <;> decide
      · rcases he with rfl | rfl <;> decide
  have hsign : sign = [] ∨ sign = [43] ∨ sign = [45] := hsign.imp_right Or.inr
  exact (((hsigns hsign).append (hdigits hwhole)).append hfraction).append hexponent

/-- The braces of an object, around what leaves the depth. -/
theorem Level.braces {s : Str} (h : Level .out s .out) (d e : ℤ) :
    (∃ e', scanFrom ⟨.out, d, e⟩ (123 :: (s ++ [125])) = ⟨.out, d, e'⟩) ∧
      ∀ p, p <+: 123 :: (s ++ [125]) → p ≠ [] → p ≠ 123 :: (s ++ [125]) →
        d + 1 ≤ (scanFrom ⟨.out, d, e⟩ p).depth := by
  obtain ⟨⟨e', hend⟩, hle⟩ := h (d + 1) e
  have hopen : ∀ t, scanFrom ⟨.out, d, e⟩ (123 :: t) = scanFrom ⟨.out, d + 1, e⟩ t := fun t => rfl
  constructor
  · refine ⟨e', ?_⟩
    rw [hopen, scanFrom_append, hend]
    simp [scanFrom, step, closing]
  · intro p hp hne hproper
    rcases List.prefix_cons_iff.1 hp with rfl | ⟨q, rfl, hq⟩
    · exact absurd rfl hne
    rw [hopen]
    rcases List.prefix_concat_iff.1 hq with rfl | hq
    · exact absurd rfl hproper
    · exact hle q hq

theorem Text.level {k : Kind} {s : Str} (h : Text k s) : Level .out s .out := by
  have hcomma : ∀ d e, ∃ e', step ⟨.out, d, e⟩ 44 = ⟨.out, d, e'⟩ := step_out (by decide) (by decide)
  have hcolon : ∀ d e, ∃ e', step ⟨.out, d, e⟩ 58 = ⟨.out, d, e'⟩ := step_out (by decide) (by decide)
  have hopen : ∀ d e, ∃ e', step ⟨.out, d, e⟩ 91 = ⟨.out, d, e'⟩ := step_out (by decide) (by decide)
  have hclose : Level .out [93] .out := .of_all rfl
  have hbraces : ∀ {s : Str}, Level .out s .out → Level .out (123 :: (s ++ [125])) .out := by
    intro s hs d e
    obtain ⟨hend, hle⟩ := hs.braces d e
    refine ⟨hend, fun p hp => ?_⟩
    by_cases hnil : p = []
    · exact hnil ▸ le_rfl
    by_cases hall : p = 123 :: (s ++ [125])
    · obtain ⟨e', he⟩ := hend
      rw [hall, he]
    · have := hle p hp hnil hall
      omega
  induction h with
  | literal h => rcases h with rfl | rfl | rfl <;> exact .of_all rfl
  | number h => exact .number h
  | string h => exact .quoted h
  | emptyArr hw => exact .cons hopen ((Level.blank hw).append hclose)
  | arr _ ih => exact .cons hopen (ih.append hclose)
  | obj _ ih => exact ih
  | emptyObj hw => exact hbraces (.blank hw)
  | members _ ih => exact hbraces ih
  | lastElement h₁ _ h₂ ih => exact ((Level.blank h₁).append ih).append (.blank h₂)
  | element h₁ _ h₂ _ ih ih' => exact (((Level.blank h₁).append ih).append (.blank h₂)).append (.cons hcomma ih')
  | lastMember h₁ hk h₂ h₃ _ h₄ ih =>
    exact (((Level.blank h₁).append (.quoted hk)).append (.blank h₂)).append
      (.cons hcolon (((Level.blank h₃).append ih).append (.blank h₄)))
  | member h₁ hk h₂ h₃ _ h₄ _ ih ih' =>
    exact (((Level.blank h₁).append (.quoted hk)).append (.blank h₂)).append
      (.cons hcolon ((((Level.blank h₃).append ih).append (.blank h₄)).append (.cons hcomma ih')))

/-- What stands between the braces of an object. -/
theorem Text.braces {s : Str} (h : Text .object s) : ∃ t, s = 123 :: (t ++ [125]) ∧ Level .out t .out := by
  cases h with
  | emptyObj hw => exact ⟨_, rfl, .blank hw⟩
  | members h => exact ⟨_, rfl, h.level⟩

theorem Text.depth_zero {s : Str} (h : Text .object s) : depth s = 0 := by
  obtain ⟨t, rfl, ht⟩ := h.braces
  obtain ⟨⟨e', he⟩, -⟩ := ht.braces 0 0
  exact congrArg Scan.depth he

/-- **An object is open** until its last byte. -/
theorem Text.depth_pos {s p : Str} (h : Text .object s) (hp : p <+: s) (hne : p ≠ []) (hproper : p ≠ s) :
    0 < depth p := by
  obtain ⟨t, rfl, ht⟩ := h.braces
  exact (ht.braces 0 0).2 p hp hne hproper

end JsonText

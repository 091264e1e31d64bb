/-
  Paths as `std::filesystem` takes them apart on a POSIX system.

  * `components` are the names between the separators, empty ones left out.
  * `normalise` drops every `.` and lets `..` drop the name before it; what is left is
    a number of `..` and then names.  Normal forms are put together without their texts
    (`normalise_append`).
  * `lexicallyNormal` is the normal form of a path, in which `..` above the root
    directory goes, and `Below` says that one path is under another, component by
    component.
-/
import NarMusic.Lib.Bytes

namespace Path

open Cxx

/-- The separator `/`. -/
abbrev sep : Byte := 47

def components (p : Str) : List Str := (p.splitOn sep).filter (· ≠ [])

/-- A relative path in normal form: `ups` times `..`, and names. -/
structure Rel where
  ups : ℕ := 0
  names : List Str := []
  deriving DecidableEq

namespace Rel

/-- The path goes on with `..`. -/
def up (r : Rel) : Rel :=
  if r.names = [] then { r with ups := r.ups + 1 } else { r with names := r.names.dropLast }

/-- The path goes on with a component. -/
def push (r : Rel) (c : Str) : Rel :=
  if c = lit "." then r else if c = lit ".." then r.up else { r with names := r.names ++ [c] }

/-- The path goes on with a path. -/
def append (a b : Rel) : Rel where
  ups := a.ups + (b.ups - a.names.length)
  names := a.names.take (a.names.length - b.ups) ++ b.names

end Rel

def normalise (cs : List Str) : Rel := cs.foldl Rel.push {}

/-- A path in normal form. -/
structure Normal where
  absolute : Bool
  ups : ℕ
  names : List Str
  deriving DecidableEq

/-- `fs::path(p).lexically_normal()`. -/
def lexicallyNormal (p : Str) : Normal :=
  let r := normalise (components p)
  let absolute := p.head? = some sep
  { absolute, ups := if absolute then 0 else r.ups, names := r.names }

/-- A list goes on after `l`. -/
def StrictPrefix (l m : List Str) : Prop := l <+: m ∧ l ≠ m

instance (l m : List Str) : Decidable (StrictPrefix l m) := inferInstanceAs (Decidable (_ ∧ _))

/-- `p` is a descendant of `base`. -/
def Normal.Below (base p : Normal) : Prop :=
  p.absolute = base.absolute ∧ p.ups = base.ups ∧ StrictPrefix base.names p.names

instance (base p : Normal) : Decidable (base.Below p) := inferInstanceAs (Decidable (_ ∧ _ ∧ _))

/-! ## Components -/

theorem components_nil : components [] = [] := by decide

theorem components_append_sep (a b : Str) : components (a ++ sep :: b) = components a ++ components b := by
  simp only [components, List.splitOn_append_cons_self, List.filter_append]

theorem components_cons_sep (b : Str) : components (sep :: b) = components b := by
  have h := components_append_sep [] b
  rwa [components_nil, List.nil_append, List.nil_append] at h

/-- A separator at the end of a path adds no component. -/
theorem components_concat_sep (a : Str) : components (a ++ [sep]) = components a := by
  rw [components_append_sep, components_nil, List.append_nil]

/-- Two texts that meet at a separator keep their components. -/
theorem components_append {a b : Str} (h : a = [] ∨ a.getLast? = some sep ∨ b.head? = some sep) :
    components (a ++ b) = components a ++ components b := by
  rcases h with rfl | h | h
  · simp [components_nil]
  · obtain ⟨a', rfl⟩ := List.getLast?_eq_some_iff.1 h
    rw [components_concat_sep, List.append_assoc, List.singleton_append, components_append_sep]
  · obtain ⟨b', rfl⟩ := List.head?_eq_some_iff.1 h
    rw [components_append_sep, components_cons_sep]

/-! ## Normal forms -/

theorem Rel.append_nil (a : Rel) : a.append {} = a := by
  simp [Rel.append]

theorem Rel.append_up (a b : Rel) : (a.append b).up = a.append b.up := by
  by_cases hb : b.names = []
  · by_cases hle : a.names.length ≤ b.ups
    · -- no name of `a` is left
      have hnil : (a.append b).names = [] := by simp [append, hb, Nat.sub_eq_zero_of_le hle]
      simp only [up, if_pos hnil, if_pos hb]
      simp only [append, hb, Nat.sub_eq_zero_of_le hle, Nat.sub_eq_zero_of_le (Nat.le_succ_of_le hle),
        List.take_zero, mk.injEq, and_true]
      omega
    · have hne : (a.append b).names ≠ [] := by
        intro hnil
        have hlen := congrArg List.length hnil
        simp [append, hb] at hlen
        omega
      simp only [up, if_neg hne, if_pos hb]
      simp only [append, hb, List.append_nil, mk.injEq]
      constructor
      · omega
      · rw [List.dropLast_eq_take, List.take_take, List.length_take]
        congr 1
        omega
  · have hne : (a.append b).names ≠ [] := by simp [append, hb]
    simp only [up, if_neg hne, if_neg hb]
    simp only [append, List.dropLast_append_of_ne_nil hb]

theorem Rel.append_push (a b : Rel) (c : Str) : (a.append b).push c = a.append (b.push c) := by
  unfold push
  split_ifs
  · rfl
  · exact append_up a b
  · simp [append]

theorem foldl_push (a : Rel) (cs : List Str) : cs.foldl Rel.push a = a.append (normalise cs) := by
  induction cs using List.reverseRecOn with
  | nil => exact (Rel.append_nil a).symm
  | append_singleton cs c ih =>
    simp only [normalise, List.foldl_append, List.foldl_cons, List.foldl_nil] at ih ⊢
    rw [ih, Rel.append_push]

/-- The normal form of a path that goes on. -/
theorem normalise_append (as bs : List Str) :
    normalise (as ++ bs) = (normalise as).append (normalise bs) := by
  rw [normalise, List.foldl_append]
  exact foldl_push _ bs

end Path

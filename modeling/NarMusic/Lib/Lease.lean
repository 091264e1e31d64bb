/-
  Things that are lent: each one that has been made is in the store, or with exactly one of the
  users.

  `Sound` says so of a store, a list of users and the number of things made.  It is kept when a user
  takes a thing from the store, gets a new one, gives one back, or does something else with it; then
  no thing is with two users (`Sound.inj`) or both lent and in the store (`Sound.notMem`).
-/
import Mathlib.Data.List.Perm.Basic
import Mathlib.Data.List.Range
import Mathlib.Tactic.Common

namespace Lease

universe u
variable {υ : Type u} (holds : υ → Option ℕ)

/-- The things that are with a user. -/
def held (users : List υ) : List ℕ := users.filterMap holds

def Sound (store : List ℕ) (users : List υ) (made : ℕ) : Prop :=
  (store ++ held holds users).Perm (List.range made)

theorem sound_empty : Sound holds [] [] 0 := .nil

variable {holds} {store : List ℕ} {users : List υ} {made i j h : ℕ} {u u' : υ}

/-! ## A user changes -/

theorem held_same (hi : users[i]? = some u) (hsame : holds u' = holds u) :
    held holds (users.set i u') = held holds users := by
  induction users generalizing i with
  | nil => cases hi
  | cons a users ih =>
    cases i with
    | zero =>
      obtain rfl := Option.some.inj hi
      simp only [held, List.set_cons_zero, List.filterMap_cons, hsame]
    | succ i =>
      have htail := ih hi
      simp only [held, List.set_cons_succ, List.filterMap_cons] at htail ⊢
      rw [htail]

theorem held_gain (hi : users[i]? = some u) (hnone : holds u = none) (hsome : holds u' = some h) :
    (held holds (users.set i u')).Perm (h :: held holds users) := by
  induction users generalizing i with
  | nil => cases hi
  | cons a users ih =>
    cases i with
    | zero =>
      obtain rfl := Option.some.inj hi
      simp only [held, List.set_cons_zero, List.filterMap_cons, hnone, hsome]
      exact .refl _
    | succ i =>
      have htail := ih hi
      simp only [held, List.set_cons_succ, List.filterMap_cons] at htail ⊢
      cases holds a with
      | none => exact htail
      | some g => exact (htail.cons g).trans (.swap h g _)

theorem held_lose (hi : users[i]? = some u) (hsome : holds u = some h) (hnone : holds u' = none) :
    (held holds users).Perm (h :: held holds (users.set i u')) := by
  have hlt : i < users.length := (List.getElem?_eq_some_iff.1 hi).1
  have hset : (users.set i u')[i]? = some u' := List.getElem?_set_self hlt
  have hback : (users.set i u').set i u = users := by
    obtain ⟨_, rfl⟩ := List.getElem?_eq_some_iff.1 hi
    rw [List.set_set, List.set_getElem_self]
  have hgain := held_gain hset hnone hsome
  rwa [hback] at hgain

theorem held_new (hnone : holds u = none) : held holds (users ++ [u]) = held holds users := by
  simp [held, hnone]

theorem mem_held (hi : users[i]? = some u) (hsome : holds u = some h) : h ∈ held holds users :=
  List.mem_filterMap.2 ⟨u, List.mem_of_getElem? hi, hsome⟩

/-! ## What keeps a store sound -/

namespace Sound

theorem new (hs : Sound holds store users made) (hnone : holds u = none) :
    Sound holds store (users ++ [u]) made := by
  rw [Sound, held_new hnone]
  exact hs

theorem keep (hs : Sound holds store users made) (hi : users[i]? = some u) (hsame : holds u' = holds u) :
    Sound holds store (users.set i u') made := by
  rw [Sound, held_same hi hsame]
  exact hs

theorem take (hs : Sound holds (h :: store) users made) (hi : users[i]? = some u) (hnone : holds u = none)
    (hsome : holds u' = some h) : Sound holds store (users.set i u') made :=
  ((held_gain hi hnone hsome).append_left store).trans (List.perm_middle.trans hs)

theorem make (hs : Sound holds store users made) (hi : users[i]? = some u) (hnone : holds u = none)
    (hsome : holds u' = some made) : Sound holds store (users.set i u') (made + 1) := by
  have hperm : (store ++ held holds (users.set i u')).Perm (made :: List.range made) :=
    ((held_gain hi hnone hsome).append_left store).trans (List.perm_middle.trans (hs.cons made))
  rw [Sound, List.range_succ]
  exact hperm.trans (List.perm_append_singleton made _).symm

theorem put (hs : Sound holds store users made) (hi : users[i]? = some u) (hsome : holds u = some h)
    (hnone : holds u' = none) : Sound holds (store ++ [h]) (users.set i u') made := by
  rw [Sound, List.append_assoc]
  exact ((held_lose hi hsome hnone).symm.append_left store).trans hs

/-! ## What a sound store gives -/

theorem nodup (hs : Sound holds store users made) : (store ++ held holds users).Nodup :=
  hs.nodup_iff.2 List.nodup_range

/-- No thing is lent and in the store. -/
theorem notMem (hs : Sound holds store users made) (hi : users[i]? = some u) (hsome : holds u = some h) :
    h ∉ store :=
  fun hstore => (List.nodup_append.1 hs.nodup).2.2 h hstore h (mem_held hi hsome) rfl

/-- No thing is with two users. -/
theorem inj (hs : Sound holds store users made) {v : υ} (hi : users[i]? = some u) (hj : users[j]? = some v)
    (hu : holds u = some h) (hv : holds v = some h) : i = j := by
  by_contra hne
  have hheld : (held holds users).Nodup := (List.nodup_append.1 hs.nodup).2.1
  clear hs
  induction users generalizing i j with
  | nil => cases hi
  | cons a users ih =>
    have htail : (held holds users).Nodup := by
      rw [held, List.filterMap_cons] at hheld
      cases ha : holds a with
      | none => rwa [ha] at hheld
      | some g =>
        rw [ha] at hheld
        exact hheld.of_cons
    have hhead {w : υ} {k : ℕ} (ha : holds a = some h) (hk : users[k]? = some w) (hw : holds w = some h) :
        False := by
      rw [held, List.filterMap_cons, ha] at hheld
      exact (List.nodup_cons.1 hheld).1 (mem_held hk hw)
    cases i with
    | zero =>
      obtain rfl := Option.some.inj hi
      cases j with
      | zero => exact hne rfl
      | succ j => exact hhead hu hj hv
    | succ i =>
      cases j with
      | zero =>
        obtain rfl := Option.some.inj hj
        exact hhead hv hi hu
      | succ j => exact ih hi hj (fun h => hne (congrArg _ h)) htail

theorem count (hs : Sound holds store users made) : store.length + (held holds users).length = made := by
  rw [← List.length_append, hs.length_eq, List.length_range]

end Sound

end Lease

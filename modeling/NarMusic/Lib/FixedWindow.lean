/-
  Fixed-window counting.

  A window starts with a hit and counts the hits until one comes after its end, which
  starts the next window; a sweep forgets a window.  The rules say when a window has
  ended (`ended`) and when a sweep may forget it (`swept`); time is any linear order.

  * In one window at most `limit` hits are allowed (`countP_until_reset`).
  * An interval that is over before a window started in it has ended meets two windows
    at most, so it has at most twice as many (`countP_interval`).
  * Where a sweep only forgets windows that have ended, sweeps cannot be seen
    (`outcomes_hits`).
-/
import Mathlib.Data.List.TakeWhile
import Mathlib.Order.Lattice
import Mathlib.Tactic.Common

namespace FixedWindow

structure Window (τ : Type) where
  count : ℤ
  start : τ

structure Rules (τ : Type) where
  limit : ℤ
  /-- The count after one more hit. -/
  next : ℤ → ℤ
  ended : τ → τ → Bool
  swept : τ → τ → Bool

inductive Event (τ : Type) where
  | hit (now : τ)
  | sweep (now : τ)

structure Outcome (τ : Type) where
  now : τ
  allowed : Bool
  reset : Bool

variable {τ : Type}

def Event.now : Event τ → τ
  | .hit now => now
  | .sweep now => now

def Event.isHit : Event τ → Bool
  | .hit _ => true
  | .sweep _ => false

@[simp] theorem isHit_hit (now : τ) : (Event.hit now).isHit = true := rfl

@[simp] theorem isHit_sweep (now : τ) : (Event.sweep now).isHit = false := rfl

namespace Rules

variable (r : Rules τ)

def resets (now : τ) : Option (Window τ) → Bool
  | none => true
  | some w => r.ended w.start now

def hit (now : τ) (slot : Option (Window τ)) : Bool × Window τ :=
  match slot with
  | none => (true, ⟨1, now⟩)
  | some w =>
    if r.ended w.start now then (true, ⟨1, now⟩)
    else (r.next w.count ≤ r.limit, ⟨r.next w.count, w.start⟩)

def sweep (now : τ) (slot : Option (Window τ)) : Option (Window τ) :=
  slot.filter fun w => !r.swept w.start now

def step (slot : Option (Window τ)) : Event τ → Option (Window τ)
  | .hit now => some (r.hit now slot).2
  | .sweep now => r.sweep now slot

def outcomes : Option (Window τ) → List (Event τ) → List (Outcome τ)
  | _, [] => []
  | slot, .hit now :: es =>
    ⟨now, (r.hit now slot).1, r.resets now slot⟩ :: outcomes (r.step slot (.hit now)) es
  | slot, .sweep now :: es => outcomes (r.step slot (.sweep now)) es

variable {r} {slot : Option (Window τ)} {w : Window τ} {now : τ} {es : List (Event τ)}

theorem hit_of_resets (h : r.resets now slot) : r.hit now slot = (true, ⟨1, now⟩) := by
  cases slot with
  | none => rfl
  | some w => exact if_pos h

theorem hit_of_not_resets (h : ¬ r.resets now (some w)) :
    r.hit now (some w) = (decide (r.next w.count ≤ r.limit), ⟨r.next w.count, w.start⟩) := if_neg h

theorem sweep_cases (now : τ) (slot : Option (Window τ)) :
    r.sweep now slot = slot ∨ (r.sweep now slot = none ∧ ∃ w, slot = some w ∧ r.swept w.start now) := by
  cases slot with
  | none => exact Or.inl rfl
  | some w =>
    by_cases h : r.swept w.start now
    · exact Or.inr ⟨by simp [sweep, h], w, rfl, h⟩
    · exact Or.inl (by simp [sweep, h])

end Rules

open Rules

/-! ## The count -/

/-- How many hits there are. -/
def hits (es : List (Event τ)) : ℕ := es.countP Event.isHit

@[simp] theorem hits_hit (now : τ) (es : List (Event τ)) : hits (.hit now :: es) = hits es + 1 :=
  List.countP_cons_of_pos rfl

@[simp] theorem hits_sweep (now : τ) (es : List (Event τ)) : hits (.sweep now :: es) = hits es :=
  List.countP_cons_of_neg (by simp [Event.isHit])

/-- How many more hits the window takes. -/
def room (r : Rules τ) : Option (Window τ) → ℕ
  | none => 0
  | some w => (r.limit - w.count).toNat

/-- The count is not negative, and stays under the bound below which `next` counts. -/
def Fits (bound : ℤ) (slot : Option (Window τ)) (es : List (Event τ)) : Prop :=
  match slot with
  | none => hits es < bound
  | some w => 0 ≤ w.count ∧ w.count + hits es < bound

section
variable {r : Rules τ} {slot : Option (Window τ)} {w : Window τ} {now lo hi : τ} {es : List (Event τ)}
  {bound : ℤ}

theorem Fits.hits_lt (h : Fits bound slot es) : hits es < bound := by
  cases slot with
  | none => exact h
  | some w => obtain ⟨hpos, hlt⟩ := h; omega

theorem Fits.room_le (h : Fits bound slot es) : room r slot ≤ r.limit.toNat := by
  cases slot with
  | none => exact Nat.zero_le _
  | some w =>
    obtain ⟨hpos, -⟩ := h
    simp only [room]
    omega

theorem Fits.reset (h : Fits bound slot (.hit now :: es)) : Fits bound (some ⟨1, now⟩) es := by
  have hlt := h.hits_lt
  rw [hits_hit] at hlt
  exact ⟨Int.one_nonneg, by push_cast at hlt; show 1 + _ < _; omega⟩

variable (hnext : ∀ c, 0 ≤ c → c + 1 < bound → r.next c = c + 1)
include hnext

theorem Fits.next (h : Fits bound (some w) (.hit now :: es)) : r.next w.count = w.count + 1 := by
  obtain ⟨hpos, hlt⟩ := h
  rw [hits_hit] at hlt
  exact hnext _ hpos (by push_cast at hlt; omega)

theorem Fits.counted (h : Fits bound (some w) (.hit now :: es)) :
    Fits bound (some ⟨r.next w.count, w.start⟩) es := by
  have hn := h.next hnext
  obtain ⟨hpos, hlt⟩ := h
  rw [hits_hit] at hlt
  push_cast at hlt
  exact ⟨by show 0 ≤ r.next _; omega, by show r.next _ + _ < _; omega⟩

theorem Fits.step {e : Event τ} (h : Fits bound slot (e :: es)) : Fits bound (r.step slot e) es := by
  cases e with
  | hit now =>
    simp only [Rules.step]
    by_cases hr : r.resets now slot
    · rw [hit_of_resets hr]
      exact h.reset
    · cases slot with
      | none => exact absurd rfl hr
      | some w =>
        rw [hit_of_not_resets hr]
        exact h.counted hnext
  | sweep now =>
    simp only [Rules.step]
    rcases sweep_cases (r := r) now slot with hs | ⟨hs, w, rfl, -⟩
    · rw [hs]
      cases slot <;> simpa [Fits] using h
    · rw [hs]
      have hlt := h.hits_lt
      rwa [hits_sweep] at hlt

/-- A hit in a window that goes on uses up a place. -/
theorem Fits.room_hit (h : Fits bound (some w) (.hit now :: es)) (hr : ¬ r.resets now (some w)) :
    ((r.hit now (some w)).1.toNat + room r (some (r.hit now (some w)).2)) ≤ room r (some w) := by
  have hn := h.next hnext
  rw [hit_of_not_resets hr]
  simp only [room, hn]
  by_cases hle : w.count + 1 ≤ r.limit
  · simp only [hle, decide_true, Bool.toNat_true]
    omega
  · simp only [hle, decide_false, Bool.toNat_false]
    omega

/-! ## One window -/

/-- Until the next reset, no more hits are allowed than the window has room for. -/
theorem countP_until_reset (h : Fits bound slot es) :
    ((r.outcomes slot es).takeWhile (!·.reset)).countP (·.allowed) ≤ room r slot := by
  induction es generalizing slot with
  | nil => exact Nat.zero_le _
  | cons e es ih =>
    have hih := ih (h.step hnext)
    cases e with
    | hit now =>
      by_cases hr : r.resets now slot
      · simp [outcomes, hr]
      · cases slot with
        | none => exact absurd rfl hr
        | some w =>
          have hroom := h.room_hit hnext hr
          simp only [outcomes, hr, Bool.not_false, List.takeWhile_cons_of_pos]
          rw [List.countP_cons]
          simp only [Rules.step] at hih ⊢
          cases hb : (r.hit now (some w)).1 <;> simp [hb] at hroom ⊢ <;> omega
    | sweep now =>
      refine hih.trans ?_
      simp only [Rules.step]
      rcases sweep_cases (r := r) now slot with hs | ⟨hs, -⟩
      · rw [hs]
      · rw [hs]
        exact Nat.zero_le _

end

/-- What comes behind a reset are the outcomes of a window with one hit. -/
theorem outcomes_behind_reset {r : Rules τ} {slot : Option (Window τ)} {es : List (Event τ)}
    {pre post : List (Outcome τ)} {o : Outcome τ} (h : r.outcomes slot es = pre ++ o :: post)
    (ho : o.reset) :
    ∃ before rest, es = before ++ rest ∧ hits rest < hits es ∧ post = r.outcomes (some ⟨1, o.now⟩) rest := by
  induction es generalizing slot pre with
  | nil => simp [outcomes] at h
  | cons e es ih =>
    cases e with
    | hit now =>
      cases pre with
      | nil =>
        obtain ⟨rfl, rfl⟩ := List.cons.inj h
        refine ⟨[.hit now], es, rfl, by simp, ?_⟩
        simp only [Rules.step]
        rw [hit_of_resets ho]
      | cons p pre =>
        obtain ⟨before, rest, rfl, hlt, hpost⟩ := ih (List.cons.inj h).2
        exact ⟨.hit now :: before, rest, rfl, by rw [hits_hit]; omega, hpost⟩
    | sweep now =>
      obtain ⟨before, rest, rfl, hlt, hpost⟩ := ih h
      exact ⟨.sweep now :: before, rest, rfl, by rwa [hits_sweep], hpost⟩

/-! ## An interval -/

theorem outcomes_now {r : Rules τ} {slot : Option (Window τ)} {es : List (Event τ)} {o : Outcome τ}
    (h : o ∈ r.outcomes slot es) : ∃ e ∈ es, e.now = o.now := by
  induction es generalizing slot with
  | nil => exact absurd h List.not_mem_nil
  | cons e es ih =>
    cases e with
    | hit now =>
      rcases List.mem_cons.1 h with rfl | h
      · exact ⟨.hit now, List.mem_cons_self, rfl⟩
      · obtain ⟨e, he, hnow⟩ := ih h
        exact ⟨e, List.mem_cons_of_mem _ he, hnow⟩
    | sweep now =>
      obtain ⟨e, he, hnow⟩ := ih h
      exact ⟨e, List.mem_cons_of_mem _ he, hnow⟩

section
variable [LinearOrder τ]

/-- An allowed hit in the interval from `lo` to before `hi`. -/
def Outcome.counts (lo hi : τ) (o : Outcome τ) : Bool := o.allowed && (lo ≤ o.now && o.now < hi)

/-- The clock never goes back. -/
def Ticks (es : List (Event τ)) : Prop := es.Pairwise (·.now ≤ ·.now)

variable {r : Rules τ} {slot : Option (Window τ)} {w : Window τ} {now lo hi : τ} {es : List (Event τ)}
  {bound : ℤ}

/-- After the interval nothing counts. -/
theorem countP_after (h : ∀ e ∈ es, hi ≤ e.now) : (r.outcomes slot es).countP (·.counts lo hi) = 0 := by
  refine List.countP_eq_zero.2 fun o ho => ?_
  obtain ⟨e, he, hnow⟩ := outcomes_now ho
  have := h e he
  simp only [Outcome.counts, Bool.and_eq_true, decide_eq_true_eq, not_and, not_lt]
  intro _ _
  rwa [← hnow]

/-- One hit adds one at most. -/
theorem countP_hit_le (lo hi : τ) (now : τ) (slot : Option (Window τ)) (es : List (Event τ)) :
    (r.outcomes slot (.hit now :: es)).countP (·.counts lo hi) ≤
      (r.hit now slot).1.toNat + (r.outcomes (some (r.hit now slot).2) es).countP (·.counts lo hi) := by
  simp only [outcomes, Rules.step, List.countP_cons, Outcome.counts]
  cases (r.hit now slot).1
  · simp
  · simp only [Bool.true_and, Bool.toNat_true]
    split_ifs <;> omega

variable (hnext : ∀ c, 0 ≤ c → c + 1 < bound → r.next c = c + 1)
include hnext

/-- A window that ends no sooner than the interval takes in what it has room for. -/
theorem countP_window (lo : τ) (hes : Ticks es) (h : Fits bound (some w) es)
    (hended : ∀ n, r.ended w.start n → hi ≤ n) (hswept : ∀ s n, r.swept s n → r.ended s n) :
    (r.outcomes (some w) es).countP (·.counts lo hi) ≤ room r (some w) := by
  induction es generalizing w with
  | nil => exact Nat.zero_le _
  | cons e es ih =>
    obtain ⟨hfirst, hes'⟩ := List.pairwise_cons.1 hes
    have hover : r.ended w.start e.now →
        (r.outcomes (some w) (e :: es)).countP (·.counts lo hi) ≤ room r (some w) := by
      intro hend
      have hhi := hended _ hend
      rw [countP_after]
      · exact Nat.zero_le _
      · intro d hd
        rcases List.mem_cons.1 hd with rfl | hd
        · exact hhi
        · exact hhi.trans (hfirst d hd)
    cases e with
    | hit now =>
      by_cases hr : r.resets now (some w)
      · exact hover hr
      · have hroom := h.room_hit hnext hr
        have hle := countP_hit_le (r := r) lo hi now (some w) es
        rw [hit_of_not_resets hr] at hroom hle
        dsimp only at hroom hle
        have hih := ih hes' (h.counted hnext) hended
        omega
    | sweep now =>
      rcases sweep_cases (r := r) now (some w) with hs | ⟨hs, v, hv, hsw⟩
      · simp only [outcomes, Rules.step, hs]
        have hfits := h.step hnext
        simp only [Rules.step, hs] at hfits
        exact ih hes' hfits hended
      · obtain rfl := Option.some.inj hv
        exact hover (hswept _ _ hsw)

/-- From its beginning on, an interval takes in the open window and one more. -/
theorem countP_from (hes : Ticks es) (h : Fits bound slot es) (hlo : ∀ e ∈ es, lo ≤ e.now)
    (hlen : ∀ s n, lo ≤ s → r.ended s n → hi ≤ n) (hswept : ∀ s n, r.swept s n → r.ended s n)
    (hlimit : 1 ≤ r.limit) :
    (r.outcomes slot es).countP (·.counts lo hi) ≤ room r slot + r.limit.toNat := by
  induction es generalizing slot with
  | nil => exact Nat.zero_le _
  | cons e es ih =>
    obtain ⟨-, hes'⟩ := List.pairwise_cons.1 hes
    have hlo' := fun d hd => hlo d (List.mem_cons_of_mem _ hd)
    cases e with
    | hit now =>
      have hle := countP_hit_le (r := r) lo hi now slot es
      by_cases hr : r.resets now slot
      · rw [hit_of_resets hr] at hle
        have hwin := countP_window hnext lo hes' h.reset
          (fun n => hlen now n (hlo _ List.mem_cons_self)) hswept
        simp only [Bool.toNat_true, room] at hle hwin
        omega
      · cases slot with
        | none => exact absurd rfl hr
        | some w =>
          have hroom := h.room_hit hnext hr
          have hih := ih hes' (h.counted hnext) hlo'
          rw [hit_of_not_resets hr] at hroom hle
          dsimp only at hroom hle
          omega
    | sweep now =>
      refine (ih hes' (h.step hnext) hlo').trans (Nat.add_le_add_right ?_ _)
      simp only [Rules.step]
      rcases sweep_cases (r := r) now slot with hs | ⟨hs, -⟩
      · rw [hs]
      · rw [hs]
        exact Nat.zero_le _

/-- **An interval** that is over before a window started in it has ended takes in twice the limit
    at most: what is left of a window that started before, and one more. -/
theorem countP_interval (hes : Ticks es) (h : Fits bound slot es)
    (hlen : ∀ s n, lo ≤ s → r.ended s n → hi ≤ n) (hswept : ∀ s n, r.swept s n → r.ended s n)
    (hlimit : 1 ≤ r.limit) :
    (r.outcomes slot es).countP (·.counts lo hi) ≤ 2 * r.limit.toNat := by
  induction es generalizing slot with
  | nil => exact Nat.zero_le _
  | cons e es ih =>
    obtain ⟨hfirst, hes'⟩ := List.pairwise_cons.1 hes
    rcases lt_or_ge e.now lo with hbefore | hin
    · have hih := ih hes' (h.step hnext)
      cases e with
      | hit now =>
        refine le_trans (le_of_eq ?_) hih
        have hnot : ¬ lo ≤ now := not_le.2 hbefore
        simp [outcomes, Outcome.counts, hnot]
      | sweep now => exact hih
    · have hlo : ∀ d ∈ e :: es, lo ≤ d.now := by
        intro d hd
        rcases List.mem_cons.1 hd with rfl | hd
        · exact hin
        · exact hin.trans (hfirst d hd)
      have hfrom := countP_from hnext hes h hlo hlen hswept hlimit
      have hroom : room r slot ≤ r.limit.toNat := h.room_le
      omega

end

/-! ## Sweeps cannot be seen -/

section
variable {r : Rules τ} {slot slot' : Option (Window τ)} {es : List (Event τ)}

/-- A slot is what the other is, or has lost a window that has ended for all that comes. -/
def Hidden (r : Rules τ) (es : List (Event τ)) (slot slot' : Option (Window τ)) : Prop :=
  slot = slot' ∨ slot = none ∧ ∃ w, slot' = some w ∧ ∀ e ∈ es, r.ended w.start e.now

theorem Hidden.hit {now : τ} (h : Hidden r (.hit now :: es) slot slot') :
    r.resets now slot = r.resets now slot' ∧ r.hit now slot = r.hit now slot' := by
  rcases h with rfl | ⟨rfl, w, rfl, hended⟩
  · exact ⟨rfl, rfl⟩
  · have hr : r.resets now (some w) := hended _ List.mem_cons_self
    exact ⟨hr.symm, (hit_of_resets rfl).trans (hit_of_resets hr).symm⟩

variable [LinearOrder τ]

theorem Hidden.sweep {now : τ} (hes : Ticks (.sweep now :: es)) (h : Hidden r (.sweep now :: es) slot slot')
    (hswept : ∀ s n, r.swept s n → r.ended s n) (hmono : ∀ s n m, r.ended s n → n ≤ m → r.ended s m) :
    Hidden r es (r.sweep now slot) slot' := by
  rcases h with rfl | ⟨rfl, w, rfl, hended⟩
  · rcases sweep_cases (r := r) now slot with hs | ⟨hs, w, rfl, hsw⟩
    · exact Or.inl hs
    · refine Or.inr ⟨hs, w, rfl, fun e he => hmono _ _ _ (hswept _ _ hsw) ?_⟩
      exact (List.pairwise_cons.1 hes).1 e he
  · exact Or.inr ⟨rfl, w, rfl, fun e he => hended e (List.mem_cons_of_mem _ he)⟩

/-- **A run with sweeps** has the outcomes of its hits alone. -/
theorem outcomes_hits (hes : Ticks es) (h : Hidden r es slot slot')
    (hswept : ∀ s n, r.swept s n → r.ended s n) (hmono : ∀ s n m, r.ended s n → n ≤ m → r.ended s m) :
    r.outcomes slot es = r.outcomes slot' (es.filter Event.isHit) := by
  induction es generalizing slot slot' with
  | nil => rfl
  | cons e es ih =>
    obtain ⟨-, hes'⟩ := List.pairwise_cons.1 hes
    cases e with
    | hit now =>
      obtain ⟨hr, hh⟩ := h.hit
      rw [List.filter_cons_of_pos rfl, outcomes, outcomes, hr, hh]
      simp only [Rules.step, hh]
      rw [ih hes' (Or.inl rfl)]
    | sweep now =>
      rw [List.filter_cons_of_neg (by simp [Event.isHit]), outcomes]
      exact ih hes' (h.sweep hes hswept hmono)

end

end FixedWindow

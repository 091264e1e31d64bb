/-
  A queue with a lock and a condition variable.

  Senders put an element into the queue under the lock and notify behind it.  One receiver waits
  until the queue has an element or is closed; closing is a store to a flag and a notification, both
  without the lock.  When the queue is closed and empty, the receiver takes what has come since
  and ends.

  * What has been sent is what has been handled, what is in hand and what is queued, in this order
    (`Inv.order`), so what was sent before the queue was closed is handled when the receiver
    has ended (`sent_handled`).
  * A receiver that sleeps while the queue has an element has a notification to come (`Inv.owed`).
  * A receiver sleeps behind the announcement of the end only if the announcement came between its
    test and its sleep (`missed_of_asleep`); otherwise it ends by its own steps (`ends_alone`).
-/
import Mathlib.Data.List.Induction
import NarMusic.Lib.Run

namespace Monitor

universe u
variable {α : Type u}

inductive Receiver (α : Type u) where
  /-- About to lock and to test. -/
  | testing
  /-- The test has failed; the lock is held until the receiver sleeps. -/
  | parking
  | asleep
  | handling (a : α)
  /-- The loop has been left. -/
  | closing
  | draining (as : List α)
  | done

structure State (α : Type u) where
  queue : List α := []
  receiver : Receiver α := .testing
  closed : Bool := false
  announced : Bool := false
  /-- The notifications that senders have not made yet. -/
  owed : ℕ := 0
  sent : List α := []
  handled : List α := []

inductive Event (α : Type u) where
  | send (a : α)
  | notify
  | close
  /-- `notify_all`, behind the store to the flag -/
  | announce
  | test
  | park
  /-- A wake-up without a notification. -/
  | wake
  | handle
  | drain

def State.woken (s : State α) : State α :=
  match s.receiver with
  | .asleep => { s with receiver := .testing }
  | _ => s

/-- One step; an event that cannot take place changes nothing. -/
def step (s : State α) : Event α → State α
  | .send a =>
    match s.receiver with
    | .parking => s
    | _ => { s with queue := s.queue ++ [a], sent := s.sent ++ [a], owed := s.owed + 1 }
  | .notify => if s.owed = 0 then s else { s with owed := s.owed - 1 }.woken
  | .close => { s with closed := true }
  | .announce => if s.closed then { s with announced := true }.woken else s
  | .test =>
    match s.receiver, s.queue with
    | .testing, a :: q => { s with receiver := .handling a, queue := q }
    | .testing, [] => { s with receiver := if s.closed then .closing else .parking }
    | _, _ => s
  | .park =>
    match s.receiver with
    | .parking => { s with receiver := .asleep }
    | _ => s
  | .wake => s.woken
  | .handle =>
    match s.receiver with
    | .handling a => { s with receiver := .testing, handled := s.handled ++ [a] }
    | .draining (a :: as) => { s with receiver := .draining as, handled := s.handled ++ [a] }
    | .draining [] => { s with receiver := .done }
    | _ => s
  | .drain =>
    match s.receiver with
    | .closing => { s with receiver := .draining s.queue, queue := [] }
    | _ => s

/-- What the receiver has taken and not handled yet. -/
def Receiver.hand : Receiver α → List α
  | .handling a => [a]
  | .draining as => as
  | _ => []

/-- The receiver has left its loop. -/
def Receiver.left : Receiver α → Bool
  | .closing | .draining _ | .done => true
  | _ => false

structure Inv (s : State α) : Prop where
  order : s.handled ++ s.receiver.hand ++ s.queue = s.sent
  parked : s.receiver = .parking → s.queue = []
  owed : s.receiver = .asleep → s.queue ≠ [] → 0 < s.owed
  left : s.receiver.left = true → s.closed = true
  announced : s.announced = true → s.closed = true

/-- A receiver that does not sleep is not changed by a notification. -/
theorem woken_eq {s : State α} (h : s.receiver ≠ .asleep) : s.woken = s := by
  unfold State.woken
  split
  · exact absurd ‹_› h
  · rfl

theorem woken_asleep {s : State α} (h : s.receiver = .asleep) : s.woken = { s with receiver := .testing } := by
  simp only [State.woken, h]

theorem inv_woken {s : State α} (h : Inv s) : Inv s.woken := by
  by_cases hasleep : s.receiver = .asleep
  · rw [woken_asleep hasleep]
    have horder := h.order
    rw [hasleep] at horder
    exact ⟨horder, nofun, nofun, nofun, h.announced⟩
  · rw [woken_eq hasleep]
    exact h

theorem inv_init : Inv ({} : State α) := ⟨rfl, nofun, nofun, nofun, nofun⟩

theorem inv_step {s : State α} (h : Inv s) (e : Event α) : Inv (step s e) := by
  have horder := h.order
  have hleft := h.left
  cases e with
  | send a =>
    simp only [step]
    split
    · exact h
    · next hpark =>
      refine ⟨?_, fun hp => absurd hp hpark, fun _ _ => Nat.succ_pos _, hleft, h.announced⟩
      rw [← horder]
      simp
  | notify =>
    simp only [step]
    split_ifs with howed
    · exact h
    by_cases hasleep : s.receiver = .asleep
    · rw [woken_asleep (s := { s with owed := s.owed - 1 }) hasleep]
      rw [hasleep] at horder
      exact ⟨horder, nofun, nofun, nofun, h.announced⟩
    · rw [woken_eq (s := { s with owed := s.owed - 1 }) hasleep]
      exact ⟨horder, h.parked, fun ha => absurd ha hasleep, hleft, h.announced⟩
  | close => exact ⟨horder, h.parked, h.owed, fun _ => rfl, fun _ => rfl⟩
  | announce =>
    simp only [step]
    split_ifs with hclosed
    · exact inv_woken ⟨horder, h.parked, h.owed, hleft, fun _ => hclosed⟩
    · exact h
  | test =>
    simp only [step]
    split
    · next a q hr hq =>
      rw [hr, hq] at horder
      refine ⟨?_, nofun, nofun, nofun, h.announced⟩
      rw [← horder]
      simp [Receiver.hand]
    · next hr hq =>
      rw [hr, hq] at horder
      by_cases hclosed : s.closed = true
      · rw [if_pos hclosed]
        exact ⟨hq ▸ horder, nofun, nofun, fun _ => hclosed, h.announced⟩
      · rw [if_neg hclosed]
        exact ⟨hq ▸ horder, fun _ => hq, nofun, nofun, h.announced⟩
    · exact h
  | park =>
    simp only [step]
    split
    · next hr =>
      rw [hr] at horder
      exact ⟨horder, nofun, fun _ hne => absurd (h.parked hr) hne, nofun, h.announced⟩
    · exact h
  | wake => exact inv_woken h
  | handle =>
    simp only [step]
    split
    · next a hr =>
      rw [hr] at horder
      refine ⟨?_, nofun, nofun, nofun, h.announced⟩
      rw [← horder]
      simp [Receiver.hand]
    · next a as hr =>
      rw [hr] at horder hleft
      refine ⟨?_, nofun, nofun, fun _ => hleft rfl, h.announced⟩
      rw [← horder]
      simp [Receiver.hand]
    · next hr =>
      rw [hr] at horder hleft
      exact ⟨horder, nofun, nofun, fun _ => hleft rfl, h.announced⟩
    · exact h
  | drain =>
    simp only [step]
    split
    · next hr =>
      rw [hr] at horder hleft
      refine ⟨?_, nofun, nofun, fun _ => hleft rfl, h.announced⟩
      rw [← horder]
      simp [Receiver.hand]
    · exact h

theorem handled_handle (s : State α) : (step s .handle).handled = s.handled ++ s.receiver.hand.take 1 := by
  simp only [step]
  cases s.receiver with
  | handling a => rfl
  | draining as => cases as <;> simp [Receiver.hand]
  | _ => simp [Receiver.hand]

/-- Only a step of handling handles an element. -/
theorem handled_step (s : State α) {e : Event α} (he : e ≠ .handle) : (step s e).handled = s.handled := by
  have hwoken : ∀ t : State α, t.woken.handled = t.handled := by
    intro t
    by_cases hasleep : t.receiver = .asleep
    · rw [woken_asleep hasleep]
    · rw [woken_eq hasleep]
  cases e with
  | send a =>
    simp only [step]
    split <;> rfl
  | notify =>
    simp only [step]
    split_ifs
    · rfl
    · exact hwoken _
  | close => rfl
  | announce =>
    simp only [step]
    split_ifs
    · exact hwoken _
    · rfl
  | test =>
    simp only [step]
    split <;> rfl
  | park =>
    simp only [step]
    split <;> rfl
  | wake => exact hwoken s
  | handle => exact absurd rfl he
  | drain =>
    simp only [step]
    split <;> rfl

theorem inv_exec (run : List (Event α)) : Inv (Run.exec step ({} : State α) run) :=
  Run.exec_inv (I := Inv) (fun _ e h => inv_step h e) inv_init run

/-! ## The end -/

theorem exec_append (run run' : List (Event α)) (s : State α) :
    Run.exec step s (run ++ run') = Run.exec step (Run.exec step s run) run' := List.foldl_append

/-- The announcement came between the test and the sleep. -/
def Missed (run : List (Event α)) : Prop :=
  ∃ front back, run = front ++ .announce :: back ∧ (Run.exec step ({} : State α) front).receiver = .parking

theorem missed_append {run : List (Event α)} (h : Missed run) (e : Event α) : Missed (run ++ [e]) := by
  obtain ⟨front, back, rfl, hpark⟩ := h
  exact ⟨front, back ++ [e], by simp, hpark⟩

/-- Behind the announcement the receiver does not go to sleep again. -/
theorem sleeping_step {s : State α} (hinv : Inv s) {e : Event α} (hannounced : (step s e).announced = true)
    (hsleep : (step s e).receiver = .parking ∨ (step s e).receiver = .asleep) :
    (s.receiver = .parking ∧ e = .announce) ∨
      s.announced = true ∧ (s.receiver = .parking ∨ s.receiver = .asleep) := by
  have hwoken : ∀ t : State α, t.woken.receiver = .parking ∨ t.woken.receiver = .asleep →
      t.receiver = .parking ∧ t.woken = t := by
    intro t ht
    by_cases hasleep : t.receiver = .asleep
    · rw [woken_asleep hasleep] at ht
      rcases ht with ht | ht <;> cases ht
    · rw [woken_eq hasleep] at ht ⊢
      exact ⟨ht.resolve_right hasleep, rfl⟩
  cases e with
  | send a =>
    simp only [step] at hannounced hsleep
    split at hsleep
    · next hpark =>
      simp only [hpark] at hannounced
      exact Or.inr ⟨hannounced, Or.inl hpark⟩
    · next hpark =>
      refine Or.inr ⟨?_, hsleep⟩
      split at hannounced <;> exact hannounced
  | notify =>
    simp only [step] at hannounced hsleep
    split_ifs at hannounced hsleep
    · exact Or.inr ⟨hannounced, hsleep⟩
    · obtain ⟨hpark, heq⟩ := hwoken _ hsleep
      rw [heq] at hannounced
      exact Or.inr ⟨hannounced, Or.inl hpark⟩
  | close => exact Or.inr ⟨hannounced, hsleep⟩
  | announce =>
    simp only [step] at hannounced hsleep
    split_ifs at hannounced hsleep
    · exact Or.inl ⟨(hwoken _ hsleep).1, rfl⟩
    · exact Or.inr ⟨hannounced, hsleep⟩
  | test =>
    simp only [step] at hannounced hsleep
    split at hsleep
    · rcases hsleep with hs | hs <;> cases hs
    · next hr hq =>
      simp only [hr, hq] at hannounced
      have hclosed := hinv.announced hannounced
      simp [hclosed] at hsleep
    · refine Or.inr ⟨?_, hsleep⟩
      split at hannounced <;> exact hannounced
  | park =>
    simp only [step] at hannounced hsleep
    split at hsleep
    · next hpark =>
      simp only [hpark] at hannounced
      exact Or.inr ⟨hannounced, Or.inl hpark⟩
    · refine Or.inr ⟨?_, hsleep⟩
      split at hannounced <;> exact hannounced
  | wake =>
    obtain ⟨hpark, heq⟩ := hwoken s hsleep
    have hannounced : s.woken.announced = true := hannounced
    rw [heq] at hannounced
    exact Or.inr ⟨hannounced, Or.inl hpark⟩
  | handle =>
    simp only [step] at hannounced hsleep
    split at hsleep
    · rcases hsleep with hs | hs <;> cases hs
    · rcases hsleep with hs | hs <;> cases hs
    · rcases hsleep with hs | hs <;> cases hs
    · refine Or.inr ⟨?_, hsleep⟩
      split at hannounced <;> exact hannounced
  | drain =>
    simp only [step] at hannounced hsleep
    split at hsleep
    · rcases hsleep with hs | hs <;> cases hs
    · refine Or.inr ⟨?_, hsleep⟩
      split at hannounced <;> exact hannounced

/-- **A receiver that sleeps behind the announcement** has missed it. -/
theorem missed_of_asleep (run : List (Event α))
    (hannounced : (Run.exec step ({} : State α) run).announced = true)
    (hsleep : (Run.exec step ({} : State α) run).receiver = .parking ∨
      (Run.exec step ({} : State α) run).receiver = .asleep) : Missed run := by
  induction run using List.reverseRecOn with
  | nil => cases hannounced
  | append_singleton run e ih =>
    rw [exec_append] at hannounced hsleep
    rcases sleeping_step (inv_exec run) hannounced hsleep with ⟨hpark, rfl⟩ | ⟨hannounced', hsleep'⟩
    · exact ⟨run, [], rfl, hpark⟩
    · exact missed_append (ih hannounced' hsleep') e

/-- The steps that the receiver takes by itself while it is awake. -/
def Event.own : Event α → Bool
  | .test | .handle | .drain => true
  | _ => false

/-- The receiver can take steps of its own that end it. -/
def Ends (s : State α) : Prop :=
  ∃ run : List (Event α), (∀ e ∈ run, e.own = true) ∧ (Run.exec step s run).receiver = .done

theorem Ends.cons {s : State α} {e : Event α} (he : e.own = true) (h : Ends (step s e)) : Ends s := by
  obtain ⟨run, hown, hdone⟩ := h
  exact ⟨e :: run, List.forall_mem_cons.2 ⟨he, hown⟩, hdone⟩

theorem ends_draining {s : State α} {as : List α} (h : s.receiver = .draining as) : Ends s := by
  induction as generalizing s with
  | nil =>
    refine ⟨[.handle], by simp [Event.own], ?_⟩
    simp [step, h]
  | cons a as ih =>
    refine Ends.cons (e := .handle) rfl (ih ?_)
    simp [step, h]

theorem ends_closing {s : State α} (h : s.receiver = .closing) : Ends s := by
  have hdraining : (step s .drain).receiver = .draining s.queue := by simp [step, h]
  exact Ends.cons (e := .drain) rfl (ends_draining hdraining)

theorem ends_testing {s : State α} {q : List α} (hq : s.queue = q) (hclosed : s.closed = true)
    (h : s.receiver = .testing) : Ends s := by
  induction q generalizing s with
  | nil =>
    refine Ends.cons (e := .test) rfl (ends_closing ?_)
    simp [step, h, hq, hclosed]
  | cons a q ih =>
    have htest : step s .test = { s with receiver := .handling a, queue := q } := by simp [step, h, hq]
    refine Ends.cons (e := .test) rfl (Ends.cons (e := .handle) rfl ?_)
    rw [htest]
    exact ih rfl hclosed rfl

/-- **The receiver ends by itself** when the queue is closed and it does not sleep. -/
theorem ends_alone {s : State α} (hclosed : s.closed = true) (hpark : s.receiver ≠ .parking)
    (hasleep : s.receiver ≠ .asleep) : Ends s := by
  cases hr : s.receiver with
  | testing => exact ends_testing rfl hclosed hr
  | parking => exact absurd hr hpark
  | asleep => exact absurd hr hasleep
  | handling a =>
    refine Ends.cons (e := .handle) rfl (ends_testing rfl ?_ ?_)
    · simp [step, hr, hclosed]
    · simp [step, hr]
  | closing => exact ends_closing hr
  | draining as => exact ends_draining hr
  | done => exact ⟨[], by simp, hr⟩

/-- A receiver that sleeps, or is about to, takes no step of its own that changes anything. -/
theorem not_ends {s : State α} (h : s.receiver = .parking ∨ s.receiver = .asleep) : ¬ Ends s := by
  rintro ⟨run, hown, hdone⟩
  have hstay : ∀ e : Event α, e.own = true → step s e = s := by
    intro e he
    cases e with
    | test => rcases h with h | h <;> simp [step, h]
    | handle => rcases h with h | h <;> simp [step, h]
    | drain => rcases h with h | h <;> simp [step, h]
    | _ => cases he
  have hexec : Run.exec step s run = s := by
    induction run with
    | nil => rfl
    | cons e run ih =>
      obtain ⟨he, hown⟩ := List.forall_mem_cons.1 hown
      rw [Run.exec_cons, hstay e he] at hdone ⊢
      exact ih hown hdone
  rw [hexec] at hdone
  rcases h with h | h <;> rw [h] at hdone <;> cases hdone

/-- **Behind the announcement** the receiver ends by itself, unless it has missed it. -/
theorem ends_or_missed (run : List (Event α)) (hannounced : (Run.exec step ({} : State α) run).announced = true) :
    Ends (Run.exec step ({} : State α) run) ∨ Missed run := by
  by_cases hsleep : (Run.exec step ({} : State α) run).receiver = .parking ∨
      (Run.exec step ({} : State α) run).receiver = .asleep
  · exact Or.inr (missed_of_asleep run hannounced hsleep)
  · obtain ⟨hpark, hasleep⟩ := not_or.1 hsleep
    exact Or.inl (ends_alone ((inv_exec run).announced hannounced) hpark hasleep)

end Monitor

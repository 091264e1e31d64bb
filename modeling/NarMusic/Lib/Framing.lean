/-
  Messages that follow each other on a stream, and a reader that takes them off its front.

  A reader waits for the whole of a message, and what it reads does not depend on what comes behind.
  So the stream may arrive in any chunks (`feed_chunks`), and of messages that were written one after
  the other it has read, at every moment, the ones that have arrived in full (`readAll_prefix`).
-/
import Mathlib.Data.List.Basic
import Mathlib.Tactic.Common

structure FrameReader (α β : Type*) where
  /-- The message at the front and what is behind it. -/
  read : List α → Option (β × List α)
  shorter : ∀ {q : List α} {m : β} {rest : List α}, read q = some (m, rest) → rest.length < q.length
  stable : ∀ {q : List α} {m : β} {rest : List α} (t : List α), read q = some (m, rest) →
    read (q ++ t) = some (m, rest ++ t)

namespace FrameReader

variable {α β : Type*} (r : FrameReader α β)

/-- The messages at the front, and what is left behind them. -/
def readAll (q : List α) : List β × List α :=
  match _h : r.read q with
  | none => ([], q)
  | some (m, rest) => (m :: (readAll rest).1, (readAll rest).2)
termination_by q.length
decreasing_by all_goals exact r.shorter _h

/-- A chunk arrives behind what has been read and what is left. -/
def feed (s : List β × List α) (chunk : List α) : List β × List α :=
  (s.1 ++ (r.readAll (s.2 ++ chunk)).1, (r.readAll (s.2 ++ chunk)).2)

/-- The text is one message. -/
def Writes (text : List α) (m : β) : Prop := r.read text = some (m, [])

variable {r} {q rest text : List α} {m : β}

theorem read_nil : r.read [] = none := by
  cases h : r.read [] with
  | none => rfl
  | some p => exact absurd (r.shorter h) (Nat.not_lt_zero _)

theorem readAll_none (h : r.read q = none) : r.readAll q = ([], q) := by
  unfold readAll
  split
  · rfl
  · next m rest hsome =>
    rw [h] at hsome
    cases hsome

theorem readAll_some (h : r.read q = some (m, rest)) :
    r.readAll q = (m :: (r.readAll rest).1, (r.readAll rest).2) := by
  rw [readAll.eq_def]
  split
  · next hnone =>
    rw [h] at hnone
    cases hnone
  · next m' rest' hsome =>
    rw [h] at hsome
    cases hsome
    rfl

theorem readAll_nil : r.readAll [] = ([], []) := readAll_none read_nil

theorem readAll_append (q t : List α) :
    r.readAll (q ++ t) = r.feed (r.readAll q) t := by
  induction hn : q.length using Nat.strongRecOn generalizing q with
  | _ n ih =>
    cases h : r.read q with
    | none =>
      rw [readAll_none h]
      rfl
    | some p =>
      obtain ⟨m, rest⟩ := p
      have hrest := ih rest.length (hn ▸ r.shorter h) rest rfl
      rw [readAll_some h, readAll_some (r.stable t h), hrest]
      rfl

/-- What has been read stays read. -/
theorem readAll_mono (q t : List α) : (r.readAll q).1 <+: (r.readAll (q ++ t)).1 := by
  rw [readAll_append]
  exact List.prefix_append _ _

/-- **The chunks do not matter**: what is read depends on the stream alone. -/
theorem feed_chunks (q : List α) (chunks : List (List α)) :
    chunks.foldl r.feed (r.readAll q) = r.readAll (q ++ chunks.flatten) := by
  induction chunks generalizing q with
  | nil => rw [List.flatten_nil, List.append_nil, List.foldl_nil]
  | cons chunk chunks ih =>
    rw [List.foldl_cons, ← readAll_append, ih, List.flatten_cons, List.append_assoc]

/-! ## Messages one after the other -/

theorem Writes.read_append (h : r.Writes text m) (t : List α) : r.read (text ++ t) = some (m, t) :=
  r.stable t h

/-- Nothing is read of a message before its last byte. -/
theorem Writes.read_part (h : r.Writes text m) (hq : q <+: text) (hne : q ≠ text) : r.read q = none := by
  obtain ⟨t, rfl⟩ := hq
  cases hread : r.read q with
  | none => rfl
  | some p =>
    obtain ⟨m', rest⟩ := p
    have hwhole : some (m', rest ++ t) = some (m, []) := (r.stable t hread).symm.trans h
    obtain ⟨-, hnil⟩ := Prod.mk.inj (Option.some.inj hwhole)
    obtain ⟨-, rfl⟩ := List.append_eq_nil_iff.1 hnil
    exact absurd (List.append_nil q).symm hne

section
variable {ι : Type*} {text : ι → List α} {message : ι → β} {xs : List ι}

theorem readAll_written (h : ∀ x ∈ xs, r.Writes (text x) (message x)) (t : List α) :
    r.readAll (xs.flatMap text ++ t) = (xs.map message ++ (r.readAll t).1, (r.readAll t).2) := by
  induction xs with
  | nil => rfl
  | cons x xs ih =>
    obtain ⟨hx, hxs⟩ := List.forall_mem_cons.1 h
    rw [List.flatMap_cons, List.append_assoc, readAll_some (hx.read_append _), ih hxs]
    rfl

/-- **What has arrived in full has been read**: of a beginning of the messages, the first `k` have
    been read, and what is left is a part of the next. -/
theorem readAll_prefix (h : ∀ x ∈ xs, r.Writes (text x) (message x)) (hq : q <+: xs.flatMap text) :
    ∃ k left, k ≤ xs.length ∧ q = (xs.take k).flatMap text ++ left ∧
      r.readAll q = ((xs.take k).map message, left) ∧
      (k = xs.length → left = []) ∧ ∀ x, xs[k]? = some x → left <+: text x ∧ left ≠ text x := by
  induction xs generalizing q with
  | nil =>
    obtain rfl := List.prefix_nil.1 hq
    refine ⟨0, [], Nat.zero_le _, rfl, readAll_nil, fun _ => rfl, fun x hx => ?_⟩
    cases hx
  | cons x xs ih =>
    obtain ⟨hx, hxs⟩ := List.forall_mem_cons.1 h
    rw [List.flatMap_cons] at hq
    by_cases hpart : q <+: text x ∧ q ≠ text x
    · refine ⟨0, q, Nat.zero_le _, rfl, readAll_none (hx.read_part hpart.1 hpart.2), ?_, ?_⟩
      · intro hzero
        cases hzero
      · intro y hy
        cases hy
        exact hpart
    · have hwhole : text x <+: q := by
        rcases List.prefix_or_prefix_of_prefix hq (List.prefix_append _ _) with hle | hle
        · have heq : q = text x := not_not.1 fun hne => hpart ⟨hle, hne⟩
          exact heq ▸ List.prefix_refl _
        · exact hle
      obtain ⟨q', rfl⟩ := hwhole
      obtain ⟨k, left, hk, hsplit, hread, hall, hnext⟩ := ih hxs ((List.prefix_append_right_inj _).1 hq)
      refine ⟨k + 1, left, Nat.succ_le_succ hk, ?_, ?_, ?_, ?_⟩
      · rw [List.take_succ_cons, List.flatMap_cons, List.append_assoc, ← hsplit]
      · rw [readAll_some (hx.read_append q'), hread]
        rfl
      · intro hlen
        exact hall (Nat.succ.inj hlen)
      · intro y hy
        exact hnext y hy

end

end FrameReader

/-
  Tokens in a text: words that start with an opening symbol and do not have it
  again, and of which none is the start of another.

  Such tokens do not overlap.  A text splits at its tokens into the texts
  before them and the one behind the last (`exists_splits`), and a scan from
  the left finds a token at the end of such a text and not before it
  (`Free.not_start`).
-/
import Mathlib.Data.List.Infix
import Mathlib.Tactic.Common

variable {α τ : Type}

/-- A scan that is told how many symbols to skip goes on behind them. -/
theorem scan_skip {β : Type} {scan : ℕ → List α → β} (hnil : ∀ k, scan (k + 1) [] = scan k [])
    (hcons : ∀ k c s, scan (k + 1) (c :: s) = scan k s) (k : ℕ) (s : List α) :
    scan k s = scan 0 (s.drop k) := by
  induction k generalizing s with
  | zero => rfl
  | succ k ih =>
    cases s with
    | nil => rw [hnil, ih, List.drop_nil, List.drop_nil]
    | cons c s => rw [hcons, ih, List.drop_succ_cons]

structure Lexis (α τ : Type) where
  text : τ → List α
  opening : α
  opens : ∀ t, ∃ s, text t = opening :: s ∧ opening ∉ s
  /-- A token is the start of one text in one way. -/
  start_unique : ∀ {t u r r'}, text t ++ r = text u ++ r' → t = u

namespace Lexis

variable (L : Lexis α τ)

/-- There is no token in the text. -/
def Free (s : List α) : Prop := ∀ t, ¬ L.text t <:+: s

/-- Texts with a token behind each, and a last text. -/
def render (parts : List (List α × τ)) (last : List α) : List α :=
  parts.flatMap (fun p => p.1 ++ L.text p.2) ++ last

/-- The tokens of `s` are those of `parts`. -/
structure Splits (s : List α) (parts : List (List α × τ)) (last : List α) : Prop where
  eq : s = L.render parts last
  gap : ∀ p ∈ parts, L.Free p.1
  last : L.Free last

theorem text_ne_nil (t : τ) : L.text t ≠ [] := by
  obtain ⟨s, hs, -⟩ := L.opens t
  rw [hs]
  exact List.cons_ne_nil _ _

variable {L}

theorem render_cons (p : List α × τ) (parts : List (List α × τ)) (last : List α) :
    L.render (p :: parts) last = p.1 ++ (L.text p.2 ++ L.render parts last) := by
  simp [render]

theorem Free.of_suffix {s s' : List α} (h : L.Free s) (hs : s' <:+ s) : L.Free s' :=
  fun t ht => h t (ht.trans hs.isInfix)

/-- What stands behind a text without tokens: nothing, or a token. -/
def Bound (L : Lexis α τ) (y : List α) : Prop := ∀ c ∈ y.head?, c = L.opening

theorem bound_nil : L.Bound [] := fun _ h => by cases h

theorem bound_text (t : τ) (r : List α) : L.Bound (L.text t ++ r) := by
  obtain ⟨s, hs, -⟩ := L.opens t
  rw [hs]
  rintro c ⟨⟩
  rfl

/-- No token starts in a text without tokens and goes on behind it. -/
theorem Free.not_start {g y : List α} (h : L.Free g) (hg : g ≠ []) (hy : L.Bound y) (t : τ) (r : List α) :
    g ++ y ≠ L.text t ++ r := by
  intro heq
  rcases List.append_eq_append_iff.1 heq with ⟨x, hx, hyr⟩ | ⟨x, hx, -⟩
  · obtain ⟨s, hs, hopen⟩ := L.opens t
    obtain ⟨c, g, rfl⟩ := List.exists_cons_of_ne_nil hg
    rw [hs, List.cons_append] at hx
    obtain ⟨-, rfl⟩ := List.cons.inj hx
    cases x with
    | nil => exact h t ⟨[], [], by simpa using hs.trans (by simp [(List.cons.inj hx).1])⟩
    | cons d x =>
      obtain rfl := hy d (by rw [hyr]; rfl)
      exact hopen (by simp)
  · exact h t (hx ▸ (List.prefix_append _ _).isInfix)

/-- A text with a token has a first one. -/
theorem exists_first_token {s : List α} (h : ¬ L.Free s) :
    ∃ g t r, s = g ++ (L.text t ++ r) ∧ L.Free g := by
  induction s with
  | nil => exact absurd (fun t ht => L.text_ne_nil t (List.infix_nil.1 ht)) h
  | cons c s ih =>
    by_cases hstart : ∃ t, L.text t <+: c :: s
    · obtain ⟨t, r, heq⟩ := hstart
      exact ⟨[], t, r, heq.symm, fun u hu => L.text_ne_nil u (List.infix_nil.1 hu)⟩
    · have hs : ¬ L.Free s := fun hfree => h fun t ht =>
        (List.infix_cons_iff.1 ht).elim (fun hp => hstart ⟨t, hp⟩) (hfree t)
      obtain ⟨g, t, r, rfl, hg⟩ := ih hs
      refine ⟨c :: g, t, r, rfl, fun u hu => ?_⟩
      rcases List.infix_cons_iff.1 hu with hp | hinfix
      · exact hstart ⟨u, hp.trans (List.prefix_append (c :: g) _)⟩
      · exact hg u hinfix

/-- Every text splits at its tokens. -/
theorem exists_splits (s : List α) : ∃ parts last, L.Splits s parts last := by
  induction hn : s.length using Nat.strong_induction_on generalizing s with
  | _ n ih =>
    by_cases hfree : L.Free s
    · exact ⟨[], s, by simp [render], by simp, hfree⟩
    · obtain ⟨g, t, r, rfl, hg⟩ := exists_first_token hfree
      have hpos := List.length_pos_iff.2 (L.text_ne_nil t)
      obtain ⟨parts, last, heq, hgap, hlast⟩ := ih r.length (by simp at hn; omega) r rfl
      refine ⟨(g, t) :: parts, last, by rw [render_cons, ← heq], ?_, hlast⟩
      rintro p (_ | ⟨_, hp⟩)
      · exact hg
      · exact hgap p hp

theorem Splits.tail {s last : List α} {p : List α × τ} {parts : List (List α × τ)}
    (h : L.Splits s (p :: parts) last) : L.Splits (L.render parts last) parts last :=
  ⟨rfl, fun q hq => h.gap q (List.mem_cons_of_mem _ hq), h.last⟩

theorem Splits.isInfix {s last : List α} {p : List α × τ} {parts : List (List α × τ)}
    (h : L.Splits s parts last) (hp : p ∈ parts) : L.text p.2 <:+: s := by
  obtain ⟨front, back, rfl⟩ := List.append_of_mem hp
  refine ⟨front.flatMap (fun p => p.1 ++ L.text p.2) ++ p.1, L.render back last, ?_⟩
  rw [h.eq]
  simp [render]

/-- The tokens may be exchanged for others. -/
theorem Splits.map {s last : List α} {parts : List (List α × τ)} (h : L.Splits s parts last) (f : τ → τ) :
    L.Splits (L.render (parts.map fun p => (p.1, f p.2)) last) (parts.map fun p => (p.1, f p.2)) last := by
  refine ⟨rfl, fun p hp => ?_, h.last⟩
  obtain ⟨q, hq, rfl⟩ := List.mem_map.1 hp
  exact h.gap q hq

end Lexis

/-
  Calls that may throw, one after the other.

  A list of calls has all results, or there is a first call that throws
  (`mapM_cases`), and that one is determined by the list (`mapM_first_unique`).
  Where the calls are made until one has a result that is not empty, that result
  is behind empty ones only (`firstNonempty_eq_ok`, `firstNonempty_filterMap`).
-/
import Mathlib.Data.List.Basic
import Mathlib.Tactic.Common

namespace Except

variable {ε α β : Type} {f : α → Except ε β}

theorem bind_eq_ok {x : Except ε α} {b : β} : x >>= f = .ok b ↔ ∃ a, x = .ok a ∧ f a = .ok b := by
  cases x with
  | error e =>
    constructor
    · intro h
      cases h
    · rintro ⟨a, h, -⟩
      cases h
  | ok a =>
    constructor
    · exact fun h => ⟨a, rfl, h⟩
    · rintro ⟨a', h, hf⟩
      obtain rfl := Except.ok.inj h
      exact hf

theorem mapM_cons_eq_ok {a : α} {as : List α} {bs : List β} :
    (a :: as).mapM f = .ok bs ↔ ∃ b bs', f a = .ok b ∧ as.mapM f = .ok bs' ∧ bs = b :: bs' := by
  rw [List.mapM_cons, bind_eq_ok]
  constructor
  · rintro ⟨b, hb, h⟩
    obtain ⟨bs', hbs, h⟩ := bind_eq_ok.1 h
    exact ⟨b, bs', hb, hbs, (Except.ok.inj h).symm⟩
  · rintro ⟨b, bs', hb, hbs, rfl⟩
    exact ⟨b, hb, bind_eq_ok.2 ⟨bs', hbs, rfl⟩⟩

theorem mapM_ok {g : α → β} {as : List α} (h : ∀ a ∈ as, f a = .ok (g a)) : as.mapM f = .ok (as.map g) := by
  induction as with
  | nil => rfl
  | cons a as ih =>
    have hrest := ih fun b hb => h b (List.mem_cons_of_mem _ hb)
    exact mapM_cons_eq_ok.2 ⟨g a, as.map g, h a List.mem_cons_self, hrest, rfl⟩

/-- The results are by position. -/
theorem mapM_getElem? {as : List α} {bs : List β} (h : as.mapM f = .ok bs) :
    bs.length = as.length ∧ ∀ (i : ℕ) (b : β), bs[i]? = some b → ∃ a, as[i]? = some a ∧ f a = .ok b := by
  induction as generalizing bs with
  | nil =>
    obtain rfl := Except.ok.inj h
    simp
  | cons a as ih =>
    obtain ⟨b, bs, hb, hbs, rfl⟩ := mapM_cons_eq_ok.1 h
    obtain ⟨hlen, hget⟩ := ih hbs
    refine ⟨congrArg (· + 1) hlen, fun i b' hi => ?_⟩
    cases i with
    | zero =>
      obtain rfl : b = b' := Option.some.inj hi
      exact ⟨a, rfl, hb⟩
    | succ i => exact hget i b' hi

/-- The results are those of the calls. -/
theorem mem_mapM {as : List α} {bs : List β} (hmap : as.mapM f = .ok bs) {b : β} :
    b ∈ bs ↔ ∃ a ∈ as, f a = .ok b := by
  induction as generalizing bs with
  | nil =>
    obtain rfl := Except.ok.inj hmap
    simp
  | cons a as ih =>
    obtain ⟨b', bs', hb, hbs, rfl⟩ := mapM_cons_eq_ok.1 hmap
    rw [List.mem_cons, ih hbs]
    constructor
    · rintro (rfl | ⟨a', ha', h⟩)
      · exact ⟨a, List.mem_cons_self, hb⟩
      · exact ⟨a', List.mem_cons_of_mem a ha', h⟩
    · rintro ⟨a', ha', h⟩
      rcases List.mem_cons.1 ha' with rfl | ha'
      · exact Or.inl (Except.ok.inj (h.symm.trans hb))
      · exact Or.inr ⟨a', ha', h⟩

/-- Where all calls have a result, each has one. -/
theorem exists_mapM {as : List α} {bs : List β} (hmap : as.mapM f = .ok bs) {a : α} (ha : a ∈ as) :
    ∃ b ∈ bs, f a = .ok b := by
  induction as generalizing bs with
  | nil => cases ha
  | cons a' as ih =>
    obtain ⟨b', bs', hb, hbs, rfl⟩ := mapM_cons_eq_ok.1 hmap
    rcases List.mem_cons.1 ha with rfl | ha
    · exact ⟨b', List.mem_cons_self, hb⟩
    · obtain ⟨b, hmem, h⟩ := ih hbs ha
      exact ⟨b, List.mem_cons_of_mem _ hmem, h⟩

/-- All calls have a result, or there is a first one that throws. -/
theorem mapM_cases (f : α → Except ε β) (as : List α) :
    (∃ bs, as.mapM f = .ok bs) ∨
      ∃ front a back bs e, as = front ++ a :: back ∧ front.mapM f = .ok bs ∧ f a = .error e := by
  induction as with
  | nil => exact Or.inl ⟨[], rfl⟩
  | cons a as ih =>
    cases ha : f a with
    | error e => exact Or.inr ⟨[], a, as, [], e, rfl, rfl, ha⟩
    | ok b =>
      rcases ih with ⟨bs, hbs⟩ | ⟨front, a', back, bs, e, rfl, hbs, he⟩
      · exact Or.inl ⟨b :: bs, mapM_cons_eq_ok.2 ⟨b, bs, ha, hbs, rfl⟩⟩
      · exact Or.inr ⟨a :: front, a', back, b :: bs, e, rfl, mapM_cons_eq_ok.2 ⟨b, bs, ha, hbs, rfl⟩, he⟩

/-- With a call that throws, not all have a result. -/
theorem mapM_ne_ok {front back : List α} {a : α} {e : ε} (he : f a = .error e) (bs : List β) :
    (front ++ a :: back).mapM f ≠ .ok bs := by
  induction front generalizing bs with
  | nil =>
    intro h
    obtain ⟨b, bs, hb, -⟩ := mapM_cons_eq_ok.1 h
    rw [he] at hb
    cases hb
  | cons a' front ih =>
    intro h
    obtain ⟨b, bs, -, hbs, -⟩ := mapM_cons_eq_ok.1 h
    exact ih bs hbs

/-- The first call that throws is one. -/
theorem mapM_first_unique {front front' back back' : List α} {a a' : α} {bs bs' : List β} {e e' : ε}
    (heq : front ++ a :: back = front' ++ a' :: back') (h : front.mapM f = .ok bs)
    (h' : front'.mapM f = .ok bs') (ha : f a = .error e) (ha' : f a' = .error e') : bs = bs' := by
  induction front generalizing front' bs bs' with
  | nil =>
    cases front' with
    | nil => exact Except.ok.inj (h.symm.trans h')
    | cons c front' =>
      obtain ⟨rfl, -⟩ := List.cons.inj heq
      obtain ⟨b, -, hb, -⟩ := mapM_cons_eq_ok.1 h'
      rw [ha] at hb
      cases hb
  | cons c front ih =>
    cases front' with
    | nil =>
      obtain ⟨rfl, -⟩ := List.cons.inj heq
      obtain ⟨b, -, hb, -⟩ := mapM_cons_eq_ok.1 h
      rw [ha'] at hb
      cases hb
    | cons c' front' =>
      obtain ⟨rfl, htail⟩ := List.cons.inj heq
      obtain ⟨b, bs, hb, hbs, rfl⟩ := mapM_cons_eq_ok.1 h
      obtain ⟨b', bs', hb', hbs', rfl⟩ := mapM_cons_eq_ok.1 h'
      rw [ih htail hbs hbs', Except.ok.inj (hb.symm.trans hb')]

/-! ## The first result that is not empty -/

/-- The first result that is not empty, unless a call before it throws. -/
def firstNonempty : List (Except ε (List α)) → Except ε (List α)
  | [] => .ok []
  | .error e :: _ => .error e
  | .ok [] :: rs => firstNonempty rs
  | .ok (a :: as) :: _ => .ok (a :: as)

theorem firstNonempty_cons (r : Except ε (List α)) (rs : List (Except ε (List α))) :
    firstNonempty (r :: rs) = r >>= fun as => if as = [] then firstNonempty rs else .ok as := by
  cases r with
  | error e => rfl
  | ok as => cases as <;> rfl

theorem firstNonempty_append (rs rs' : List (Except ε (List α))) :
    firstNonempty (rs ++ rs') =
      firstNonempty rs >>= fun as => if as = [] then firstNonempty rs' else .ok as := by
  induction rs with
  | nil => rfl
  | cons r rs ih =>
    rw [List.cons_append, firstNonempty_cons, firstNonempty_cons, ih]
    cases r with
    | error e => rfl
    | ok as => cases as <;> rfl

theorem firstNonempty_eq_ok {rs : List (Except ε (List α))} {as : List α} (hne : as ≠ []) :
    firstNonempty rs = .ok as ↔
      ∃ before after, rs = before ++ .ok as :: after ∧ ∀ r ∈ before, r = .ok [] := by
  induction rs with
  | nil =>
    constructor
    · intro h
      exact absurd (Except.ok.inj h).symm hne
    · rintro ⟨before, after, h, -⟩
      simp at h
  | cons r rs ih =>
    constructor
    · intro h
      rw [firstNonempty_cons, bind_eq_ok] at h
      obtain ⟨bs, rfl, h⟩ := h
      split_ifs at h with hbs
      · obtain ⟨before, after, rfl, hbefore⟩ := ih.1 h
        exact ⟨.ok bs :: before, after, rfl, List.forall_mem_cons.2 ⟨congrArg _ hbs, hbefore⟩⟩
      · obtain rfl := Except.ok.inj h
        exact ⟨[], rs, rfl, by simp⟩
    · rintro ⟨before, after, h, hbefore⟩
      cases before with
      | nil =>
        obtain ⟨rfl, rfl⟩ := List.cons.inj h
        rw [firstNonempty_cons]
        exact if_neg hne
      | cons r' before =>
        obtain ⟨rfl, rfl⟩ := List.cons.inj h
        obtain ⟨rfl, hrest⟩ := List.forall_mem_cons.1 hbefore
        exact ih.2 ⟨before, after, rfl, hrest⟩

/-- The calls that some elements of a list lead to. -/
theorem firstNonempty_filterMap {g : β → Option (Except ε (List α))} {l : List β} {as : List α} (hne : as ≠ []) :
    firstNonempty (l.filterMap g) = .ok as ↔
      ∃ before b after, l = before ++ b :: after ∧ g b = some (.ok as) ∧
        ∀ b' ∈ before, g b' = none ∨ g b' = some (.ok []) := by
  rw [firstNonempty_eq_ok hne]
  constructor
  · rintro ⟨rs, rs', hsplit, hrs⟩
    obtain ⟨before, tail, rfl, rfl, htail⟩ := List.filterMap_eq_append_iff.1 hsplit
    obtain ⟨front, b, after, rfl, hfront, hb, -⟩ := List.filterMap_eq_cons_iff.1 htail
    refine ⟨before ++ front, b, after, by rw [List.append_assoc], hb, fun b' hb' => ?_⟩
    rcases List.mem_append.1 hb' with hb' | hb'
    · cases hg : g b' with
      | none => exact Or.inl rfl
      | some r => exact Or.inr (congrArg some (hrs r (List.mem_filterMap.2 ⟨b', hb', hg⟩)))
    · exact Or.inl (hfront b' hb')
  · rintro ⟨before, b, after, rfl, hb, hbefore⟩
    refine ⟨before.filterMap g, after.filterMap g, ?_, fun r hr => ?_⟩
    · rw [List.filterMap_append, List.filterMap_cons_some hb]
    · obtain ⟨b', hb', hg⟩ := List.mem_filterMap.1 hr
      rcases hbefore b' hb' with h | h
      · rw [h] at hg
        cases hg
      · exact Option.some.inj (hg.symm.trans h)

end Except

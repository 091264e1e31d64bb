/-
  Ordered finite maps (`std::map`): association lists in ascending order of
  their keys.  The order is a field of the structure, so two maps with the same
  values are equal (`OrdMap.ext_get`).
-/
import Mathlib.Data.UInt
import Mathlib.Data.List.Lex
import Mathlib.Data.List.Sort
import Mathlib.Tactic.Common

/-- Bytes are ordered by value. -/
instance byteOrder : LinearOrder UInt8 where
  le_refl _ := Nat.le_refl _
  le_trans _ _ _ := Nat.le_trans
  le_antisymm _ _ h1 h2 := UInt8.toNat_inj.1 (Nat.le_antisymm h1 h2)
  le_total a b := Nat.le_total a.toNat b.toNat
  lt_iff_le_not_ge a b := Nat.lt_iff_le_and_not_ge (m := a.toNat) (n := b.toNat)
  toDecidableLE := inferInstance
  toDecidableEq := inferInstance
  toDecidableLT := inferInstance

/-- A finite map from `κ` to `ν`. -/
structure OrdMap (κ ν : Type) [LinearOrder κ] where
  entries : List (κ × ν)
  sorted : entries.Pairwise (·.1 < ·.1)

namespace OrdMap

variable {κ ν : Type} [LinearOrder κ]

theorem entries_inj {m m' : OrdMap κ ν} : m.entries = m'.entries ↔ m = m' := by
  cases m
  cases m'
  simp

instance [DecidableEq ν] : DecidableEq (OrdMap κ ν) := fun _ _ => decidable_of_iff _ entries_inj

def empty : OrdMap κ ν := ⟨[], .nil⟩

/-- The first value at a key in a list of entries. -/
def assoc (k : κ) : List (κ × ν) → Option ν
  | [] => none
  | e :: es => if k = e.1 then some e.2 else assoc k es

/-- The value at a key. -/
def get (m : OrdMap κ ν) (k : κ) : Option ν := assoc k m.entries

/-- Insertion into a list of entries in ascending order. -/
def insertEntry (k : κ) (v : ν) : List (κ × ν) → List (κ × ν)
  | [] => [(k, v)]
  | e :: es =>
    if k < e.1 then (k, v) :: e :: es
    else if e.1 = k then (k, v) :: es
    else e :: insertEntry k v es

theorem mem_insertEntry {k : κ} {v : ν} {e : κ × ν} :
    ∀ {es : List (κ × ν)}, e ∈ insertEntry k v es → e = (k, v) ∨ e ∈ es
  | [], h => by simpa [insertEntry] using h
  | d :: es, h => by
    unfold insertEntry at h
    split_ifs at h
    · simpa using h
    · rcases List.mem_cons.1 h with h | h
      · exact Or.inl h
      · exact Or.inr (List.mem_cons_of_mem _ h)
    · rcases List.mem_cons.1 h with rfl | h
      · exact Or.inr (by simp)
      · exact (mem_insertEntry h).imp_right (List.mem_cons_of_mem _)

theorem sorted_insertEntry {k : κ} {v : ν} :
    ∀ {es : List (κ × ν)}, es.Pairwise (·.1 < ·.1) → (insertEntry k v es).Pairwise (·.1 < ·.1)
  | [], _ => by simp [insertEntry]
  | e :: es, h => by
    obtain ⟨h1, h2⟩ := List.pairwise_cons.1 h
    unfold insertEntry
    split_ifs with hlt heq
    · exact List.pairwise_cons.2 ⟨fun d hd => (List.mem_cons.1 hd).elim (fun he => he ▸ hlt)
        fun hd => hlt.trans (h1 d hd), h⟩
    · exact List.pairwise_cons.2 ⟨fun d hd => heq ▸ h1 d hd, h2⟩
    · refine List.pairwise_cons.2 ⟨fun d hd => ?_, sorted_insertEntry h2⟩
      rcases mem_insertEntry hd with rfl | hd
      · exact lt_of_le_of_ne (not_lt.1 hlt) heq
      · exact h1 d hd

/-- `m[k] = v`. -/
def insert (m : OrdMap κ ν) (k : κ) (v : ν) : OrdMap κ ν :=
  ⟨insertEntry k v m.entries, sorted_insertEntry m.sorted⟩

/-- The map of a list of assignments, in order. -/
def ofList (l : List (κ × ν)) : OrdMap κ ν := l.foldl (fun m e => m.insert e.1 e.2) empty

@[simp] theorem get_empty (k : κ) : (empty : OrdMap κ ν).get k = none := rfl

theorem mem_insert {m : OrdMap κ ν} {k : κ} {v : ν} {e : κ × ν} (h : e ∈ (m.insert k v).entries) :
    e = (k, v) ∨ e ∈ m.entries :=
  mem_insertEntry h

theorem mem_ofList {l : List (κ × ν)} {e : κ × ν} (h : e ∈ (ofList l).entries) : e ∈ l := by
  have key : ∀ (l : List (κ × ν)) (m : OrdMap κ ν),
      e ∈ (l.foldl (fun m e => m.insert e.1 e.2) m).entries → e ∈ l ∨ e ∈ m.entries := by
    intro l
    induction l with
    | nil => exact fun _ => Or.inr
    | cons d l ih =>
      intro m hm
      rcases ih (m.insert d.1 d.2) hm with hl | hm
      · exact Or.inl (List.mem_cons_of_mem _ hl)
      · rcases mem_insert hm with rfl | hm
        · exact Or.inl List.mem_cons_self
        · exact Or.inr hm
  exact (key l empty h).resolve_right List.not_mem_nil

/-- An insertion leaves the entries of the other keys, and their order. -/
theorem filter_insert {f : κ × ν → Bool} {k : κ} (hf : ∀ v, f (k, v) = false) (m : OrdMap κ ν) (v : ν) :
    (m.insert k v).entries.filter f = m.entries.filter f := by
  have key : ∀ es : List (κ × ν), (insertEntry k v es).filter f = es.filter f := by
    intro es
    induction es with
    | nil => simp [insertEntry, hf]
    | cons e es ih =>
      unfold insertEntry
      split_ifs with hlt heq
      · rw [List.filter_cons, hf, if_neg Bool.false_ne_true]
      · obtain ⟨k', v'⟩ := e
        obtain rfl : k' = k := heq
        rw [List.filter_cons, List.filter_cons, hf, hf]
        rfl
      · rw [List.filter_cons, ih, List.filter_cons]
  exact key m.entries

theorem assoc_insertEntry (k : κ) (v : ν) (k' : κ) (es : List (κ × ν)) :
    assoc k' (insertEntry k v es) = if k' = k then some v else assoc k' es := by
  induction es with
  | nil => simp [insertEntry, assoc]
  | cons e es ih =>
    unfold insertEntry
    by_cases hlt : k < e.1
    · rw [if_pos hlt, assoc]
    · by_cases heq : e.1 = k
      · rw [if_neg hlt, if_pos heq, assoc, assoc, heq]
        split_ifs <;> rfl
      · rw [if_neg hlt, if_neg heq, assoc, assoc, ih]
        by_cases hk : k' = k
        · rw [if_pos hk, if_pos hk, if_neg (hk ▸ Ne.symm heq)]
        · rw [if_neg hk, if_neg hk]

theorem get_insert (m : OrdMap κ ν) (k : κ) (v : ν) (k' : κ) :
    (m.insert k v).get k' = if k' = k then some v else m.get k' :=
  assoc_insertEntry k v k' m.entries

theorem mem_of_assoc {es : List (κ × ν)} {k : κ} {v : ν} (h : assoc k es = some v) : (k, v) ∈ es := by
  induction es with
  | nil => simp [assoc] at h
  | cons e es ih =>
    rw [assoc] at h
    split_ifs at h with hk
    · obtain rfl : e.2 = v := by simpa using h
      exact hk ▸ List.mem_cons_self
    · exact List.mem_cons_of_mem _ (ih h)

theorem assoc_eq_none_iff {es : List (κ × ν)} {k : κ} : assoc k es = none ↔ k ∉ es.map Prod.fst := by
  induction es with
  | nil => simp [assoc]
  | cons e es ih =>
    rw [assoc, List.map_cons, List.mem_cons, not_or]
    split_ifs with hk <;> simp [hk, ih]

/-- A list of assignments with distinct keys keeps them all. -/
theorem get_foldl_insert {l : List (κ × ν)} (hl : (l.map Prod.fst).Nodup) (m : OrdMap κ ν) (k : κ) :
    (l.foldl (fun m e => m.insert e.1 e.2) m).get k = (assoc k l).or (m.get k) := by
  induction l generalizing m with
  | nil => simp [assoc]
  | cons e l ih =>
    rw [List.map_cons, List.nodup_cons] at hl
    rw [List.foldl_cons, ih hl.2, get_insert, assoc]
    by_cases hk : k = e.1
    · have hnone : assoc k l = none := assoc_eq_none_iff.2 fun h => hl.1 (hk ▸ h)
      simp [hk, hk ▸ hnone]
    · simp [hk]

theorem get_ofList {l : List (κ × ν)} (hl : (l.map Prod.fst).Nodup) (k : κ) :
    (ofList l).get k = assoc k l := by
  simp [ofList, get_foldl_insert hl]

theorem assoc_of_nodup {es : List (κ × ν)} (h : (es.map Prod.fst).Nodup) {e : κ × ν} (he : e ∈ es) :
    assoc e.1 es = some e.2 := by
  induction es with
  | nil => cases he
  | cons d es ih =>
    obtain ⟨h1, h2⟩ := List.nodup_cons.1 (List.map_cons ▸ h)
    rcases List.mem_cons.1 he with rfl | he
    · rw [assoc, if_pos rfl]
    · have hne : e.1 ≠ d.1 := fun heq => h1 (heq ▸ List.mem_map_of_mem he)
      rw [assoc, if_neg hne, ih h2 he]

theorem get_ofList_eq_some {l : List (κ × ν)} (hl : (l.map Prod.fst).Nodup) {k : κ} {v : ν} :
    (ofList l).get k = some v ↔ (k, v) ∈ l := by
  rw [get_ofList hl]
  exact ⟨mem_of_assoc, assoc_of_nodup hl⟩

theorem entries_nodup (m : OrdMap κ ν) : (m.entries.map Prod.fst).Nodup :=
  List.pairwise_map.2 (m.sorted.imp ne_of_lt)

theorem get_eq_some_iff {m : OrdMap κ ν} {k : κ} {v : ν} : m.get k = some v ↔ (k, v) ∈ m.entries :=
  ⟨mem_of_assoc, assoc_of_nodup m.entries_nodup⟩

/-- **Maps with the same values are equal.** -/
theorem ext_get {m m' : OrdMap κ ν} (h : ∀ k, m.get k = m'.get k) : m = m' := by
  have key : ∀ {a b : OrdMap κ ν}, (∀ k, a.get k = b.get k) → ∀ e ∈ a.entries, e ∈ b.entries :=
    fun {a b} hab e he =>
      mem_of_assoc ((hab e.1).symm.trans (assoc_of_nodup a.entries_nodup he))
  obtain ⟨es, hs⟩ := m
  obtain ⟨es', hs'⟩ := m'
  have hnd : ∀ {l : List (κ × ν)}, l.Pairwise (·.1 < ·.1) → l.Nodup :=
    fun hl => hl.imp fun h he => (ne_of_lt h) (congrArg Prod.fst he)
  have hp : es.Perm es' := (List.perm_ext_iff_of_nodup (hnd hs) (hnd hs')).2
    fun e => ⟨key h e, key (fun k => (h k).symm) e⟩
  exact entries_inj.1 (hp.eq_of_pairwise (fun a b _ _ h1 h2 => absurd h1 (asymm h2)) hs hs')

end OrdMap

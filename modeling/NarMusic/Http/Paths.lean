/-
  Patterns with parameters and the paths that match them (`Router::matchPath`).

  A pattern is a list of segments with slashes between them.  Putting the values of a map
  into its parameters gives a path, and `matchPath` reads the map back from it; what else it
  matches differs from such a path by a slash at either end.

  A name with a slash in it is cut in two when the pattern is split (`slash_in_name`).
-/
import NarMusic.Http.Router

namespace NarMusic.Router

open Cxx

/-! ## Patterns -/

/-- A segment of a pattern: a text, or `:name`. -/
inductive Segment where
  | literal (text : Str) (ne_nil : text ≠ []) (no_slash : 47 ∉ text) (no_colon : text.head? ≠ some 58)
  | param (name : Str) (ne_nil : name ≠ [])

namespace Segment

def text : Segment → Str
  | literal text _ _ _ => text
  | param name _ => 58 :: name

def name? : Segment → Option Str
  | literal _ _ _ _ => none
  | param name _ => some name

/-- The segment with the value of a map put in. -/
def fill (values : OrdMap Str Str) : Segment → Str
  | literal text _ _ _ => text
  | param name _ => (values.get name).getD []

end Segment

def names (segs : List Segment) : List Str := segs.filterMap Segment.name?

/-- Segments with slashes between them, behind a slash or not. -/
def slashed (leading : Bool) (segs : List Str) : Str :=
  (if leading then [47] else []) ++ [47].intercalate segs

/-- The map gives a value that can stand in a path to each of the names, and to no other. -/
structure Assigns (segs : List Segment) (values : OrdMap Str Str) : Prop where
  keys : ∀ k, (values.get k).isSome = true ↔ k ∈ names segs
  plain : ∀ k, ∀ v ∈ values.get k, v ≠ [] ∧ 47 ∉ v

/-- At most one slash. -/
def IsSlash (s : Str) : Prop := s = [] ∨ s = [47]

/-- Patterns and paths are inverse. -/
def Inverse (segs : List Segment) : Prop :=
  ∀ leading,
    (∀ values, Assigns segs values →
      matchPath (slashed leading (segs.map Segment.text)) (slashed leading (segs.map (Segment.fill values))) =
        some values) ∧
    ∀ path values, matchPath (slashed leading (segs.map Segment.text)) path = some values →
      (∀ k, (values.get k).isSome = true ↔ k ∈ names segs) ∧
      ∃ front back, IsSlash front ∧ IsSlash back ∧
        path = front ++ [47].intercalate (segs.map (Segment.fill values)) ++ back

/-! ## Splitting -/

theorem getlines_intercalate {ss : List Str} (h : ∀ s ∈ ss, s ≠ [] ∧ 47 ∉ s) :
    getlines 47 ([47].intercalate ss) = ss := by
  induction ss with
  | nil => rfl
  | cons s ss ih =>
    obtain ⟨⟨hne, hslash⟩, hrest⟩ := List.forall_mem_cons.1 h
    cases ss with
    | nil =>
      rw [List.intercalate_singleton]
      exact getlines_last hslash hne
    | cons t ss =>
      rw [List.intercalate_cons_cons, List.append_assoc, List.singleton_append, getlines_sep hslash, ih hrest]

theorem splitPath_slashed (leading : Bool) {ss : List Str} (h : ∀ s ∈ ss, s ≠ [] ∧ 47 ∉ s) :
    splitPath (slashed leading ss) = ss := by
  cases leading with
  | true => exact getlines_intercalate h
  | false =>
    have hhead : ([47].intercalate ss).head? ≠ some 47 := by
      cases ss with
      | nil => simp
      | cons s ss =>
        obtain ⟨hne, hslash⟩ := h s List.mem_cons_self
        obtain ⟨c, s, rfl⟩ := List.exists_cons_of_ne_nil hne
        rw [intercalate_cons, List.cons_append, List.head?_cons]
        exact fun hc => hslash (Option.some.inj hc ▸ List.mem_cons_self)
    show splitPath ([47].intercalate ss) = ss
    rw [splitPath, if_neg hhead, getlines_intercalate h]

theorem getlines_eq_nil {sep : Byte} {s : Str} (h : getlines sep s = []) : s = [] := by
  cases s with
  | nil => rfl
  | cons c s =>
    rw [getlines] at h
    split_ifs at h
    cases hlines : getlines sep s with
    | nil =>
      rw [hlines] at h
      cases h
    | cons l ls =>
      rw [hlines] at h
      cases h

/-- The pieces with slashes between them are the text, up to a slash at its end. -/
theorem intercalate_getlines (s : Str) : ∃ back, IsSlash back ∧ s = [47].intercalate (getlines 47 s) ++ back := by
  induction s with
  | nil => exact ⟨[], Or.inl rfl, rfl⟩
  | cons c s ih =>
    obtain ⟨back, hback, hs⟩ := ih
    rw [getlines]
    cases hlines : getlines 47 s with
    | nil =>
      obtain rfl := getlines_eq_nil hlines
      split_ifs with hc
      · exact ⟨[47], Or.inr rfl, by rw [hc]; rfl⟩
      · exact ⟨[], Or.inl rfl, rfl⟩
    | cons l ls =>
      rw [hlines] at hs
      split_ifs with hc
      · refine ⟨back, hback, ?_⟩
        rw [List.intercalate_cons_cons, hc, List.nil_append, List.singleton_append, List.cons_append, ← hs]
      · refine ⟨back, hback, ?_⟩
        rw [intercalate_cons] at hs ⊢
        rw [List.cons_append, List.cons_append, ← hs]

theorem slashed_splitPath (path : Str) :
    ∃ front back, IsSlash front ∧ IsSlash back ∧ path = front ++ [47].intercalate (splitPath path) ++ back := by
  unfold splitPath
  split_ifs with hhead
  · obtain ⟨path, rfl⟩ := List.head?_eq_some_iff.1 hhead
    obtain ⟨back, hback, hpath⟩ := intercalate_getlines path
    exact ⟨[47], back, Or.inr rfl, hback, congrArg (47 :: ·) hpath⟩
  · obtain ⟨back, hback, hpath⟩ := intercalate_getlines path
    exact ⟨[], back, Or.inl rfl, hback, hpath⟩

/-! ## Matching -/

theorem names_cons (seg : Segment) (segs : List Segment) :
    names (seg :: segs) = seg.name?.toList ++ names segs := by
  cases seg <;> rfl

theorem matchSegments_literal {text : Str} (h : text.head? ≠ some 58) (segs : List (Str × Str))
    (acc : OrdMap Str Str) : matchSegments ((text, text) :: segs) acc = matchSegments segs acc := by
  rw [matchSegments, if_neg h, if_neg (not_not.2 rfl)]

theorem matchSegments_param (name s : Str) (segs : List (Str × Str)) (acc : OrdMap Str Str) :
    matchSegments ((58 :: name, s) :: segs) acc = matchSegments segs (acc.insert name s) := by
  rw [matchSegments, List.head?_cons, if_pos rfl, List.tail_cons]

/-- What is put in is read back. -/
theorem matchSegments_fill (values : OrdMap Str Str) (segs : List Segment) (acc : OrdMap Str Str) :
    ∃ params, matchSegments ((segs.map Segment.text).zip (segs.map (Segment.fill values))) acc = some params ∧
      ∀ k, params.get k = if k ∈ names segs then some ((values.get k).getD []) else acc.get k := by
  induction segs generalizing acc with
  | nil => exact ⟨acc, rfl, fun k => by simp [names]⟩
  | cons seg segs ih =>
    cases seg with
    | literal text hne hslash hcolon =>
      obtain ⟨params, hmatch, hget⟩ := ih acc
      exact ⟨params, (matchSegments_literal hcolon _ acc).trans hmatch, hget⟩
    | param name hne =>
      obtain ⟨params, hmatch, hget⟩ := ih (acc.insert name ((values.get name).getD []))
      refine ⟨params, (matchSegments_param name _ _ acc).trans hmatch, fun k => ?_⟩
      rw [hget, OrdMap.get_insert, names_cons]
      by_cases hk : k = name
      · subst hk
        simp [Segment.name?]
      · simp [hk, Segment.name?]

/-- A path that matches is the pattern with the values put in. -/
theorem matchSegments_some {segs : List Segment} (hnodup : (names segs).Nodup) {ss : List Str}
    (hlen : segs.length = ss.length) {acc params : OrdMap Str Str}
    (h : matchSegments ((segs.map Segment.text).zip ss) acc = some params) :
    ss = segs.map (Segment.fill params) ∧
      (∀ k ∈ names segs, (params.get k).isSome = true) ∧ ∀ k ∉ names segs, params.get k = acc.get k := by
  induction segs generalizing ss acc with
  | nil =>
    obtain rfl : acc = params := Option.some.inj h
    exact ⟨List.eq_nil_of_length_eq_zero hlen.symm, fun k hk => absurd hk List.not_mem_nil, fun k _ => rfl⟩
  | cons seg segs ih =>
    cases ss with
    | nil => cases hlen
    | cons s ss =>
      have hlen' : segs.length = ss.length := Nat.succ.inj hlen
      cases seg with
      | literal text hne hslash hcolon =>
        by_cases heq : text = s
        · subst heq
          rw [List.map_cons, List.zip_cons_cons, Segment.text, matchSegments_literal hcolon] at h
          obtain ⟨hss, hnames, hothers⟩ := ih hnodup hlen' h
          exact ⟨congrArg (text :: ·) hss, hnames, hothers⟩
        · rw [List.map_cons, List.zip_cons_cons, Segment.text, matchSegments, if_neg hcolon, if_pos heq] at h
          cases h
      | param name hne =>
        rw [List.map_cons, List.zip_cons_cons, Segment.text, matchSegments_param] at h
        obtain ⟨hnew, hnodup'⟩ := List.nodup_cons.1 (show (name :: names segs).Nodup from hnodup)
        obtain ⟨hss, hnames, hothers⟩ := ih hnodup' hlen' h
        have hname : params.get name = some s := by
          rw [hothers name hnew, OrdMap.get_insert]
          exact if_pos rfl
        refine ⟨?_, fun k hk => ?_, fun k hk => ?_⟩
        · rw [List.map_cons, ← hss, Segment.fill, hname]
          rfl
        · rcases List.mem_cons.1 (show k ∈ name :: names segs from hk) with rfl | hk
          · rw [hname]
            rfl
          · exact hnames k hk
        · obtain ⟨hk, hrest⟩ := not_or.1 (fun h => hk (List.mem_cons.2 h) : ¬ (k = name ∨ k ∈ names segs))
          rw [hothers k hrest, OrdMap.get_insert, if_neg hk]

/-! ## Patterns and paths -/

/-- A pattern whose parameters have different names without slashes. -/
structure Pattern where
  segs : List Segment
  distinct : (names segs).Nodup
  no_slash : ∀ name ∈ names segs, 47 ∉ name

theorem Pattern.text_plain (pattern : Pattern) : ∀ s ∈ pattern.segs.map Segment.text, s ≠ [] ∧ 47 ∉ s := by
  intro s hs
  obtain ⟨seg, hseg, rfl⟩ := List.mem_map.1 hs
  cases seg with
  | literal text hne hslash hcolon => exact ⟨hne, hslash⟩
  | param name hne =>
    have hname : name ∈ names pattern.segs := List.mem_filterMap.2 ⟨_, hseg, rfl⟩
    exact ⟨List.cons_ne_nil _ _, fun h => pattern.no_slash name hname ((List.mem_cons.1 h).resolve_left (by decide))⟩

theorem Assigns.fill_plain {segs : List Segment} {values : OrdMap Str Str} (h : Assigns segs values) :
    ∀ s ∈ segs.map (Segment.fill values), s ≠ [] ∧ 47 ∉ s := by
  intro s hs
  obtain ⟨seg, hseg, rfl⟩ := List.mem_map.1 hs
  cases seg with
  | literal text hne hslash hcolon => exact ⟨hne, hslash⟩
  | param name hne =>
    have hname : name ∈ names segs := List.mem_filterMap.2 ⟨_, hseg, rfl⟩
    obtain ⟨v, hv⟩ := Option.isSome_iff_exists.1 ((h.keys name).2 hname)
    rw [Segment.fill, hv]
    exact h.plain name v hv

/-- **Patterns and paths.**  `matchPath` reads back the values that were put into a pattern, and a path
    it matches is the pattern with the values it returns, up to a slash at either end. -/
theorem matchPath_inverse (pattern : Pattern) : Inverse pattern.segs := by
  intro leading
  have hpattern := splitPath_slashed leading pattern.text_plain
  refine ⟨fun values h => ?_, fun path values h => ?_⟩
  · obtain ⟨params, hmatch, hget⟩ := matchSegments_fill values pattern.segs .empty
    have heq : params = values := by
      refine OrdMap.ext_get fun k => ?_
      rw [hget]
      split_ifs with hk
      · obtain ⟨v, hv⟩ := Option.isSome_iff_exists.1 ((h.keys k).2 hk)
        rw [hv]
        rfl
      · rw [OrdMap.get_empty, eq_comm, ← Option.not_isSome_iff_eq_none, h.keys k]
        exact hk
    rw [matchPath, hpattern, splitPath_slashed leading h.fill_plain, if_neg (by simp), ← heq]
    exact heq ▸ hmatch
  · rw [matchPath, hpattern] at h
    split_ifs at h with hlen
    rw [not_not, List.length_map] at hlen
    obtain ⟨hss, hnames, hothers⟩ := matchSegments_some pattern.distinct hlen h
    refine ⟨fun k => ⟨fun hk => ?_, hnames k⟩, ?_⟩
    · by_contra hnone
      rw [hothers k hnone] at hk
      cases hk
    · rw [← hss]
      exact slashed_splitPath path

/-- A name with a slash: the pattern has a segment more than the path. -/
theorem slash_in_name : ¬ ∀ segs : List Segment, (names segs).Nodup → Inverse segs := by
  intro h
  have hne : lit "a/b" ≠ [] := by decide
  have hvalues : Assigns [.param (lit "a/b") hne] (OrdMap.empty.insert (lit "a/b") (lit "v")) := by
    refine ⟨fun k => ?_, fun k v hv => ?_⟩
    · rw [OrdMap.get_insert, show names [.param (lit "a/b") hne] = [lit "a/b"] from rfl, List.mem_singleton]
      split_ifs with hk <;> simp [hk]
    · rw [OrdMap.get_insert, Option.mem_def] at hv
      split_ifs at hv
      · obtain rfl := Option.some.inj hv
        decide
      · cases hv
  have hmatch := (h [.param (lit "a/b") hne] (List.nodup_singleton _) true).1 _ hvalues
  have hnone : matchPath (slashed true [lit ":a/b"]) (slashed true [lit "v"]) = none := by decide
  exact absurd (hnone.symm.trans hmatch) (by simp)

end NarMusic.Router

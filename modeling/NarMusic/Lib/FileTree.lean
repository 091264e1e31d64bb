/-
  A tree of files and directories without links, and the resolution of a path in it.

  * `walk` takes the components of a path one after the other, as the system does: each
    needs a directory to start from, and a name needs an entry.
  * `canonical` is `fs::canonical`.  Where a path resolves, the result is its lexical
    normal form (`canonical_eq_lexical`), and every entry is what its text resolves to
    (`canonical_pathString`).
  * The text of a path may begin with the text of a directory without being in it: the
    first name that is not the same may go on after the directory's last (`Beside`,
    `pathString_prefix_iff`).
-/
import NarMusic.Lib.Path

namespace FileTree

open Cxx Path

/-- A file without a content cannot be opened for reading. -/
inductive Node where
  | file (content : Option Str)
  | dir
  deriving DecidableEq

/-- A name a directory can hold. -/
def ValidName (c : Str) : Prop := c ≠ [] ∧ sep ∉ c ∧ 0 ∉ c ∧ c ≠ lit "." ∧ c ≠ lit ".."

instance (c : Str) : Decidable (ValidName c) := inferInstanceAs (Decidable (_ ∧ _))

structure Tree where
  node : List Str → Option Node
  /-- The working directory. -/
  cwd : List Str
  root : node [] = some .dir
  parent : ∀ {p c}, node (p ++ [c]) ≠ none → node p = some .dir
  valid : ∀ {p c}, node (p ++ [c]) ≠ none → ValidName c
  cwd_dir : node cwd = some .dir

/-- The text of an absolute path. -/
def pathString (names : List Str) : Str :=
  if names = [] then [sep] else names.flatMap (sep :: ·)

/-- `fs::path(lhs) / rhs`. -/
def join (lhs rhs : Str) : Str :=
  if rhs.head? = some sep then rhs
  else if lhs = [] ∨ lhs.getLast? = some sep then lhs ++ rhs
  else lhs ++ sep :: rhs

namespace Tree

def step (t : Tree) (d : List Str) (c : Str) : Option (List Str) :=
  if t.node d ≠ some .dir then none
  else if c = lit "." then some d
  else if c = lit ".." then some d.dropLast
  else if t.node (d ++ [c]) = none then none
  else some (d ++ [c])

def walk (t : Tree) (d : List Str) (cs : List Str) : Option (List Str) := cs.foldlM t.step d

/-- Where a path starts. -/
def start (t : Tree) (p : Str) : List Str := if p.head? = some sep then [] else t.cwd

/-- `fs::canonical(p)`: an empty path is refused, the path is read as a C string, and one that ends
    with a separator is a directory's. -/
def canonical (t : Tree) (p : Str) : Option (List Str) :=
  if p = [] then none
  else (t.walk (t.start p) (components (cStr p))).filter fun names =>
    (cStr p).getLast? ≠ some sep ∨ t.node names = some .dir

/-- `fs::absolute(p).lexically_normal()`, with `p` read as a C string. -/
def lexical (t : Tree) (p : Str) : List Str :=
  (Rel.append ⟨0, t.start p⟩ (normalise (components (cStr p)))).names

/-! ## Walks -/

variable {t : Tree}

theorem step_node {d d' : List Str} {c : Str} (h : t.step d c = some d') : t.node d' ≠ none := by
  unfold step at h
  split_ifs at h with hdir hdot hdots hnode
  · cases h
    simp [not_not.1 hdir]
  · cases h
    rcases List.eq_nil_or_concat d with rfl | ⟨p, a, rfl⟩
    · simp [t.root]
    · rw [List.concat_eq_append] at hdir ⊢
      rw [List.dropLast_concat, t.parent (c := a) (by simp [not_not.1 hdir])]
      nofun
  · cases h
    exact hnode

theorem walk_node {cs : List Str} {d d' : List Str} (hd : t.node d ≠ none)
    (h : t.walk d cs = some d') : t.node d' ≠ none := by
  induction cs generalizing d with
  | nil =>
    cases h
    exact hd
  | cons c cs ih =>
    obtain ⟨d₁, hstep, hwalk⟩ := Option.bind_eq_some_iff.1 h
    exact ih (step_node hstep) hwalk

/-- One step adds a component to the normal form. -/
theorem step_push {d d' : List Str} {c : Str} {ups : ℕ} (h : t.step d c = some d') :
    (Rel.push ⟨ups, d⟩ c).names = d' := by
  unfold step at h
  unfold Rel.push
  split_ifs at h ⊢ with hdir hdot hdots hnode
  · exact Option.some.inj h
  · unfold Rel.up
    by_cases hnil : d = []
    · simpa [hnil] using h
    · simpa [hnil] using h
  · exact Option.some.inj h

theorem walk_push {cs : List Str} {d d' : List Str} {ups : ℕ} (h : t.walk d cs = some d') :
    (cs.foldl Rel.push ⟨ups, d⟩).names = d' := by
  induction cs generalizing d ups with
  | nil => exact Option.some.inj h
  | cons c cs ih =>
    obtain ⟨d₁, hstep, hwalk⟩ := Option.bind_eq_some_iff.1 h
    have hpush : Rel.push ⟨ups, d⟩ c = ⟨(Rel.push ⟨ups, d⟩ c).ups, d₁⟩ := by
      rw [← step_push hstep]
    rw [List.foldl_cons, hpush]
    exact ih hwalk

theorem canonical_eq_some {p : Str} {names : List Str} (h : t.canonical p = some names) :
    t.walk (t.start p) (components (cStr p)) = some names := by
  unfold canonical at h
  split_ifs at h
  exact (Option.filter_eq_some_iff.1 h).1

theorem start_node (p : Str) : t.node (t.start p) ≠ none := by
  unfold start
  split_ifs
  · simp [t.root]
  · simp [t.cwd_dir]

theorem canonical_node {p : Str} {names : List Str} (h : t.canonical p = some names) :
    t.node names ≠ none :=
  walk_node (start_node p) (canonical_eq_some h)

/-- Where a path resolves, it is normalised. -/
theorem canonical_eq_lexical {p : Str} {names : List Str} (h : t.canonical p = some names) :
    names = t.lexical p := by
  rw [lexical, ← foldl_push]
  exact (walk_push (canonical_eq_some h)).symm

theorem names_valid {names : List Str} (h : t.node names ≠ none) : ∀ c ∈ names, ValidName c := by
  induction names using List.reverseRecOn with
  | nil => nofun
  | append_singleton names c ih =>
    intro a ha
    rcases List.mem_append.1 ha with ha | ha
    · exact ih (by simp [t.parent h]) a ha
    · rw [List.mem_singleton.1 ha]
      exact t.valid h

theorem walk_names {names : List Str} (h : t.node names ≠ none) : t.walk [] names = some names := by
  induction names using List.reverseRecOn with
  | nil => rfl
  | append_singleton names c ih =>
    have hdir := t.parent h
    obtain ⟨-, -, -, hdot, hdots⟩ := t.valid h
    have hstep : t.step names c = some (names ++ [c]) := by
      simp [step, hdir, hdot, hdots, h]
    simp only [walk] at ih ⊢
    rw [List.foldlM_append, ih (by simp [hdir])]
    simp [hstep]

end Tree

/-! ## Texts of paths -/

theorem pathString_nil : pathString [] = [sep] := rfl

theorem pathString_cons (n : Str) (names : List Str) :
    pathString (n :: names) = sep :: n ++ names.flatMap (sep :: ·) := by
  simp [pathString]

theorem pathString_head (names : List Str) : (pathString names).head? = some sep := by
  cases names <;> simp [pathString]

theorem pathString_ne_nil (names : List Str) : pathString names ≠ [] := by
  intro h
  have hhead := pathString_head names
  rw [h] at hhead
  cases hhead

theorem components_name {c : Str} (h : ValidName c) : components c = [c] := by
  rw [components, List.splitOn_eq_singleton h.2.1]
  simp [h.1]

theorem components_flatMap {names : List Str} (h : ∀ c ∈ names, ValidName c) :
    components (names.flatMap (sep :: ·)) = names := by
  induction names with
  | nil => exact components_nil
  | cons n names ih =>
    obtain ⟨hn, hnames⟩ := List.forall_mem_cons.1 h
    rw [List.flatMap_cons, List.cons_append, components_cons_sep]
    rcases names with _ | ⟨m, names⟩
    · simp [components_name hn]
    · rw [components_append (Or.inr (Or.inr (by simp))), components_name hn, ih hnames]
      rfl

theorem components_pathString {names : List Str} (h : ∀ c ∈ names, ValidName c) :
    components (pathString names) = names := by
  unfold pathString
  split_ifs with hnil
  · rw [hnil]
    exact components_concat_sep []
  · exact components_flatMap h

theorem cStr_pathString {names : List Str} (h : ∀ c ∈ names, ValidName c) :
    cStr (pathString names) = pathString names := by
  refine cStr_of_notMem fun hb => ?_
  unfold pathString at hb
  split_ifs at hb
  · cases List.mem_singleton.1 hb
  · obtain ⟨c, hc, hb⟩ := List.mem_flatMap.1 hb
    rcases List.mem_cons.1 hb with hb | hb
    · cases hb
    · exact (h c hc).2.2.1 hb

theorem pathString_getLast {names : List Str} (h : ∀ c ∈ names, ValidName c) (hne : names ≠ []) :
    (pathString names).getLast? ≠ some sep := by
  obtain ⟨p, c, rfl⟩ := (List.eq_nil_or_concat names).resolve_left hne
  obtain ⟨hc, hsep, -⟩ := h c (by simp)
  intro hlast
  simp only [pathString, List.concat_eq_append, List.append_eq_nil_iff, List.cons_ne_nil, and_false,
    if_false, List.flatMap_append, List.flatMap_cons, List.flatMap_nil, List.append_nil] at hlast
  rw [List.getLast?_append_of_ne_nil _ (List.cons_ne_nil _ _), List.getLast?_cons_of_ne_nil hc] at hlast
  exact hsep (List.mem_of_getLast? hlast)

/-- An entry is what its text resolves to. -/
theorem Tree.canonical_pathString {t : Tree} {names : List Str} (h : t.node names ≠ none) :
    t.canonical (pathString names) = some names := by
  have hvalid := names_valid h
  rw [canonical, if_neg (pathString_ne_nil names), start, if_pos (pathString_head names),
    cStr_pathString hvalid, components_pathString hvalid, walk_names h]
  by_cases hnil : names = []
  · simp [hnil, t.root]
  · simp [pathString_getLast hvalid hnil]

theorem join_of_absolute {lhs rhs : Str} (h : rhs.head? = some sep) : join lhs rhs = rhs := if_pos h

/-! ## Texts that begin with the text of a directory -/

/-- In or under an entry of the directory's parent whose name goes on after the directory's. -/
def Beside (base names : List Str) : Prop :=
  ∃ parent last extra rest, base = parent ++ [last] ∧ extra ≠ [] ∧
    names = parent ++ (last ++ extra) :: rest

theorem not_beside_prefix {base names : List Str} (h : Beside base names) : ¬ base <+: names := by
  obtain ⟨parent, last, extra, rest, rfl, hextra, rfl⟩ := h
  simp [List.prefix_append_right_inj, List.cons_prefix_cons, hextra]

/-- A name in front of a path is in front of the path's first name. -/
theorem name_prefix {a b : Str} {names : List Str} (ha : sep ∉ a)
    (h : a <+: b ++ names.flatMap (sep :: ·)) : a <+: b := by
  rcases List.prefix_or_prefix_of_prefix h (List.prefix_append b _) with hle | ⟨s, rfl⟩
  · exact hle
  · rw [List.prefix_append_right_inj] at h
    cases s with
    | nil => simp
    | cons c s =>
      cases names with
      | nil => simp at h
      | cons n names =>
        rw [List.flatMap_cons, List.cons_append, List.cons_prefix_cons] at h
        simp [h.1] at ha

/-- A name with a separator behind it is a path's first name. -/
theorem name_sep_prefix {a b s : Str} {names : List Str} (ha : sep ∉ a) (hb : sep ∉ b) :
    a ++ sep :: s <+: b ++ names.flatMap (sep :: ·) ↔
      a = b ∧ sep :: s <+: names.flatMap (sep :: ·) := by
  constructor
  · intro h
    obtain ⟨r, rfl⟩ := name_prefix ha ((List.prefix_append a _).trans h)
    rw [List.append_assoc, List.prefix_append_right_inj] at h
    cases r with
    | nil => exact ⟨(List.append_nil a).symm, h⟩
    | cons c r =>
      rw [List.cons_append, List.cons_prefix_cons] at h
      simp [← h.1] at hb
  · rintro ⟨rfl, h⟩
    exact (List.prefix_append_right_inj a).2 h

theorem beside_singleton {b n : Str} {names : List Str} :
    Beside [b] (n :: names) ↔ ∃ extra, extra ≠ [] ∧ n = b ++ extra := by
  constructor
  · rintro ⟨parent, last, extra, rest, hbase, hextra, hnames⟩
    obtain ⟨rfl, hlast⟩ := List.append_eq_singleton_iff.1 hbase.symm |>.resolve_right (by simp)
    cases hlast
    exact ⟨extra, hextra, (List.cons.inj hnames).1⟩
  · rintro ⟨extra, hextra, rfl⟩
    exact ⟨[], b, extra, names, rfl, hextra, rfl⟩

theorem beside_cons {b n : Str} {base names : List Str} (hbase : base ≠ []) :
    Beside (b :: base) (n :: names) ↔ b = n ∧ Beside base names := by
  constructor
  · rintro ⟨parent, last, extra, rest, heq, hextra, hnames⟩
    cases parent with
    | nil => exact absurd (List.cons.inj heq).2 hbase
    | cons a parent =>
      obtain ⟨rfl, rfl⟩ := List.cons.inj heq
      obtain ⟨rfl, rfl⟩ := List.cons.inj hnames
      exact ⟨rfl, parent, last, extra, rest, rfl, hextra, rfl⟩
  · rintro ⟨rfl, parent, last, extra, rest, rfl, hextra, rfl⟩
    exact ⟨b :: parent, last, extra, rest, rfl, hextra, rfl⟩

theorem not_beside_nil (base : List Str) : ¬ Beside base [] := by
  rintro ⟨parent, last, extra, rest, -, -, h⟩
  cases parent <;> cases h

theorem flatMap_prefix_iff {base names : List Str} (hbase : ∀ c ∈ base, ValidName c)
    (hnames : ∀ c ∈ names, ValidName c) :
    base.flatMap (sep :: ·) <+: names.flatMap (sep :: ·) ↔ base <+: names ∨ Beside base names := by
  induction base generalizing names with
  | nil => simp
  | cons b base ih =>
    obtain ⟨hb, hbase⟩ := List.forall_mem_cons.1 hbase
    cases names with
    | nil => simp [not_beside_nil]
    | cons n names =>
      obtain ⟨hn, hnames⟩ := List.forall_mem_cons.1 hnames
      rw [List.flatMap_cons, List.flatMap_cons, List.cons_append, List.cons_append,
        List.cons_prefix_cons, List.cons_prefix_cons]
      simp only [true_and]
      cases base with
      | nil =>
        -- the directory's last name
        rw [List.flatMap_nil, List.append_nil, beside_singleton]
        constructor
        · intro h
          obtain ⟨extra, rfl⟩ := name_prefix hb.2.1 h
          by_cases hextra : extra = []
          · simp [hextra]
          · exact Or.inr ⟨extra, hextra, rfl⟩
        · rintro (⟨rfl, -⟩ | ⟨extra, -, rfl⟩)
          · exact List.prefix_append _ _
          · rw [List.append_assoc]
            exact List.prefix_append _ _
      | cons c base =>
        rw [List.flatMap_cons, List.cons_append, name_sep_prefix hb.2.1 hn.2.1, ← List.cons_append,
          ← List.flatMap_cons, ih hbase hnames, beside_cons (List.cons_ne_nil c base), ← and_or_left]

/-- The text of an entry begins with the text of a directory when the entry is in or under the
    directory, or beside it. -/
theorem pathString_prefix_iff {base names : List Str} (hbase : ∀ c ∈ base, ValidName c)
    (hnames : ∀ c ∈ names, ValidName c) :
    pathString base <+: pathString names ↔ base <+: names ∨ Beside base names := by
  cases base with
  | nil =>
    obtain ⟨s, hs⟩ := List.head?_eq_some_iff.1 (pathString_head names)
    rw [hs, pathString_nil]
    simp
  | cons b base =>
    cases names with
    | nil =>
      have hb : b ≠ [] := (hbase b (by simp)).1
      rw [pathString_nil, pathString_cons, List.cons_append, List.cons_prefix_cons]
      simp [hb, not_beside_nil]
    | cons n names => exact flatMap_prefix_iff hbase hnames

end FileTree

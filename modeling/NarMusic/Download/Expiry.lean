/-
  The sweep of expired songs, and the requests that use them.

  `removeExpired` looks once for the rows that are old and not in use, and then removes
  them one by one; a request may mark a row as used in between, and `remove` does not
  look at the mark.  So the sweep spares every song in use exactly while no request
  marks a row that is already on its list (`spares_used_iff`).
-/
import NarMusic.Download.Library
import NarMusic.Lib.Run

namespace NarMusic

open Cxx

/-- The cleanup thread and the request threads. -/
structure Sweep where
  shelf : Shelf
  /-- The ids that `removeExpired` has found and not yet removed. -/
  expired : List ℤ := []
  /-- The ids that requests have found and not yet marked. -/
  requests : List ℤ := []

namespace Sweep

/-- A call of the repository. -/
inductive Call where
  | findExpired (now : Time)
  | remove (denied : Finset Str)
  /-- `getFilePath`; `task` is what the task repository answers. -/
  | getFilePath (task : Option Task) (filename : Str) (tie : ℕ)
  /-- `getFilesPaths`, for one of its ids. -/
  | getFilesPaths (id : ℤ)
  | markUsed (i : ℕ) (now : Time)

def step (maxAgeSeconds : ℤ) (s : Sweep) : Call → Sweep
  | .findExpired now =>
    if s.expired = [] then
      { s with expired := (s.shelf.table.findExpired maxAgeSeconds now).map (·.id) }
    else s
  | .remove denied =>
    match s.expired with
    | id :: expired => { s with shelf := s.shelf.remove denied id, expired }
    | [] => s
  | .getFilePath task filename tie =>
    if task.any (·.status = .Finished) then s
    else
      match s.shelf.table.findBySystemFilename tie filename with
      | some entry => { s with requests := s.requests ++ [entry.id] }
      | none => s
  | .getFilesPaths id =>
    match s.shelf.table.findById id with
    | some entry => if entry.filePath = [] then s else { s with requests := s.requests ++ [id] }
    | none => s
  | .markUsed i now =>
    match s.requests[i]? with
    | some id =>
      { s with
        shelf := { s.shelf with table := s.shelf.table.markUsed id now }
        requests := s.requests.eraseIdx i }
    | none => s

/-- A removal leaves the rows that are in use, and their files. -/
def SparesUsed (maxAgeSeconds : ℤ) (s : Sweep) : Call → Prop
  | .remove denied => ∀ row ∈ s.shelf.table.rows, row.inUse = true →
      row ∈ (s.step maxAgeSeconds (.remove denied)).shelf.table.rows ∧
        (row.filePath ∈ s.shelf.disk → row.filePath ∈ (s.step maxAgeSeconds (.remove denied)).shelf.disk)
  | _ => True

instance decidableSparesUsed (maxAgeSeconds : ℤ) (s : Sweep) : ∀ call, Decidable (s.SparesUsed maxAgeSeconds call)
  | .remove denied => inferInstanceAs (Decidable (∀ row ∈ s.shelf.table.rows, row.inUse = true →
      row ∈ (s.step maxAgeSeconds (.remove denied)).shelf.table.rows ∧
        (row.filePath ∈ s.shelf.disk → row.filePath ∈ (s.step maxAgeSeconds (.remove denied)).shelf.disk)))
  | .findExpired _ | .getFilePath _ _ _ | .getFilesPaths _ | .markUsed _ _ => .isTrue trivial

/-- A request marks a row that the sweep has not found. -/
def InTime (s : Sweep) : Call → Prop
  | .markUsed i _ => ∀ id ∈ s.requests[i]?, id ∉ s.expired
  | _ => True

/-- Without a request in between, the sweep does what `removeExpired` does. -/
theorem exec_removes (maxAgeSeconds : ℤ) (denied : Finset Str) (s : Sweep) :
    Run.exec (step maxAgeSeconds) s (List.replicate s.expired.length (.remove denied)) =
      { s with shelf := s.shelf.deleteFiles denied s.expired, expired := [] } := by
  obtain ⟨shelf, expired, requests⟩ := s
  induction expired generalizing shelf with
  | nil => rfl
  | cons id expired ih => exact ih (shelf.remove denied id)

theorem exec_removeExpired (maxAgeSeconds : ℤ) (denied : Finset Str) (now : Time) (shelf : Shelf) :
    let s := step maxAgeSeconds { shelf } (.findExpired now)
    (Run.exec (step maxAgeSeconds) s (List.replicate s.expired.length (.remove denied))).shelf =
      shelf.removeExpired denied maxAgeSeconds now := by
  dsimp only
  rw [exec_removes]
  rfl

/-! ## One removal -/

end Sweep

namespace Shelf

/-- `remove` takes the row and perhaps its file. -/
theorem mem_remove (denied : Finset Str) {shelf : Shelf} {id : ℤ} {row : LibraryRow}
    (hrow : row ∈ shelf.table.rows) : row ∈ (shelf.remove denied id).table.rows ↔ row.id ≠ id := by
  unfold remove
  split
  · next hnone =>
    refine ⟨fun _ hid => ?_, fun _ => hrow⟩
    have habsent := List.find?_eq_none.1 (Option.map_eq_none_iff.1 hnone) row hrow
    exact habsent (decide_eq_true hid)
  · exact LibraryTable.mem_delete.trans (and_iff_right hrow)

theorem mem_disk_remove (denied : Finset Str) {shelf : Shelf} {id : ℤ} {row : LibraryRow}
    (hrow : row ∈ shelf.table.rows) (hid : row.id ≠ id) (hdisk : row.filePath ∈ shelf.disk) :
    row.filePath ∈ (shelf.remove denied id).disk := by
  by_contra hgone
  have hleft := (mem_remove denied hrow).2 hid
  exact remove_spares denied shelf id row.filePath hdisk hgone row hleft rfl

end Shelf

namespace Sweep

/-- The ids of the sweep are those of rows, each once. -/
structure Listed (s : Sweep) : Prop where
  nodup : s.expired.Nodup
  row : ∀ id ∈ s.expired, ∃ row ∈ s.shelf.table.rows, row.id = id

/-- No row of the list is in use. -/
def Unused (s : Sweep) : Prop :=
  ∀ id ∈ s.expired, ∀ row ∈ s.shelf.table.rows, row.id = id → row.inUse = false

/-- Some row of the list is in use. -/
def Doomed (s : Sweep) : Prop :=
  ∃ row ∈ s.shelf.table.rows, row.id ∈ s.expired ∧ row.inUse = true

theorem mem_findExpired {table : LibraryTable} {maxAgeSeconds : ℤ} {now : Time} {id : ℤ}
    (h : id ∈ (table.findExpired maxAgeSeconds now).map (·.id)) :
    ∃ row ∈ table.rows, row.id = id ∧ row.inUse = false := by
  unfold LibraryTable.findExpired at h
  split_ifs at h
  · cases h
  · rw [List.map_map] at h
    obtain ⟨row, hrow, rfl⟩ := List.mem_map.1 h
    obtain ⟨hrow, hold⟩ := List.mem_filter.1 hrow
    exact ⟨row, hrow, rfl, (of_decide_eq_true hold).2⟩

theorem nodup_findExpired (table : LibraryTable) (maxAgeSeconds : ℤ) (now : Time) :
    ((table.findExpired maxAgeSeconds now).map (·.id)).Nodup := by
  unfold LibraryTable.findExpired
  split_ifs
  · exact List.nodup_nil
  · rw [List.map_map]
    exact table.nodup.sublist (List.filter_sublist.map _)

/-- What one call may do: a request finds a row, the sweep makes its list or removes the first of it,
    or a row is marked. -/
theorem step_cases (maxAgeSeconds : ℤ) (s : Sweep) (call : Call) :
    (∃ requests, s.step maxAgeSeconds call = { s with requests } ∧ s.InTime call) ∨
      (∃ now, s.expired = [] ∧ s.InTime call ∧ s.step maxAgeSeconds call =
        { s with expired := (s.shelf.table.findExpired maxAgeSeconds now).map (·.id) }) ∨
      (∃ denied id expired, call = .remove denied ∧ s.expired = id :: expired ∧
        s.step maxAgeSeconds call = { s with shelf := s.shelf.remove denied id, expired }) ∨
      ∃ i now id, call = .markUsed i now ∧ s.requests[i]? = some id ∧ s.step maxAgeSeconds call =
        { s with
          shelf := { s.shelf with table := s.shelf.table.markUsed id now }
          requests := s.requests.eraseIdx i } := by
  cases call with
  | findExpired now =>
    by_cases hempty : s.expired = []
    · exact Or.inr (Or.inl ⟨now, hempty, trivial, if_pos hempty⟩)
    · exact Or.inl ⟨s.requests, if_neg hempty, trivial⟩
  | remove denied =>
    by_cases hempty : s.expired = []
    · have hsame : s.step maxAgeSeconds (.remove denied) = s := by simp only [step, hempty]
      exact Or.inl ⟨s.requests, hsame, trivial⟩
    · obtain ⟨id, expired, hlist⟩ := List.exists_cons_of_ne_nil hempty
      refine Or.inr (Or.inr (Or.inl ⟨denied, id, expired, rfl, hlist, ?_⟩))
      simp only [step, hlist]
  | getFilePath task filename tie =>
    unfold step
    dsimp only
    split_ifs
    · exact Or.inl ⟨s.requests, rfl, trivial⟩
    · split
      · exact Or.inl ⟨_, rfl, trivial⟩
      · exact Or.inl ⟨s.requests, rfl, trivial⟩
  | getFilesPaths id =>
    unfold step
    dsimp only
    split
    · split_ifs
      · exact Or.inl ⟨s.requests, rfl, trivial⟩
      · exact Or.inl ⟨_, rfl, trivial⟩
    · exact Or.inl ⟨s.requests, rfl, trivial⟩
  | markUsed i now =>
    rcases hreq : s.requests[i]? with _ | id
    · refine Or.inl ⟨s.requests, ?_, ?_⟩
      · simp only [step, hreq]
      · simp [InTime, hreq]
    · refine Or.inr (Or.inr (Or.inr ⟨i, now, id, rfl, hreq, ?_⟩))
      simp only [step, hreq]

theorem Listed.step {s : Sweep} (h : s.Listed) (maxAgeSeconds : ℤ) (call : Call) :
    (s.step maxAgeSeconds call).Listed := by
  rcases step_cases maxAgeSeconds s call with ⟨requests, heq, -⟩ | ⟨now, -, -, heq⟩ |
    ⟨denied, id, expired, -, hlist, heq⟩ | ⟨i, now, id, -, -, heq⟩
  · rw [heq]
    exact ⟨h.nodup, h.row⟩
  · rw [heq]
    refine ⟨nodup_findExpired _ _ _, ?_⟩
    intro id hid
    obtain ⟨row, hrow, hrowid, -⟩ := mem_findExpired hid
    exact ⟨row, hrow, hrowid⟩
  · rw [heq]
    have hnodup := h.nodup
    rw [hlist, List.nodup_cons] at hnodup
    refine ⟨hnodup.2, ?_⟩
    intro other hother
    obtain ⟨row, hrow, rfl⟩ := h.row other (hlist ▸ List.mem_cons_of_mem _ hother)
    refine ⟨row, (Shelf.mem_remove denied hrow).2 ?_, rfl⟩
    rintro rfl
    exact hnodup.1 hother
  · rw [heq]
    refine ⟨h.nodup, ?_⟩
    intro other hother
    obtain ⟨row, hrow, rfl⟩ := h.row other hother
    refine ⟨_, List.mem_map_of_mem hrow, ?_⟩
    split_ifs <;> rfl

theorem Unused.step {s : Sweep} (h : s.Unused) {maxAgeSeconds : ℤ} {call : Call} (htime : s.InTime call) :
    s.SparesUsed maxAgeSeconds call ∧ (s.step maxAgeSeconds call).Unused := by
  constructor
  · cases call with
    | remove denied =>
      intro row hrow hused
      rcases hlist : s.expired with _ | ⟨id, expired⟩
      · simp only [Sweep.step, hlist]
        exact ⟨hrow, fun hdisk => hdisk⟩
      · have hne : row.id ≠ id := by
          intro hid
          have hunused := h id (by rw [hlist]; exact List.mem_cons_self) row hrow hid
          exact absurd hused (by simp [hunused])
        simp only [Sweep.step, hlist]
        exact ⟨(Shelf.mem_remove denied hrow).2 hne, Shelf.mem_disk_remove denied hrow hne⟩
    | findExpired _ | getFilePath _ _ _ | getFilesPaths _ | markUsed _ _ => trivial
  · rcases step_cases maxAgeSeconds s call with ⟨requests, heq, -⟩ | ⟨now, -, -, heq⟩ |
      ⟨denied, id, expired, -, hlist, heq⟩ | ⟨i, now, id, rfl, hreq, heq⟩
    · rw [heq]
      exact h
    · rw [heq]
      intro id hid row hrow hrowid
      obtain ⟨old, hold, holdid, hunused⟩ := mem_findExpired hid
      obtain rfl := List.inj_on_of_nodup_map s.shelf.table.nodup hrow hold (hrowid.trans holdid.symm)
      exact hunused
    · rw [heq]
      intro other hother row hrow
      exact h other (hlist ▸ List.mem_cons_of_mem _ hother) row (Shelf.remove_subset denied s.shelf id row hrow)
    · rw [heq]
      intro other hother row hrow hid
      rcases LibraryTable.mem_markUsed hrow with ⟨hrow, -⟩ | ⟨old, hold, holdid, rfl⟩
      · exact h other hother row hrow hid
      · -- the marked row is not on the list
        obtain rfl : id = other := holdid.symm.trans hid
        exact absurd hother (htime id hreq)

theorem Listed.doomed {s : Sweep} (h : s.Listed) {maxAgeSeconds : ℤ} {call : Call} (hnot : ¬ s.InTime call) :
    (s.step maxAgeSeconds call).Doomed := by
  rcases step_cases maxAgeSeconds s call with ⟨requests, -, htime⟩ | ⟨now, -, htime, -⟩ |
    ⟨denied, id, expired, rfl, -, -⟩ | ⟨i, now, id, rfl, hreq, heq⟩
  · exact absurd htime hnot
  · exact absurd htime hnot
  · exact absurd trivial hnot
  · have hmem : id ∈ s.expired := by
      by_contra hout
      refine hnot fun other hother => ?_
      obtain rfl : id = other := Option.some.inj (hreq.symm.trans hother)
      exact hout
    obtain ⟨row, hrow, rfl⟩ := h.row id hmem
    rw [heq]
    exact ⟨_, List.mem_map.2 ⟨row, hrow, if_pos rfl⟩, hmem, rfl⟩

theorem Doomed.step {s : Sweep} (h : s.Doomed) {maxAgeSeconds : ℤ} {call : Call}
    (hspares : s.SparesUsed maxAgeSeconds call) : (s.step maxAgeSeconds call).Doomed := by
  obtain ⟨row, hrow, hmem, hused⟩ := h
  rcases step_cases maxAgeSeconds s call with ⟨requests, heq, -⟩ | ⟨now, hempty, -, -⟩ |
    ⟨denied, id, expired, rfl, hlist, heq⟩ | ⟨i, now, id, rfl, hreq, heq⟩
  · rw [heq]
    exact ⟨row, hrow, hmem, hused⟩
  · rw [hempty] at hmem
    cases hmem
  · have hleft := (hspares row hrow hused).1
    rw [heq] at hleft ⊢
    have hne := (Shelf.mem_remove denied hrow).1 hleft
    rw [hlist, List.mem_cons] at hmem
    exact ⟨row, hleft, hmem.resolve_left hne, hused⟩
  · rw [heq]
    refine ⟨_, List.mem_map_of_mem hrow, ?_⟩
    dsimp only
    split_ifs
    · exact ⟨hmem, rfl⟩
    · exact ⟨hmem, hused⟩

/-- **Songs in use.**  A sweep spares them where every request marks its song before the sweep finds
    it or after it is gone, and only there once the sweep has come to an end. -/
theorem spares_used_iff (maxAgeSeconds : ℤ) (shelf : Shelf) (run : List Call) :
    (Run.Each (step maxAgeSeconds) InTime { shelf } run →
        Run.Each (step maxAgeSeconds) (SparesUsed maxAgeSeconds) { shelf } run) ∧
      ((Run.exec (step maxAgeSeconds) { shelf } run).expired = [] →
        Run.Each (step maxAgeSeconds) (SparesUsed maxAgeSeconds) { shelf } run →
          Run.Each (step maxAgeSeconds) InTime { shelf } run) := by
  constructor
  · intro h
    exact h.imp (I := Unused) (fun _ _ hs htime => hs.step htime) nofun
  · intro hend hspares
    by_contra hnot
    obtain ⟨row, -, hmem, -⟩ := hspares.exec_of_not (I := Listed) (R := Doomed)
      (fun _ _ hs => hs.step maxAgeSeconds _) (fun _ _ hs _ hlate => hs.doomed hlate)
      (fun _ _ _ hspared hs => hs.step hspared) ⟨List.nodup_nil, nofun⟩ hnot
    rw [hend] at hmem
    cases hmem

instance decidableInTime (s : Sweep) : ∀ call, Decidable (s.InTime call)
  | .markUsed i _ => inferInstanceAs (Decidable (∀ id ∈ s.requests[i]?, id ∉ s.expired))
  | .findExpired _ | .getFilePath _ _ _ | .getFilesPaths _ | .remove _ => .isTrue trivial

/-- The library with one song, which nobody uses, and its file. -/
def oneSong : Shelf :=
  ⟨(LibraryTable.empty.save { filePath := lit "a.m4a", downloadedAt := 0, lastUsedAt := 0 }).2, {lit "a.m4a"}⟩

/-- The song is played before the sweep looks for it. -/
theorem oneSong_spared :
    Run.Each (step 600) (SparesUsed 600) { shelf := oneSong }
      [.getFilesPaths 1, .markUsed 0 (10 ^ 12), .findExpired (10 ^ 12), .remove ∅] :=
  (spares_used_iff 600 oneSong _).1 (by decide +kernel)

/-- An old song is played while the sweep is about to remove it. -/
def playedLate : List Call :=
  [.findExpired (10 ^ 12), .getFilesPaths 1, .markUsed 0 (10 ^ 12), .remove ∅]

theorem oneSong_lost : ¬ Run.Each (step 600) (SparesUsed 600) { shelf := oneSong } playedLate := by
  decide +kernel

end Sweep

end NarMusic

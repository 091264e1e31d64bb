/-
  Downloads that register their songs side by side.

  `executeDownload` looks its song up, and then updates the row it has found or saves a
  new one; other downloads may look and write in between, and no index of the table is
  unique.  The weight of a song is the number of its rows and of the downloads that
  have found none: no step takes from it (`weight_step`), and it passes one where a
  download looks a song up that another is about to save (`Alone`).  So there is one
  row for each song as long as no download does that, and two rows once one has and
  both have saved (`one_row_per_song`).
-/
import Mathlib.Data.Finset.Max
import NarMusic.Lib.Slots
import NarMusic.Download.Replace

namespace NarMusic

open Cxx

/-- The key of `findBySongArtistPlatformDelay`. -/
structure Song where
  songName : Str
  artist : Str
  platform : Str
  delayMs : ℤ
  deriving DecidableEq

namespace Song

def Named (song : Song) : Prop := song.songName ≠ [] ∧ song.artist ≠ []

instance (song : Song) : Decidable song.Named := inferInstanceAs (Decidable (_ ∧ _))

end Song

def LibraryRow.song (row : LibraryRow) : Song := ⟨row.songName, row.artist, row.platform, row.delayMs⟩

/-- The song of the row that an entry makes. -/
def MusicLibraryEntry.song (entry : MusicLibraryEntry) : Song :=
  ⟨cStr entry.songName, cStr entry.artist, cStr entry.platform, entry.delayMs⟩

namespace Download

open Slots

/-- Where a call of `executeDownload` stands after its download. -/
inductive Phase where
  | fetched
  /-- It has found no row, or has not looked for one. -/
  | absent
  | found (old : MusicLibraryEntry)
  /-- The file of the old row is gone. -/
  | cleared (old : MusicLibraryEntry)
  | ended

instance Phase.decidableAbsent : ∀ phase : Phase, Decidable (phase = .absent)
  | .absent => .isTrue rfl
  | .fetched | .found _ | .cleared _ | .ended => .isFalse nofun

instance Phase.decidableEnded : ∀ phase : Phase, Decidable (phase = .ended)
  | .ended => .isTrue rfl
  | .fetched | .found _ | .cleared _ | .absent => .isFalse nofun

instance Phase.decidableFetched : ∀ phase : Phase, Decidable (phase = .fetched)
  | .fetched => .isTrue rfl
  | .ended | .found _ | .cleared _ | .absent => .isFalse nofun

/-- A step of `executeDownload`, up to its next call of the repository. -/
inductive Move where
  | lookup (tie : ℕ)
  | clear (denied : Finset Str)
  | write

/-- A call of `executeDownload` that registers an entry. -/
structure Registration where
  entry : MusicLibraryEntry
  phase : Phase

/-- The shelf, and the calls that have been made. -/
structure Desk where
  shelf : Shelf := ⟨.empty, ∅⟩
  calls : List Registration := []

inductive Turn where
  /-- A download has ended, of the file `filePath`. -/
  | fetch (req : CreateTaskRequest) (filePath : Str) (x : Execution)
  | move (i : ℕ) (act : Move)

/-- A step of a call that registers `entry`. -/
def registerStep (shelf : Shelf) (entry : MusicLibraryEntry) : Phase → Move → Option (Phase × Shelf)
  | .fetched, .lookup tie =>
    match existing shelf.table entry tie with
    | some old => some (.found old, shelf)
    | none => some (.absent, shelf)
  | .found old, .clear denied =>
    some (.cleared old,
      { shelf with
        disk :=
          if old.filePath ≠ [] ∧ old.filePath ≠ entry.filePath then
            removeFile denied shelf.disk old.filePath
          else shelf.disk })
  | .cleared old, .write =>
    some (if old.id = 0 then .absent else .ended,
      { shelf with table := shelf.table.update { entry with id := old.id } })
  | .absent, .write => some (.ended, { shelf with table := (shelf.table.save entry).2 })
  | _, _ => none

/-- The pool has five threads. -/
def Desk.step (s : Desk) : Turn → Desk
  | .fetch req filePath x =>
    if s.calls.countP (·.phase ≠ .ended) < 5 then
      { s with calls := s.calls ++ [⟨newEntry req filePath x, .fetched⟩] }
    else s
  | .move i act =>
    match s.calls[i]? with
    | some call =>
      match registerStep s.shelf call.entry call.phase act with
      | some (phase, shelf) => { shelf, calls := s.calls.set i { call with phase } }
      | none => s
    | none => s

/-- At most one row for each song with a name and an artist. -/
def OneRowPerSong (table : LibraryTable) : Prop :=
  ∀ row ∈ table.rows, row.song.Named → table.rows.countP (·.song = row.song) ≤ 1

instance (table : LibraryTable) : Decidable (OneRowPerSong table) :=
  inferInstanceAs (Decidable (∀ row ∈ table.rows, _ → _))

/-- The call has found no row of the song, and not yet saved one. -/
def Registration.Awaits (song : Song) (call : Registration) : Prop :=
  call.phase = .absent ∧ call.entry.song = song

instance (song : Song) (call : Registration) : Decidable (call.Awaits song) :=
  inferInstanceAs (Decidable (_ ∧ _))

/-- A song is looked up while no other call is about to save it. -/
def Desk.Alone (s : Desk) : Turn → Prop
  | .move i (.lookup _) => ∀ call ∈ s.calls[i]?, call.phase = .fetched → call.entry.song.Named →
      ∀ other ∈ s.calls, ¬ other.Awaits call.entry.song
  | _ => True

instance Desk.decidableAlone (s : Desk) : ∀ turn, Decidable (s.Alone turn)
  | .move i (.lookup _) =>
    inferInstanceAs (Decidable (∀ call ∈ s.calls[i]?, call.phase = .fetched → call.entry.song.Named →
      ∀ other ∈ s.calls, ¬ other.Awaits call.entry.song))
  | .fetch _ _ _ | .move _ (.clear _) | .move _ .write => .isTrue trivial

/-! ## One call by itself -/

/-- The phase and the shelf after some steps; a step that is not due is passed over. -/
def registerSteps (entry : MusicLibraryEntry) : Phase × Shelf → List Move → Phase × Shelf
  | at_, [] => at_
  | at_, act :: acts => registerSteps entry ((registerStep at_.2 entry at_.1 act).getD at_) acts

/-- Without another call in between, the steps do what `register` does. -/
theorem registerSteps_eq (x : Execution) (shelf : Shelf) (entry : MusicLibraryEntry) :
    registerSteps entry (.fetched, shelf) [.lookup x.tie, .clear x.denied, .write, .write] =
      (.ended, register x shelf entry) := by
  unfold register
  rcases hold : existing shelf.table entry x.tie with _ | old
  · simp [registerSteps, registerStep, hold]
  · by_cases hzero : old.id = 0
    · simp [registerSteps, registerStep, hold, replaceEntry, hzero]
    · simp [registerSteps, registerStep, hold, replaceEntry, hzero]

/-! ## Looking a song up -/

/-- What is found is a row of the song. -/
theorem mem_of_existing {table : LibraryTable} {entry old : MusicLibraryEntry} {tie : ℕ}
    (h : existing table entry tie = some old) :
    ∃ row ∈ table.rows, row.id = old.id ∧ row.song = entry.song := by
  unfold existing LibraryTable.findBySongArtistPlatformDelay at h
  split_ifs at h
  obtain ⟨row, hrow, rfl⟩ := Option.map_eq_some_iff.1 h
  obtain ⟨hrow, hsong⟩ := List.mem_filter.1 (List.mem_filter.1 (List.mem_of_getElem? hrow)).1
  obtain ⟨hname, hartist, hplatform, hdelay⟩ := of_decide_eq_true hsong
  refine ⟨row, hrow, rfl, ?_⟩
  unfold LibraryRow.song MusicLibraryEntry.song
  rw [hname, hartist, hplatform, hdelay]

/-- Of some rows, one was downloaded last. -/
theorem exists_latest {rows : List LibraryRow} (h : rows ≠ []) :
    ∃ row ∈ rows, ∀ other ∈ rows, other.downloadedAt ≤ row.downloadedAt := by
  have hne : rows.toFinset.Nonempty := by
    rw [List.toFinset_nonempty_iff]
    exact h
  obtain ⟨row, hrow, hmax⟩ := Finset.exists_max_image rows.toFinset LibraryRow.downloadedAt hne
  exact ⟨row, List.mem_toFinset.1 hrow, fun other hother => hmax other (List.mem_toFinset.2 hother)⟩

/-- Where nothing is found for a named song there is no row of it. -/
theorem countP_of_existing_eq_none {table : LibraryTable} {entry : MusicLibraryEntry} {tie : ℕ}
    (h : existing table entry tie = none) (hnamed : entry.song.Named) :
    table.rows.countP (·.song = entry.song) = 0 := by
  rw [List.countP_eq_zero]
  intro row hrow hsong
  have hnames : entry.songName ≠ [] ∧ entry.artist ≠ [] := by
    constructor
    · intro hempty
      exact hnamed.1 (by simp [MusicLibraryEntry.song, hempty, cStr])
    · intro hempty
      exact hnamed.2 (by simp [MusicLibraryEntry.song, hempty, cStr])
  unfold existing LibraryTable.findBySongArtistPlatformDelay at h
  rw [if_pos hnames] at h
  obtain ⟨hname, hartist, hplatform, hdelay⟩ := Song.mk.inj (of_decide_eq_true hsong)
  -- the rows of the song are not empty, so one of them is the latest
  have hne : (table.rows.filter fun row =>
      row.songName = cStr entry.songName ∧ row.artist = cStr entry.artist ∧
        row.platform = cStr entry.platform ∧ row.delayMs = entry.delayMs) ≠ [] :=
    List.ne_nil_of_mem (List.mem_filter.2 ⟨hrow, decide_eq_true ⟨hname, hartist, hplatform, hdelay⟩⟩)
  obtain ⟨last, hlast, hmax⟩ := exists_latest hne
  have hmem : last ∈ table.latest entry.songName entry.artist entry.platform entry.delayMs :=
    List.mem_filter.2 ⟨hlast, decide_eq_true hmax⟩
  have hlen := List.length_pos_of_mem hmem
  rw [Option.map_eq_none_iff, List.getElem?_eq_none_iff] at h
  exact absurd h (not_le.2 (Nat.mod_lt _ hlen))

/-! ## The weight of a song -/

def Desk.weight (s : Desk) (song : Song) : ℕ :=
  s.shelf.table.rows.countP (·.song = song) + s.calls.countP (·.Awaits song)

/-- The id of the row that a call is about to update. -/
def Phase.target? : Phase → Option ℤ
  | .found old | .cleared old => some old.id
  | _ => none

/-- Ids are positive, and a row that is about to be updated has the song of the entry. -/
structure Desk.Tracked (s : Desk) : Prop where
  nonneg : 0 ≤ s.shelf.table.seq
  pos : ∀ row ∈ s.shelf.table.rows, 0 < row.id
  target : ∀ call ∈ s.calls, ∀ id ∈ call.phase.target?, 0 < id ∧ id ≤ s.shelf.table.seq ∧
    ∀ row ∈ s.shelf.table.rows, row.id = id → row.song = call.entry.song

/-- What a step of a call does to the rows: it leaves them, updates one of its own song or saves
    one. -/
inductive Registered (table : LibraryTable) (entry : MusicLibraryEntry) :
    Phase → Phase → LibraryTable → Prop
  | found {old} : (∃ row ∈ table.rows, row.id = old.id ∧ row.song = entry.song) →
      Registered table entry .fetched (.found old) table
  | absent : (entry.song.Named → table.rows.countP (·.song = entry.song) = 0) →
      Registered table entry .fetched .absent table
  | cleared {old} : Registered table entry (.found old) (.cleared old) table
  | updated {old} : Registered table entry (.cleared old) (if old.id = 0 then .absent else .ended)
      (table.update { entry with id := old.id })
  | saved : Registered table entry .absent .ended (table.save entry).2

theorem registerStep_registered {shelf shelf' : Shelf} {entry : MusicLibraryEntry} {phase phase' : Phase}
    {act : Move} (h : registerStep shelf entry phase act = some (phase', shelf')) :
    Registered shelf.table entry phase phase' shelf'.table := by
  unfold registerStep at h
  split at h
  · split at h
    · next old hold =>
      obtain ⟨rfl, rfl⟩ := Prod.mk.inj (Option.some.inj h)
      exact .found (mem_of_existing hold)
    · next hnone =>
      obtain ⟨rfl, rfl⟩ := Prod.mk.inj (Option.some.inj h)
      exact .absent (countP_of_existing_eq_none hnone)
  · obtain ⟨rfl, rfl⟩ := Prod.mk.inj (Option.some.inj h)
    exact .cleared
  · obtain ⟨rfl, rfl⟩ := Prod.mk.inj (Option.some.inj h)
    exact .updated
  · obtain ⟨rfl, rfl⟩ := Prod.mk.inj (Option.some.inj h)
    exact .saved
  · cases h

/-- An update of a row of the song leaves the songs of the rows. -/
theorem song_update {table : LibraryTable} {entry : MusicLibraryEntry} {id : ℤ}
    (h : ∀ row ∈ table.rows, row.id = id → row.song = entry.song) :
    (table.update { entry with id }).rows.map LibraryRow.song = table.rows.map LibraryRow.song := by
  simp only [LibraryTable.update, List.map_map]
  refine List.map_congr_left fun row hrow => ?_
  rw [Function.comp]
  split_ifs with hid
  · exact (h row hrow hid).symm
  · rfl

theorem countP_song (rows : List LibraryRow) (song : Song) :
    rows.countP (·.song = song) = (rows.map LibraryRow.song).countP (· = song) := by
  rw [List.countP_map]
  rfl

/-- The other calls keep their targets where every row of an id that was given out had its song
    before. -/
theorem Desk.Tracked.kept {s : Desk} (h : s.Tracked) {i : ℕ} {entry : MusicLibraryEntry} {phase : Phase}
    {shelf : Shelf} {table : LibraryTable} (htable : shelf.table = table)
    (hrows : ∀ row ∈ table.rows, row.id ≤ s.shelf.table.seq →
      ∃ row' ∈ s.shelf.table.rows, row'.id = row.id ∧ row'.song = row.song)
    (hseq : s.shelf.table.seq ≤ table.seq) (hpos : ∀ row ∈ table.rows, 0 < row.id)
    (hown : ∀ id ∈ phase.target?,
      0 < id ∧ id ≤ table.seq ∧ ∀ row ∈ table.rows, row.id = id → row.song = entry.song) :
    (⟨shelf, s.calls.set i ⟨entry, phase⟩⟩ : Desk).Tracked := by
  subst htable
  refine ⟨h.nonneg.trans hseq, hpos, ?_⟩
  intro other hother id hid
  rcases mem_set_cases hother with rfl | ⟨j, -, hj⟩
  · exact hown id hid
  · obtain ⟨hidpos, hidle, hsongs⟩ := h.target other (List.mem_of_getElem? hj) id hid
    refine ⟨hidpos, hidle.trans hseq, ?_⟩
    rintro row hrow rfl
    obtain ⟨row', hrow', hid', hsong⟩ := hrows row hrow hidle
    exact hsong.symm.trans (hsongs row' hrow' hid')

/-- What a call does to the rows keeps the rows that the others are about to update. -/
theorem Desk.Tracked.registered {s : Desk} (h : s.Tracked) {i : ℕ} {call : Registration}
    (hi : s.calls[i]? = some call) {phase : Phase} {shelf : Shelf}
    (hreg : Registered s.shelf.table call.entry call.phase phase shelf.table) :
    (⟨shelf, s.calls.set i { call with phase }⟩ : Desk).Tracked := by
  have hcall := h.target call (List.mem_of_getElem? hi)
  obtain ⟨entry, old⟩ := call
  generalize htable : shelf.table = table at hreg
  dsimp only at hreg hcall
  have hsame : ∀ row ∈ s.shelf.table.rows, row.id ≤ s.shelf.table.seq →
      ∃ row' ∈ s.shelf.table.rows, row'.id = row.id ∧ row'.song = row.song :=
    fun row hrow _ => ⟨row, hrow, rfl, rfl⟩
  cases hreg with
  | @found found hfound =>
    refine h.kept htable hsame le_rfl h.pos ?_
    intro id hid
    obtain rfl := Option.some.inj hid
    obtain ⟨row, hrow, hrowid, hsong⟩ := hfound
    rw [← hrowid]
    refine ⟨h.pos row hrow, s.shelf.table.le_seq row hrow, ?_⟩
    intro row' hrow' hid'
    obtain rfl := List.inj_on_of_nodup_map s.shelf.table.nodup hrow' hrow hid'
    exact hsong
  | absent _ => exact h.kept htable hsame le_rfl h.pos nofun
  | cleared => exact h.kept htable hsame le_rfl h.pos hcall
  | @updated found =>
    obtain ⟨hidpos, hidle, hsongs⟩ := hcall found.id rfl
    refine h.kept htable ?_ le_rfl ?_ ?_
    · intro row hrow _
      obtain ⟨old, hold, rfl⟩ := List.mem_map.1 hrow
      refine ⟨old, hold, ?_⟩
      split_ifs with hid
      · exact ⟨hid, hsongs old hold hid⟩
      · exact ⟨rfl, rfl⟩
    · intro row hrow
      rcases LibraryTable.mem_update hrow with ⟨hrow, -⟩ | rfl
      · exact h.pos row hrow
      · exact hidpos
    · rw [if_neg (by omega)]
      nofun
  | saved =>
    refine h.kept htable ?_ ?_ ?_ nofun
    · intro row hrow hle
      rcases mem_append_cases hrow with hrow | rfl
      · exact ⟨row, hrow, rfl, rfl⟩
      · have hnew : s.shelf.table.seq + 1 ≤ s.shelf.table.seq := hle
        omega
    · show s.shelf.table.seq ≤ s.shelf.table.seq + 1
      omega
    · intro row hrow
      rcases mem_append_cases hrow with hrow | rfl
      · exact h.pos row hrow
      · have := h.nonneg
        show 0 < s.shelf.table.seq + 1
        omega

theorem Desk.Tracked.step {s : Desk} (h : s.Tracked) (turn : Turn) : (s.step turn).Tracked := by
  cases turn with
  | fetch req filePath x =>
    unfold Desk.step
    dsimp only
    split_ifs
    · refine ⟨h.nonneg, h.pos, ?_⟩
      intro call hcall
      rcases mem_append_cases hcall with hcall | rfl
      · exact h.target call hcall
      · nofun
    · exact h
  | move i act =>
    unfold Desk.step
    dsimp only
    split
    · next call hi =>
      split
      · next phase shelf hstep => exact h.registered hi (registerStep_registered hstep)
      · exact h
    · exact h

theorem countP_awaits {calls : List Registration} {i : ℕ} {call : Registration} (hi : calls[i]? = some call)
    (phase : Phase) (song : Song) :
    (calls.set i { call with phase }).countP (·.Awaits song) +
        (if call.phase = .absent ∧ call.entry.song = song then 1 else 0) =
      calls.countP (·.Awaits song) + if phase = .absent ∧ call.entry.song = song then 1 else 0 := by
  have hcount := countP_set (a := { call with phase }) (fun call => decide (call.Awaits song)) hi
  simp only [decide_eq_true_eq] at hcount
  exact hcount

/-- A step of a call leaves the weight of a song, or adds the call that has found no row of it. -/
theorem Desk.Tracked.weight_registered {s : Desk} (h : s.Tracked) {i : ℕ} {call : Registration}
    (hi : s.calls[i]? = some call) {phase : Phase} {shelf : Shelf}
    (hreg : Registered s.shelf.table call.entry call.phase phase shelf.table) (song : Song) :
    (⟨shelf, s.calls.set i { call with phase }⟩ : Desk).weight song =
      s.weight song + if call.phase = .fetched ∧ phase = .absent ∧ call.entry.song = song then 1 else 0 := by
  have hcall := h.target call (List.mem_of_getElem? hi)
  have hcount := countP_awaits hi phase song
  unfold Desk.weight
  dsimp only
  obtain ⟨entry, old⟩ := call
  generalize htable : shelf.table = table at hreg ⊢
  dsimp only at hreg hcall hcount ⊢
  cases hreg with
  | found _ =>
    simp at hcount ⊢
    omega
  | absent _ =>
    simp at hcount ⊢
    omega
  | cleared =>
    simp at hcount ⊢
    omega
  | @updated found =>
    obtain ⟨hidpos, -, hsongs⟩ := hcall found.id rfl
    have hne : found.id ≠ 0 := by omega
    rw [countP_song, song_update hsongs, ← countP_song]
    simp [hne] at hcount ⊢
    omega
  | saved =>
    have hsaved : (s.shelf.table.save entry).2.rows.countP (·.song = song) =
        s.shelf.table.rows.countP (·.song = song) + if entry.song = song then 1 else 0 := by
      simp only [LibraryTable.save, List.countP_append, List.countP_singleton, decide_eq_true_eq]
      rfl
    rw [hsaved]
    simp at hcount ⊢
    omega

theorem Desk.weight_fetch (s : Desk) (req : CreateTaskRequest) (filePath : Str) (x : Execution) (song : Song) :
    (s.step (.fetch req filePath x)).weight song = s.weight song := by
  unfold Desk.step Desk.weight
  dsimp only
  split_ifs
  · have hnew : ¬ (⟨newEntry req filePath x, .fetched⟩ : Registration).Awaits song := fun h => nomatch h.1
    simp [List.countP_append, hnew]
  · rfl

/-- No step takes from the weight of a song. -/
theorem Desk.Tracked.weight_step {s : Desk} (h : s.Tracked) (turn : Turn) (song : Song) :
    s.weight song ≤ (s.step turn).weight song := by
  cases turn with
  | fetch req filePath x => rw [Desk.weight_fetch]
  | move i act =>
    unfold Desk.step
    dsimp only
    split
    · next call hi =>
      split
      · next phase shelf hstep =>
        rw [h.weight_registered hi (registerStep_registered hstep)]
        exact Nat.le_add_right _ _
      · exact le_rfl
    · exact le_rfl

/-- A call that looks its song up alone is the first. -/
theorem Desk.Tracked.weight_alone {s : Desk} (h : s.Tracked) {turn : Turn} (halone : s.Alone turn)
    (hone : ∀ song : Song, song.Named → s.weight song ≤ 1) :
    ∀ song : Song, song.Named → (s.step turn).weight song ≤ 1 := by
  intro song hnamed
  cases turn with
  | fetch req filePath x =>
    rw [Desk.weight_fetch]
    exact hone song hnamed
  | move i act =>
    unfold Desk.step
    dsimp only
    split
    · next call hi =>
      split
      · next phase shelf hstep =>
        have hreg := registerStep_registered hstep
        rw [h.weight_registered hi hreg]
        split_ifs with hnew
        · obtain ⟨hfetched, rfl, rfl⟩ := hnew
          rw [hfetched] at hreg hstep
          -- only a lookup leaves the phase, and it has found no row
          have hrows : s.shelf.table.rows.countP (·.song = call.entry.song) = 0 := by
            generalize shelf.table = table at hreg
            cases hreg with
            | absent hnone => exact hnone hnamed
          have hcalls : s.calls.countP (·.Awaits call.entry.song) = 0 := by
            rw [List.countP_eq_zero]
            intro other hother hawaits
            cases act with
            | lookup tie => exact halone call hi hfetched hnamed other hother (of_decide_eq_true hawaits)
            | clear _ | write => cases hstep
          unfold Desk.weight
          omega
        · exact hone song hnamed
      · exact hone song hnamed
    · exact hone song hnamed

/-- A call that looks its song up while another is about to save it makes two. -/
theorem Desk.Tracked.weight_not_alone {s : Desk} (h : s.Tracked) {turn : Turn} (hnot : ¬ s.Alone turn) :
    ∃ song : Song, song.Named ∧ 2 ≤ (s.step turn).weight song := by
  cases turn with
  | fetch _ _ _ => exact absurd trivial hnot
  | move i act =>
    cases act with
    | clear _ | write => exact absurd trivial hnot
    | lookup tie =>
      simp only [Desk.Alone, not_forall, not_not] at hnot
      obtain ⟨call, hi, hfetched, hnamed, other, hother, hawaits⟩ := hnot
      refine ⟨call.entry.song, hnamed, ?_⟩
      have hcalls : 0 < s.calls.countP (·.Awaits call.entry.song) :=
        List.countP_pos_iff.2 ⟨other, hother, decide_eq_true hawaits⟩
      have hstep := h.weight_step (.move i (.lookup tie)) call.entry.song
      rcases hold : existing s.shelf.table call.entry tie with _ | old
      · have hlookup : registerStep s.shelf call.entry call.phase (.lookup tie) = some (.absent, s.shelf) := by
          rw [hfetched]
          simp only [registerStep, hold]
        have hafter : s.step (.move i (.lookup tie)) =
            ⟨s.shelf, s.calls.set i { call with phase := .absent }⟩ := by
          rw [Option.mem_def] at hi
          simp only [Desk.step, hi, hlookup]
        rw [hafter, h.weight_registered hi (registerStep_registered hlookup), if_pos ⟨hfetched, rfl, rfl⟩]
        unfold Desk.weight
        omega
      · obtain ⟨row, hrow, -, hsong⟩ := mem_of_existing hold
        have hrows : 0 < s.shelf.table.rows.countP (·.song = call.entry.song) :=
          List.countP_pos_iff.2 ⟨row, hrow, decide_eq_true hsong⟩
        unfold Desk.weight at hstep ⊢
        omega

/-! ## Runs -/

theorem oneRow_of_weight {s : Desk} (h : ∀ song : Song, song.Named → s.weight song ≤ 1) :
    OneRowPerSong s.shelf.table := fun row _ hnamed =>
  (Nat.le_add_right _ _).trans (h row.song hnamed)

theorem weight_of_oneRow {s : Desk} (h : OneRowPerSong s.shelf.table)
    (hnone : ∀ call ∈ s.calls, call.phase ≠ .absent) {song : Song} (hnamed : song.Named) :
    s.weight song ≤ 1 := by
  have hcalls : s.calls.countP (·.Awaits song) = 0 := by
    rw [List.countP_eq_zero]
    intro call hcall hawaits
    exact hnone call hcall (of_decide_eq_true hawaits).1
  unfold Desk.weight
  rw [hcalls]
  rcases Nat.eq_zero_or_pos (s.shelf.table.rows.countP (·.song = song)) with hzero | hpos
  · omega
  · obtain ⟨row, hrow, hsong⟩ := List.countP_pos_iff.1 hpos
    obtain rfl := of_decide_eq_true hsong
    exact h row hrow hnamed

theorem Desk.start_tracked : ({} : Desk).Tracked := by
  refine ⟨le_rfl, ?_, ?_⟩ <;> simp [LibraryTable.empty]

/-- **One row for each song.**  The library of a run has one row for each song after each step when
    every call looks its song up alone, and only then once no call is left that is about to save. -/
theorem one_row_per_song (run : List Turn) :
    (Run.Each Desk.step Desk.Alone {} run →
        Run.Each Desk.step (fun s turn => OneRowPerSong (s.step turn).shelf.table) {} run) ∧
      ((∀ call ∈ (Run.exec Desk.step {} run).calls, call.phase ≠ .absent) →
        OneRowPerSong (Run.exec Desk.step {} run).shelf.table → Run.Each Desk.step Desk.Alone {} run) := by
  constructor
  · intro h
    refine h.imp (I := fun s => s.Tracked ∧ ∀ song : Song, song.Named → s.weight song ≤ 1) ?_
      ⟨Desk.start_tracked, ?_⟩
    · rintro s turn ⟨hs, hone⟩ halone
      have hone' := hs.weight_alone halone hone
      exact ⟨oneRow_of_weight hone', hs.step turn, hone'⟩
    · intro song _
      exact Nat.zero_le 1
  · intro hnone hrows
    by_contra hnot
    obtain ⟨song, hnamed, htwo⟩ := (Run.Each.of_forall (fun _ _ => trivial) {} run).exec_of_not
      (Q := fun _ _ => True) (I := Desk.Tracked) (R := fun s => ∃ song : Song, song.Named ∧ 2 ≤ s.weight song)
      (fun s turn hs => hs.step turn) (fun s turn hs _ => hs.weight_not_alone)
      (fun s turn hs _ ⟨song, hnamed, htwo⟩ => ⟨song, hnamed, htwo.trans (hs.weight_step turn song)⟩)
      Desk.start_tracked hnot
    have := weight_of_oneRow hrows hnone hnamed
    omega

/-- Two items of a batch with the same song, which both look it up before either saves it. -/
def sameSong : List Turn :=
  let req : CreateTaskRequest := ⟨lit "url", lit "song", lit "a", 0⟩
  [.fetch req (lit "./download/song_1.m4a") recognised, .fetch req (lit "./download/song_2.m4a") recognised,
    .move 0 (.lookup 0), .move 1 (.lookup 0), .move 0 .write, .move 1 .write]

/-- One after the other, the second download updates the row of the first. -/
theorem sameSong_once :
    let run := sameSong.take 3 ++ [.move 0 .write, .move 1 (.lookup 0), .move 1 (.clear ∅), .move 1 .write]
    Run.Each Desk.step (fun s turn => OneRowPerSong (s.step turn).shelf.table) {} run :=
  (one_row_per_song _).1 (by decide +kernel)

theorem sameSong_twice :
    ¬ Run.Each Desk.step (fun s turn => OneRowPerSong (s.step turn).shelf.table) {} sameSong := by
  decide +kernel

end Download

end NarMusic

/-
  The names of the songs in an archive (`LibraryController::batchDownload`).

  A name that an earlier entry has gets a number, before its last dot.  The numbered
  name may be in use as well, by a song that has it as its own name, so the loop tries
  the numbers from one on; `counter` is an `int`, and it stays below the number of the
  entries.
-/
import NarMusic.Lib.Fresh
import NarMusic.Download.Library
import NarMusic.Zip.Writer

namespace NarMusic.BatchDownload

open Cxx Zip FirstFresh

/-- `displayName`, before the extension is looked for. -/
def shownName (entry : MusicLibraryEntry) : Str :=
  if entry.originalFilename ≠ [] then entry.originalFilename
  else if entry.songName ≠ [] then entry.songName
  else entry.systemFilename

/-- The name of a song in an archive. -/
def displayName (entry : MusicLibraryEntry) : Str :=
  if (shownName entry).contains 46 then shownName entry else shownName entry ++ lit ".m4a"

/-- `LibraryService::getFilesPaths`; each id comes with the clock that `markUsed` reads. -/
def getFilesPaths : List (ℤ × Time) → LibraryTable → List (Str × Str) × LibraryTable
  | [], table => ([], table)
  | (id, now) :: ids, table =>
    match table.findById id with
    | none => getFilesPaths ids table
    | some entry =>
      if entry.filePath = [] then getFilesPaths ids table
      else
        let (result, table) := getFilesPaths ids (table.markUsed id now)
        ((displayName entry, entry.filePath) :: result, table)

/-- `s.rfind(c)` -/
def rfind (c : Byte) : Str → Option ℕ
  | [] => none
  | d :: s =>
    match rfind c s with
    | some i => some (i + 1)
    | none => if d = c then some 0 else none

/-- The name with a number. -/
def numbered (name : Str) (counter : ℕ) : Str :=
  match rfind 46 name with
  | some dotPos => name.take dotPos ++ lit " (" ++ dec counter ++ lit ")" ++ name.drop dotPos
  | none => name ++ lit " (" ++ dec counter ++ lit ")"

/-- The loop over the numbers. -/
def uniqueLoop (usedNames : Finset Str) (name : Str) : ℕ → Str → ℕ → Option (Str × ℕ)
  | 0, _, _ => none
  | fuel + 1, uniqueName, counter =>
    if uniqueName ∈ usedNames then uniqueLoop usedNames name fuel (numbered name counter) (counter + 1)
    else some (uniqueName, counter)

/-- `entries`, from the names and paths of the songs. -/
def zipEntries (fuel : ℕ) : List (Str × Str) → Finset Str → Option (List ZipEntry)
  | [], _ => some []
  | (name, path) :: filesPaths, usedNames => do
    let (uniqueName, _) ← uniqueLoop usedNames name fuel name 1
    return ⟨uniqueName, path⟩ :: (← zipEntries fuel filesPaths (insert uniqueName usedNames))

/-- The part of a name from its last dot on. -/
def extension (name : Str) : Str :=
  match rfind 46 name with
  | some dotPos => name.drop dotPos
  | none => []

/-! ## The last dot -/

theorem rfind_none {c : Byte} {s : Str} (h : c ∉ s) : rfind c s = none := by
  induction s with
  | nil => rfl
  | cons d s ih =>
    rw [List.mem_cons, not_or] at h
    rw [rfind, ih h.2]
    exact if_neg (Ne.symm h.1)

theorem rfind_append {c : Byte} (a : Str) {t : Str} (h : c ∉ t) : rfind c (a ++ c :: t) = some a.length := by
  induction a with
  | nil => rw [List.nil_append, rfind, rfind_none h]; exact if_pos rfl
  | cons d a ih => rw [List.cons_append, rfind, ih, List.length_cons]

/-- A name without a dot, or one split at its last dot. -/
theorem name_cases (name : Str) : 46 ∉ name ∨ ∃ stem ext, 46 ∉ ext ∧ name = stem ++ 46 :: ext := by
  by_cases h : 46 ∈ name
  · obtain ⟨ext, stem, hsplit, hext⟩ := List.eq_append_cons_of_mem (List.mem_reverse.2 h)
    refine Or.inr ⟨stem.reverse, ext.reverse, by simpa using hext, ?_⟩
    simpa using congrArg List.reverse hsplit
  · exact Or.inl h

theorem numbered_plain {name : Str} (h : 46 ∉ name) (k : ℕ) :
    numbered name k = name ++ lit " (" ++ dec k ++ lit ")" := by
  rw [numbered, rfind_none h]

theorem numbered_split (stem : Str) {ext : Str} (h : 46 ∉ ext) (k : ℕ) :
    numbered (stem ++ 46 :: ext) k = stem ++ lit " (" ++ dec k ++ lit ")" ++ 46 :: ext := by
  rw [numbered, rfind_append stem h]
  dsimp only
  rw [List.take_left' rfl, List.drop_left' rfl]

theorem extension_split (stem : Str) {ext : Str} (h : 46 ∉ ext) : extension (stem ++ 46 :: ext) = 46 :: ext := by
  rw [extension, rfind_append stem h]
  exact List.drop_left' rfl

/-- A number leaves the extension. -/
theorem extension_numbered (name : Str) (k : ℕ) : extension (numbered name k) = extension name := by
  rcases name_cases name with h | ⟨stem, ext, h, rfl⟩
  · have hdigits : (46 : Byte) ∉ dec k := fun hmem => absurd (isdigit_dec k 46 hmem) (by decide)
    have hparts : (46 : Byte) ∉ lit " (" ∧ (46 : Byte) ∉ lit ")" := by decide +kernel
    have hplain : 46 ∉ name ++ lit " (" ++ dec k ++ lit ")" := by
      simp only [List.mem_append, not_or]
      exact ⟨⟨⟨h, hparts.1⟩, hdigits⟩, hparts.2⟩
    rw [numbered_plain h, extension, extension, rfind_none h, rfind_none hplain]
  · rw [numbered_split stem h, extension_split _ h, extension_split stem h]

theorem mem_displayName (entry : MusicLibraryEntry) : 46 ∈ displayName entry := by
  have hdot : (46 : Byte) ∈ lit ".m4a" := by decide +kernel
  unfold displayName
  split_ifs with h
  · exact List.contains_iff_mem.1 h
  · exact List.mem_append_right _ hdot

/-- Every song comes with a path, under a name that has an extension. -/
theorem getFilesPaths_named (ids : List (ℤ × Time)) (table : LibraryTable) :
    ∀ file ∈ (getFilesPaths ids table).1, extension file.1 ≠ [] ∧ file.2 ≠ [] := by
  induction ids generalizing table with
  | nil => exact fun _ h => absurd h List.not_mem_nil
  | cons id ids ih =>
    intro file hfile
    rw [getFilesPaths] at hfile
    split at hfile
    · exact ih table file hfile
    · next entry hfind =>
      split_ifs at hfile with hpath
      · exact ih table file hfile
      · rcases List.mem_cons.1 hfile with rfl | hfile
        · refine ⟨?_, hpath⟩
          rcases name_cases (displayName entry) with h | ⟨stem, ext, h, heq⟩
          · exact absurd (mem_displayName entry) h
          · dsimp only
            rw [heq, extension_split stem h]
            exact List.cons_ne_nil _ _
        · exact ih _ file hfile

/-! ## The candidates -/

/-- The names the loop tries. -/
def candidate (name : Str) : ℕ → Str
  | 0 => name
  | k + 1 => numbered name (k + 1)

theorem numbered_injective (name : Str) : Function.Injective (numbered name) := by
  intro k k' heq
  rcases name_cases name with h | ⟨stem, ext, h, rfl⟩
  · rw [numbered_plain h, numbered_plain h] at heq
    exact dec_injective (List.append_cancel_left (List.append_cancel_right heq))
  · rw [numbered_split stem h, numbered_split stem h] at heq
    exact dec_injective (List.append_cancel_left (List.append_cancel_right (List.append_cancel_right heq)))

theorem length_numbered (name : Str) (k : ℕ) : name.length < (numbered name k).length := by
  have hclose : (lit ")").length = 1 := by decide +kernel
  rcases name_cases name with h | ⟨stem, ext, h, rfl⟩
  · rw [numbered_plain h]
    simp only [List.length_append]
    omega
  · rw [numbered_split stem h]
    simp only [List.length_append]
    omega

theorem candidate_injective (name : Str) : Function.Injective (candidate name) := by
  intro k k' heq
  cases k with
  | zero =>
    cases k' with
    | zero => rfl
    | succ k' => exact absurd (congrArg List.length heq) (length_numbered name (k' + 1)).ne
  | succ k =>
    cases k' with
    | zero => exact absurd (congrArg List.length heq) (length_numbered name (k + 1)).ne'
    | succ k' => exact numbered_injective name heq

theorem uniqueLoop_eq (usedNames : Finset Str) (name : Str) (fuel k : ℕ) :
    uniqueLoop usedNames name fuel (candidate name k) (k + 1) =
      (firstFresh (candidate name) usedNames fuel k).map fun j => (candidate name j, j + 1) := by
  induction fuel generalizing k with
  | zero => rfl
  | succ fuel ih =>
    rw [uniqueLoop, firstFresh]
    split_ifs
    · exact ih (k + 1)
    · rfl

/-- What the loop makes of a name. -/
structure Named (usedNames : Finset Str) (name uniqueName : Str) : Prop where
  fresh : uniqueName ∉ usedNames
  kept : name ∉ usedNames → uniqueName = name
  renamed : uniqueName ≠ name →
    ∃ k, 0 < k ∧ k ≤ usedNames.card ∧ uniqueName = numbered name k ∧ extension uniqueName = extension name

theorem uniqueLoop_spec (usedNames : Finset Str) (name : Str) :
    ∃ uniqueName counter, Named usedNames name uniqueName ∧ counter ≤ usedNames.card + 1 ∧
      ∀ fuel, usedNames.card < fuel → uniqueLoop usedNames name fuel name 1 = some (uniqueName, counter) := by
  obtain ⟨j, hj, hfresh, hskipped⟩ := exists_first (candidate_injective name) usedNames
  refine ⟨candidate name j, j + 1, ⟨hfresh, fun hnew => ?_, fun hne => ?_⟩, by omega, fun fuel hfuel => ?_⟩
  · cases j with
    | zero => rfl
    | succ j => exact absurd (hskipped 0 (by omega)) hnew
  · cases j with
    | zero => exact absurd rfl hne
    | succ j => exact ⟨j + 1, by omega, hj, rfl, extension_numbered name (j + 1)⟩
  · refine (uniqueLoop_eq usedNames name fuel 0).trans ?_
    rw [firstFresh_eq_some (Nat.zero_le j) hfresh (fun i _ => hskipped i) (by omega), Option.map_some]

/-! ## All entries -/

theorem zipEntries_spec (filesPaths : List (Str × Str)) (usedNames : Finset Str) :
    ∃ entries, (∀ fuel, usedNames.card + filesPaths.length < fuel + 1 →
        zipEntries fuel filesPaths usedNames = some entries) ∧
      (entries.map (·.filename)).Nodup ∧ (∀ entry ∈ entries, entry.filename ∉ usedNames) ∧
      entries.map (·.filePath) = filesPaths.map Prod.snd ∧
      ∀ i name path, filesPaths[i]? = some (name, path) → ∃ entry, entries[i]? = some entry ∧
        Named (usedNames ∪ ((entries.take i).map (·.filename)).toFinset) name entry.filename := by
  induction filesPaths generalizing usedNames with
  | nil => exact ⟨[], fun _ _ => rfl, List.nodup_nil, by simp, rfl, by simp⟩
  | cons file filesPaths ih =>
    obtain ⟨name, path⟩ := file
    obtain ⟨uniqueName, counter, hnamed, -, hloop⟩ := uniqueLoop_spec usedNames name
    obtain ⟨entries, hentries, hnodup, hnew, hpaths, hat⟩ := ih (insert uniqueName usedNames)
    refine ⟨⟨uniqueName, path⟩ :: entries, fun fuel hfuel => ?_, ?_, ?_, ?_, ?_⟩
    · rw [List.length_cons] at hfuel
      have hcard := Finset.card_insert_le uniqueName usedNames
      rw [zipEntries, hloop fuel (by omega), Option.bind_eq_bind, Option.bind_some]
      dsimp only
      rw [hentries fuel (by omega)]
      rfl
    · rw [List.map_cons, List.nodup_cons]
      refine ⟨fun hmem => ?_, hnodup⟩
      obtain ⟨entry, hentry, heq⟩ := List.mem_map.1 hmem
      exact hnew entry hentry (heq ▸ Finset.mem_insert_self _ _)
    · intro entry hentry
      rcases List.mem_cons.1 hentry with rfl | hentry
      · exact hnamed.fresh
      · exact fun hused => hnew entry hentry (Finset.mem_insert_of_mem hused)
    · rw [List.map_cons, List.map_cons, hpaths]
    · intro i name' path' hi
      cases i with
      | zero =>
        obtain ⟨rfl, rfl⟩ := Prod.mk.inj (Option.some.inj hi)
        refine ⟨_, rfl, ?_⟩
        simpa using hnamed
      | succ i =>
        obtain ⟨entry, hentry, hnamed'⟩ := hat i name' path' hi
        refine ⟨entry, hentry, ?_⟩
        have hused : insert uniqueName usedNames ∪ ((entries.take i).map (·.filename)).toFinset =
            usedNames ∪ (((⟨uniqueName, path⟩ :: entries : List ZipEntry).take (i + 1)).map
              (·.filename)).toFinset := by
          rw [List.take_succ_cons, List.map_cons, List.toFinset_cons, Finset.insert_union,
            Finset.union_insert]
        exact hused ▸ hnamed'

/-- **Entry names.**  The loop ends for each song; the names are distinct, each with its path; a name
    that is new is kept, and a renamed one gets a number before its extension. -/
theorem zipEntries_unique (filesPaths : List (Str × Str)) :
    ∃ entries, (∀ fuel, filesPaths.length ≤ fuel → zipEntries fuel filesPaths ∅ = some entries) ∧
      (entries.map (·.filename)).Nodup ∧ entries.map (·.filePath) = filesPaths.map Prod.snd ∧
      ∀ i name path, filesPaths[i]? = some (name, path) → ∃ entry, entries[i]? = some entry ∧
        (name ∉ (entries.take i).map (·.filename) → entry.filename = name) ∧
        (entry.filename ≠ name → ∃ k, 0 < k ∧ k ≤ i ∧ entry.filename = numbered name k ∧
          extension entry.filename = extension name) := by
  obtain ⟨entries, hentries, hnodup, -, hpaths, hat⟩ := zipEntries_spec filesPaths ∅
  refine ⟨entries, fun fuel hfuel => hentries fuel ?_, hnodup, hpaths, fun i name path hi => ?_⟩
  · rw [Finset.card_empty]
    omega
  · obtain ⟨entry, hentry, hnamed⟩ := hat i name path hi
    rw [Finset.empty_union] at hnamed
    refine ⟨entry, hentry, fun hnew => hnamed.kept (by simpa using hnew), fun hne => ?_⟩
    obtain ⟨k, hpos, hk, hrenamed, hext⟩ := hnamed.renamed hne
    refine ⟨k, hpos, hk.trans ((List.toFinset_card_le _).trans ?_), hrenamed, hext⟩
    rw [List.length_map, List.length_take]
    exact min_le_left _ _

end NarMusic.BatchDownload

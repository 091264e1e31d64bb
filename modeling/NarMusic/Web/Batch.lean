/-
  The list of a batch (`web/app/modules/batch.js`): submits, poll loops and deletions.

  An item is an object, and the handlers address it by the position it had when they were
  started.  `about` is the object a position stands for; no handler reads it.  What a handler
  writes is recorded with the object it is about (`Written`), so that it can be said to be
  right (`Right`).

  The list is the one of one page and one playlist: parsing another one replaces it.
-/
import NarMusic.Lib.Run
import NarMusic.Web.Text
import Mathlib.Data.List.Sort

namespace NarMusic.Web

/-! ## Sets -/

/-- A `Set`: its elements in the order in which they were added. -/
structure JsSet (α : Type) where
  elems : List α
  nodup : elems.Nodup

namespace JsSet

variable {α : Type} [DecidableEq α]

def empty : JsSet α := ⟨[], .nil⟩

def add (s : JsSet α) (a : α) : JsSet α :=
  if h : a ∈ s.elems then s
  else ⟨s.elems ++ [a], List.concat_eq_append ▸ s.nodup.concat h⟩

def delete (s : JsSet α) (a : α) : JsSet α := ⟨s.elems.filter (· ≠ a), s.nodup.filter _⟩

/-- `new Set(l)`. -/
def ofList (l : List α) : JsSet α := l.foldl add empty

end JsSet

namespace Batch

/-! ## The state -/

/-- An entry of `batchResults`, known by the object it is. -/
structure Item where
  ref : ℕ
  found : Bool
  status : Text
  taskId : Option Text := none
  errorMsg : Option Text := none

/-- A position of `indexes` in a submit. -/
structure Target where
  idx : ℕ
  about : ℕ

/-- An entry of `pollTasks`. -/
structure PollTask where
  idx : ℕ
  taskId : Text
  about : ℕ

/-- One call of `pollBatchDownloadStatus`, between two answers. -/
structure Poll where
  tasks : List PollTask
  pending : JsSet Text
  consecutiveErrors : ℕ := 0

/-- The list, the submits that wait for their answer, and the poll loops. -/
structure State where
  batchResults : List Item
  batchSelectedIndexes : JsSet ℕ := .empty
  submits : List (List Target) := []
  polls : List Poll := []

/-- A status or an error that a handler has for an object, with its task if it is one of a task,
    and the item it was written to. -/
structure Written where
  about : ℕ
  task : Option Text
  item : Option Item

/-! ## Writing -/

def Item.fail (message : Text) (item : Item) : Item :=
  { item with status := "failed".toList, errorMsg := some message }

def Item.submit (item : Item) : Item := { item with status := "downloading".toList }

/-- A member of `results` in the answer to a submit. -/
inductive Submitted where
  | accepted (taskId : Text)
  | refused (error : Text)

def Submitted.task : Option Submitted → Option Text
  | some (.accepted taskId) => some taskId
  | _ => none

/-- What the loop over the answer does with an item. -/
def Item.answer : Option Submitted → Item → Item
  | some (.accepted taskId), item => { item.submit with taskId := some taskId }
  | some (.refused error), item => item.fail (if error = [] then "提交失败".toList else error)
  | none, item => item.fail "提交失败".toList

/-- Where the loop over the answer has got to. -/
structure Answered where
  items : List Item
  pollTasks : List PollTask := []
  written : List Written := []
  thrown : Bool := false

/-- The loop over the answer to a submit; an item that is gone ends it with a `TypeError`. -/
def answerLoop : List Target → List (Option Submitted) → List Item → Answered
  | [], _, items => { items }
  | t :: ts, results, items =>
    let result := results.head?.join
    if t.idx < items.length then
      let items := items.modify t.idx (Item.answer result)
      let rest := answerLoop ts results.tail items
      { rest with
        pollTasks := ((Submitted.task result).map (⟨t.idx, ·, t.about⟩)).toList ++ rest.pollTasks
        written := ⟨t.about, Submitted.task result, items[t.idx]?⟩ :: rest.written }
    else { items, written := [⟨t.about, Submitted.task result, none⟩], thrown := true }

/-- `indexes.forEach` in the `catch` block. -/
def failLoop (message : Text) : List Target → List Item → List Item × List Written
  | [], items => (items, [])
  | t :: ts, items =>
    if t.idx < items.length then
      let items := items.modify t.idx (Item.fail message)
      let rest := failLoop message ts items
      (rest.1, ⟨t.about, none, items[t.idx]?⟩ :: rest.2)
    else (items, [⟨t.about, none, none⟩])

/-- The message of the `TypeError`. -/
def typeError : Text := "Cannot set properties of undefined".toList

/-- `taskMap[taskId]`; a later entry has replaced an earlier one. -/
def Poll.lookup (p : Poll) (taskId : Text) : Option PollTask :=
  p.tasks.reverse.find? (·.taskId = taskId)

/-- One write of a poll loop, where the item is there. -/
def Poll.write (p : Poll) (taskId : Text) (f : Item → Item) (items : List Item) : List Item × List Written :=
  match p.lookup taskId with
  | none => (items, [])
  | some task => (items.modify task.idx f, [⟨task.about, some taskId, items[task.idx]?⟩])

/-- A member of `results` in the answer to a poll. -/
structure TaskStatus where
  error : Text := []
  isFinished : Bool := false
  isSuccess : Bool := false

/-- What is done with the item of a task that is over. -/
def TaskStatus.settle (status : TaskStatus) : Option (Item → Item) :=
  if status.error = "task_not_found".toList then some (Item.fail "任务不存在".toList)
  else if status.isFinished then
    some fun item =>
      if status.isSuccess then { item with status := "downloaded".toList }
      else item.fail (if status.error = [] then "download_failed".toList else status.error)
  else none

/-- The loop over the answer to a poll. -/
def statusLoop : List (Text × TaskStatus) → Poll → List Item → Poll × List Item × List Written
  | [], p, items => (p, items, [])
  | (taskId, status) :: rest, p, items =>
    match status.settle with
    | none => statusLoop rest p items
    | some f =>
      let (items, written) := p.write taskId f items
      let (p, items, more) := statusLoop rest { p with pending := p.pending.delete taskId } items
      (p, items, written ++ more)

/-- The loop of the last error. -/
def errorLoop (p : Poll) : List Text → List Item → List Item × List Written
  | [], items => (items, [])
  | taskId :: rest, items =>
    let (items, written) := p.write taskId (Item.fail "状态查询失败".toList) items
    let (items, more) := errorLoop p rest items
    (items, written ++ more)

def MAX_ERRORS : ℕ := 5

/-- `pollBatchDownloadStatus(pollTasks)`. -/
def Poll.start (tasks : List PollTask) : Poll := { tasks, pending := .ofList (tasks.map (·.taskId)) }

/-! ## Steps -/

inductive Event where
  /-- `toggleBatchItemSelect` -/
  | select (idx : ℕ) (checked : Bool)
  /-- `toggleBatchSelectAll` -/
  | selectAll (checked : Bool)
  /-- `deleteBatchItem` -/
  | deleteItem (idx : ℕ)
  /-- `batchDeleteSelected` -/
  | deleteSelected
  /-- `batchDownloadToServer`, up to its request. -/
  | submit
  /-- The answer to the `n`-th waiting submit, or the message of an error. -/
  | submitAnswer (n : ℕ) (answer : Except Text (List (Option Submitted)))
  /-- The answer to the `n`-th poll loop; `none` is an error. -/
  | pollAnswer (n : ℕ) (answer : Option (List TaskStatus))

namespace State

/-- `batchResults.splice(idx, 1)`. -/
def splice (s : State) (idx : ℕ) : State := { s with batchResults := s.batchResults.eraseIdx idx }

def deleteItem (s : State) (idx : ℕ) : State :=
  { s.splice idx with
    batchSelectedIndexes := .ofList (s.batchSelectedIndexes.elems.filterMap fun i =>
      if i < idx then some i else if idx < i then some (i - 1) else none) }

/-- The selected positions, the last one first. -/
def selectedDown (s : State) : List ℕ := s.batchSelectedIndexes.elems.insertionSort (· ≥ ·)

def deleteSelected (s : State) : State :=
  { s.selectedDown.foldl splice s with batchSelectedIndexes := .empty }

def submit (s : State) : State :=
  let indexes := s.batchSelectedIndexes.elems.filter fun i => s.batchResults[i]?.any (·.found)
  if indexes = [] then s
  else { s with
    batchResults := indexes.foldl (fun items i => items.modify i Item.submit) s.batchResults
    submits := s.submits ++ [indexes.filterMap fun i => s.batchResults[i]?.map (⟨i, ·.ref⟩)] }

/-- The rest of `batchDownloadToServer`, and what it has written. -/
def submitAnswer (s : State) (targets : List Target) :
    Except Text (List (Option Submitted)) → State × List Written
  | .error message =>
    let (items, written) := failLoop message targets s.batchResults
    ({ s with batchResults := items }, written)
  | .ok results =>
    let answered := answerLoop targets results s.batchResults
    if answered.thrown then
      let (items, written) := failLoop typeError targets answered.items
      ({ s with batchResults := items }, answered.written ++ written)
    else
      ({ s with
        batchResults := answered.items
        polls := if answered.pollTasks = [] then s.polls else s.polls ++ [.start answered.pollTasks] },
        answered.written)

/-- The rest of `poll` in the `n`-th loop, and what it has written. -/
def pollAnswer (s : State) (n : ℕ) (p : Poll) : Option (List TaskStatus) → State × List Written
  | some results =>
    let (p, items, written) := statusLoop (p.pending.elems.zip results) { p with consecutiveErrors := 0 }
      s.batchResults
    ({ s with
      batchResults := items
      polls := if p.pending.elems = [] then s.polls.eraseIdx n else s.polls.set n p }, written)
  | none =>
    let p := { p with consecutiveErrors := p.consecutiveErrors + 1 }
    if MAX_ERRORS ≤ p.consecutiveErrors then
      let (items, written) := errorLoop p p.pending.elems s.batchResults
      ({ s with batchResults := items, polls := s.polls.eraseIdx n }, written)
    else ({ s with polls := s.polls.set n p }, [])

def handle (s : State) : Event → State × List Written
  | .select idx checked =>
    ({ s with batchSelectedIndexes :=
      if checked then s.batchSelectedIndexes.add idx else s.batchSelectedIndexes.delete idx }, [])
  | .selectAll checked =>
    let found := (List.range s.batchResults.length).filter fun i => s.batchResults[i]?.any (·.found)
    ({ s with batchSelectedIndexes :=
      if checked then found.foldl .add s.batchSelectedIndexes else .empty }, [])
  | .deleteItem idx => (s.deleteItem idx, [])
  | .deleteSelected => (s.deleteSelected, [])
  | .submit => (s.submit, [])
  | .submitAnswer n answer =>
    match s.submits[n]? with
    | none => (s, [])
    | some targets => { s with submits := s.submits.eraseIdx n }.submitAnswer targets answer
  | .pollAnswer n answer =>
    match s.polls[n]? with
    | none => (s, [])
    | some p => s.pollAnswer n p answer

def step (s : State) (e : Event) : State := (s.handle e).1

/-- What an event has written. -/
def written (s : State) (e : Event) : List Written := (s.handle e).2

/-- After `parseBatchPlaylist`. -/
def parsed (items : List Item) : State := { batchResults := items }

/-- After `initBatch` with a stored list: the tasks that were on their way are polled again. -/
def restored (items : List Item) (selected : JsSet ℕ) : State :=
  let pollTasks := items.zipIdx.filterMap fun (item, idx) =>
    if item.status = "downloading".toList ∧ item.taskId ≠ some [] then
      item.taskId.map (⟨idx, ·, item.ref⟩)
    else none
  { batchResults := items
    batchSelectedIndexes := selected
    polls := if pollTasks = [] then [] else [.start pollTasks] }

end State

/-! ## Which writes are right -/

/-- A status goes to the object it is about, where the list has it, and that object has the task. -/
def Right (items : List Item) (w : Written) : Prop :=
  w.item.map (·.ref) = (if w.about ∈ items.map (·.ref) then some w.about else none) ∧
    ∀ item ∈ w.item, ∀ taskId ∈ w.task, item.taskId = some taskId

/-- The tasks a loop still asks for. -/
def Poll.awaited (p : Poll) : List PollTask := p.pending.elems.filterMap p.lookup

/-- A deletion of one position that moves no item onto or away from a position that is still
    used: of a submit that waits, and of a task that is awaited and whose item is not the one
    that is deleted, at the end of the list. -/
def Harmless (s : State) (idx : ℕ) : Prop :=
  idx < s.batchResults.length →
    (∀ targets ∈ s.submits, ∀ t ∈ targets, t.idx < idx) ∧
    ∀ p ∈ s.polls, ∀ task ∈ p.awaited,
      task.idx < idx ∨ task.idx = idx ∧ idx + 1 = s.batchResults.length ∨ s.batchResults.length ≤ task.idx

/-- Deletions one after the other. -/
def HarmlessAll : List ℕ → State → Prop
  | [], _ => True
  | idx :: rest, s => Harmless s idx ∧ HarmlessAll rest (s.splice idx)

/-- A step that disturbs no position: deletions are harmless, and the answer to a submit comes
    when no loop awaits a task at one of its positions. -/
def Undisturbed (s : State) : Event → Prop
  | .deleteItem idx => Harmless s idx
  | .deleteSelected => HarmlessAll s.selectedDown s
  | .submitAnswer n _ => ∀ targets ∈ s.submits[n]?, ∀ t ∈ targets, ∀ p ∈ s.polls, ∀ task ∈ p.awaited,
      task.idx ≠ t.idx
  | _ => True

/-! ## Objects -/

/-- The objects of a list, with their tasks. -/
def objects (items : List Item) : List (ℕ × Option Text) := items.map fun item => (item.ref, item.taskId)

/-- The position of a task has its object, or the object is gone and nothing has come to the
    position. -/
def At (items : List Item) (task : PollTask) : Prop :=
  (objects items)[task.idx]? = some (task.about, some task.taskId) ∨
    items.length ≤ task.idx ∧ task.about ∉ items.map (·.ref)

structure Inv (s : State) : Prop where
  distinct : (s.batchResults.map (·.ref)).Nodup
  submits : ∀ targets ∈ s.submits, (targets.map (·.idx)).Nodup ∧
    ∀ t ∈ targets, s.batchResults[t.idx]?.map (·.ref) = some t.about
  polls : ∀ p ∈ s.polls, ∀ task ∈ p.awaited, At s.batchResults task

theorem refs_eq (items : List Item) : items.map (·.ref) = (objects items).map Prod.fst := by
  simp [objects]

/-- What leaves the objects, and at the position of a task also its task, keeps the position. -/
theorem at_of_refs {items items' : List Item} (hrefs : items'.map (·.ref) = items.map (·.ref))
    {task : PollTask} (hidx : (objects items')[task.idx]? = (objects items)[task.idx]?) (h : At items task) :
    At items' task := by
  have hlen : items'.length = items.length := by simpa using congrArg List.length hrefs
  unfold At at h ⊢
  rwa [hidx, hlen, hrefs]

theorem at_of_objects {items items' : List Item} (h : objects items' = objects items) {task : PollTask}
    (ht : At items task) : At items' task :=
  at_of_refs (by rw [refs_eq, h, ← refs_eq]) (by rw [h]) ht

theorem objects_modify {f : Item → Item} (href : ∀ item, (f item).ref = item.ref)
    (htask : ∀ item, (f item).taskId = item.taskId) (items : List Item) (i : ℕ) :
    objects (items.modify i f) = objects items := by
  refine List.ext_getElem? fun j => ?_
  simp only [objects, List.getElem?_map, List.getElem?_modify]
  cases items[j]? with
  | none => rfl
  | some item => by_cases hij : i = j <;> simp [hij, href, htask]

theorem refs_modify {f : Item → Item} (href : ∀ item, (f item).ref = item.ref) (items : List Item) (i : ℕ) :
    (items.modify i f).map (·.ref) = items.map (·.ref) := by
  refine List.ext_getElem? fun j => ?_
  simp only [List.getElem?_map, List.getElem?_modify]
  cases items[j]? with
  | none => rfl
  | some item => by_cases hij : i = j <;> simp [hij, href]

/-- Whether a write is right depends on the objects of the list only. -/
theorem right_of_refs {items items' : List Item} (h : items'.map (·.ref) = items.map (·.ref)) {w : Written}
    (hw : Right items' w) : Right items w := by
  unfold Right at hw ⊢
  rwa [h] at hw

/-- A write at the position of a task is right. -/
theorem right_of_at {items : List Item} {task : PollTask} (h : At items task) :
    Right items ⟨task.about, some task.taskId, items[task.idx]?⟩ := by
  unfold Right
  rcases h with h | ⟨hlen, hgone⟩
  · rw [objects, List.getElem?_map] at h
    obtain ⟨item, hitem, hobject⟩ := Option.map_eq_some_iff.1 h
    obtain ⟨href, htask⟩ := Prod.mk.inj hobject
    have hmem : task.about ∈ items.map (·.ref) := List.mem_map.2 ⟨item, List.mem_of_getElem? hitem, href⟩
    rw [if_pos hmem]
    simp [hitem, href, htask]
  · rw [if_neg hgone]
    simp [List.getElem?_eq_none hlen]

/-! ## Poll loops -/

theorem lookup_taskId {p : Poll} {taskId : Text} {task : PollTask} (h : p.lookup taskId = some task) :
    task ∈ p.tasks ∧ task.taskId = taskId :=
  ⟨List.mem_reverse.1 (List.mem_of_find?_eq_some h), by simpa using List.find?_some h⟩

theorem fail_keeps (message : Text) (item : Item) :
    (item.fail message).ref = item.ref ∧ (item.fail message).taskId = item.taskId :=
  ⟨rfl, rfl⟩

theorem settle_keeps {status : TaskStatus} {f : Item → Item} (h : status.settle = some f) (item : Item) :
    (f item).ref = item.ref ∧ (f item).taskId = item.taskId := by
  unfold TaskStatus.settle at h
  split_ifs at h <;> obtain rfl := Option.some.inj h <;> exact ⟨rfl, rfl⟩

/-- A loop that asks for fewer tasks awaits fewer. -/
theorem awaited_subset {p q : Poll} (htasks : q.tasks = p.tasks)
    (hpending : q.pending.elems ⊆ p.pending.elems) : q.awaited ⊆ p.awaited := by
  intro task htask
  obtain ⟨id, hid, hlookup⟩ := List.mem_filterMap.1 htask
  refine List.mem_filterMap.2 ⟨id, hpending hid, ?_⟩
  rwa [Poll.lookup, ← htasks]

/-- One write of a loop. -/
theorem write_spec {p : Poll} {taskId : Text} {f : Item → Item} {items : List Item}
    (hf : ∀ item, (f item).ref = item.ref ∧ (f item).taskId = item.taskId)
    (hat : ∀ task ∈ p.lookup taskId, At items task) :
    objects (p.write taskId f items).1 = objects items ∧
      ∀ w ∈ (p.write taskId f items).2, Right items w := by
  unfold Poll.write
  cases hlookup : p.lookup taskId with
  | none => simp
  | some task =>
    refine ⟨objects_modify (fun item => (hf item).1) (fun item => (hf item).2) items _, fun w hw => ?_⟩
    obtain rfl := List.mem_singleton.1 hw
    obtain ⟨-, rfl⟩ := lookup_taskId hlookup
    exact right_of_at (hat task hlookup)

/-- The loop over an answer writes to the objects of the tasks, and goes on with some of them. -/
theorem statusLoop_spec (answers : List (Text × TaskStatus)) (p : Poll) (items : List Item)
    (hat : ∀ a ∈ answers, ∀ task ∈ p.lookup a.1, At items task) :
    objects (statusLoop answers p items).2.1 = objects items ∧
      (∀ w ∈ (statusLoop answers p items).2.2, Right items w) ∧
      (statusLoop answers p items).1.tasks = p.tasks ∧
      (statusLoop answers p items).1.pending.elems ⊆ p.pending.elems := by
  induction answers generalizing p items with
  | nil => simp [statusLoop]
  | cons a answers ih =>
    obtain ⟨taskId, status⟩ := a
    obtain ⟨hhead, hrest⟩ := List.forall_mem_cons.1 hat
    rw [statusLoop]
    cases hsettle : status.settle with
    | none => exact ih p items hrest
    | some f =>
      obtain ⟨hobjects, hright⟩ := write_spec (settle_keeps hsettle) hhead
      have hrest' : ∀ a ∈ answers, ∀ task ∈ Poll.lookup { p with pending := p.pending.delete taskId } a.1,
          At (p.write taskId f items).1 task :=
        fun a ha task htask => at_of_objects hobjects (hrest a ha task htask)
      obtain ⟨h1, h2, h3, h4⟩ := ih { p with pending := p.pending.delete taskId } _ hrest'
      refine ⟨h1.trans hobjects, fun w hw => ?_, h3, fun id hid => ?_⟩
      · rcases List.mem_append.1 hw with hw | hw
        · exact hright w hw
        · refine right_of_refs ?_ (h2 w hw)
          rw [refs_eq, hobjects, ← refs_eq]
      · exact (List.mem_filter.1 (h4 hid)).1

theorem errorLoop_spec (p : Poll) (ids : List Text) (items : List Item)
    (hat : ∀ id ∈ ids, ∀ task ∈ p.lookup id, At items task) :
    objects (errorLoop p ids items).1 = objects items ∧ ∀ w ∈ (errorLoop p ids items).2, Right items w := by
  induction ids generalizing items with
  | nil => simp [errorLoop]
  | cons id ids ih =>
    obtain ⟨hhead, hrest⟩ := List.forall_mem_cons.1 hat
    obtain ⟨hobjects, hright⟩ := write_spec (fail_keeps "状态查询失败".toList) hhead
    obtain ⟨h1, h2⟩ := ih _ fun id hid task htask => at_of_objects hobjects (hrest id hid task htask)
    refine ⟨h1.trans hobjects, fun w hw => ?_⟩
    rcases List.mem_append.1 hw with hw | hw
    · exact hright w hw
    · refine right_of_refs ?_ (h2 w hw)
      rw [refs_eq, hobjects, ← refs_eq]

/-! ## The answer to a submit -/

/-- The positions of a submit have its objects. -/
def Placed (items : List Item) (targets : List Target) : Prop :=
  ∀ t ∈ targets, items[t.idx]?.map (·.ref) = some t.about

theorem placed_of_refs {items items' : List Item} (h : items'.map (·.ref) = items.map (·.ref))
    {targets : List Target} (ht : Placed items targets) : Placed items' targets := by
  intro t hmem
  rw [← List.getElem?_map, h, List.getElem?_map]
  exact ht t hmem

/-- A write at the position of a submit, by which the object keeps what it is. -/
theorem right_of_placed {items : List Item} {t : Target} (h : items[t.idx]?.map (·.ref) = some t.about)
    {f : Item → Item} (href : ∀ item, (f item).ref = item.ref) {task : Option Text}
    (htask : ∀ item, ∀ taskId ∈ task, (f item).taskId = some taskId) :
    t.idx < items.length ∧ Right items ⟨t.about, task, (items.modify t.idx f)[t.idx]?⟩ := by
  obtain ⟨item, hitem, hobject⟩ := Option.map_eq_some_iff.1 h
  obtain ⟨hlt, -⟩ := List.getElem?_eq_some_iff.1 hitem
  have hmem : t.about ∈ items.map (·.ref) := List.mem_map.2 ⟨item, List.mem_of_getElem? hitem, hobject⟩
  refine ⟨hlt, ?_⟩
  unfold Right
  rw [if_pos hmem, List.getElem?_modify_eq, hitem]
  refine ⟨by simp [href, hobject], fun item' hitem' taskId htaskId => ?_⟩
  obtain rfl := Option.some.inj hitem'
  exact htask item taskId htaskId

theorem failLoop_spec (message : Text) (targets : List Target) (items : List Item)
    (h : Placed items targets) :
    objects (failLoop message targets items).1 = objects items ∧
      ∀ w ∈ (failLoop message targets items).2, Right items w := by
  induction targets generalizing items with
  | nil => simp [failLoop]
  | cons t targets ih =>
    obtain ⟨hhead, hrest⟩ := List.forall_mem_cons.1 h
    have hnone : ∀ item : Item, ∀ taskId ∈ (none : Option Text), (item.fail message).taskId = some taskId := by
      simp
    obtain ⟨hlt, hright⟩ := right_of_placed hhead (fun item => (fail_keeps message item).1) hnone
    have hobjects : objects (items.modify t.idx (Item.fail message)) = objects items :=
      objects_modify (fun item => (fail_keeps message item).1) (fun item => (fail_keeps message item).2) _ _
    have hrefs : (items.modify t.idx (Item.fail message)).map (·.ref) = items.map (·.ref) := by
      rw [refs_eq, hobjects, ← refs_eq]
    obtain ⟨h1, h2⟩ := ih _ (placed_of_refs hrefs hrest)
    rw [failLoop, if_pos hlt]
    refine ⟨h1.trans hobjects, fun w hw => ?_⟩
    rcases List.mem_cons.1 hw with rfl | hw
    · exact hright
    · exact right_of_refs hrefs (h2 w hw)

theorem answer_ref (result : Option Submitted) (item : Item) : (item.answer result).ref = item.ref := by
  rcases result with _ | ⟨taskId⟩ | ⟨error⟩ <;> rfl

theorem answer_task (result : Option Submitted) (item : Item) :
    ∀ taskId ∈ Submitted.task result, (item.answer result).taskId = some taskId := by
  intro taskId h
  rcases result with _ | ⟨accepted⟩ | ⟨error⟩
  · cases h
  · exact h
  · cases h

/-- The loop over the answer writes to the objects of the submit, and each new task is at its
    position. -/
structure Answers (items : List Item) (targets : List Target) (a : Answered) : Prop where
  thrown : a.thrown = false
  refs : a.items.map (·.ref) = items.map (·.ref)
  others : ∀ i ∉ targets.map (·.idx), (objects a.items)[i]? = (objects items)[i]?
  tasks : ∀ task ∈ a.pollTasks, (objects a.items)[task.idx]? = some (task.about, some task.taskId)
  right : ∀ w ∈ a.written, Right items w

theorem answerLoop_spec (targets : List Target) (results : List (Option Submitted)) (items : List Item)
    (hnodup : (targets.map (·.idx)).Nodup) (h : Placed items targets) :
    Answers items targets (answerLoop targets results items) := by
  induction targets generalizing results items with
  | nil => exact ⟨rfl, rfl, fun _ _ => rfl, by simp [answerLoop], by simp [answerLoop]⟩
  | cons t targets ih =>
    obtain ⟨hhead, hrest⟩ := List.forall_mem_cons.1 h
    obtain ⟨hnew, hnodup⟩ := List.nodup_cons.1 (List.map_cons ▸ hnodup)
    set result := results.head?.join with hresult
    obtain ⟨hlt, hright⟩ := right_of_placed hhead (answer_ref result) (answer_task result)
    have hrefs : (items.modify t.idx (Item.answer result)).map (·.ref) = items.map (·.ref) :=
      refs_modify (answer_ref result) items t.idx
    obtain ⟨hthrown, hitems, hothers, htasks, hwritten⟩ :=
      ih results.tail _ hnodup (placed_of_refs hrefs hrest)
    rw [answerLoop, if_pos hlt]
    refine ⟨hthrown, hitems.trans hrefs, fun i hi => ?_, fun task htask => ?_, fun w hw => ?_⟩
    · rw [List.map_cons, List.mem_cons, not_or] at hi
      rw [hothers i hi.2, objects, objects, List.getElem?_map, List.getElem?_map,
        List.getElem?_modify_ne _ _ (Ne.symm hi.1)]
    · rcases List.mem_append.1 htask with htask | htask
      · -- the position of a new task is not written to again
        rw [Option.mem_toList] at htask
        obtain ⟨taskId, htaskId, rfl⟩ := Option.map_eq_some_iff.1 htask
        obtain ⟨item, hitem, hobject⟩ := Option.map_eq_some_iff.1 hhead
        have hanswer := answer_task result item taskId htaskId
        dsimp only
        rw [hothers t.idx hnew, objects, List.getElem?_map, List.getElem?_modify_eq, hitem]
        simp only [Option.map_eq_map, Option.map_some]
        rw [answer_ref, hobject, hanswer]
      · exact htasks task htask
    · rcases List.mem_cons.1 hw with rfl | hw
      · exact hright
      · exact right_of_refs hrefs (hwritten w hw)

/-! ## Deletions -/

theorem objects_eraseIdx (items : List Item) (i : ℕ) :
    objects (items.eraseIdx i) = (objects items).eraseIdx i := by
  rw [objects, objects, List.eraseIdx_map]

/-- A harmless deletion keeps a position, or deletes its object. -/
theorem at_eraseIdx {items : List Item} (hdistinct : (items.map (·.ref)).Nodup) {task : PollTask} {idx : ℕ}
    (hidx : idx < items.length)
    (h : task.idx < idx ∨ task.idx = idx ∧ idx + 1 = items.length ∨ items.length ≤ task.idx)
    (hat : At items task) : At (items.eraseIdx idx) task := by
  have hsub : ((items.eraseIdx idx).map (·.ref)).Sublist (items.map (·.ref)) :=
    (List.eraseIdx_sublist items idx).map _
  have hlen : (items.eraseIdx idx).length = items.length - 1 := List.length_eraseIdx_of_lt hidx
  rcases hat with hat | ⟨hgone, habout⟩
  · have hlt : task.idx < items.length := by
      have := (List.getElem?_eq_some_iff.1 hat).1
      simpa [objects] using this
    rcases h with h | ⟨h, hlast⟩ | h
    · left
      rwa [objects_eraseIdx, List.getElem?_eraseIdx_of_lt h]
    · -- the object was the last one of the list, and it is there only once
      subst h
      refine Or.inr ⟨by omega, fun hmem => ?_⟩
      rw [← List.eraseIdx_map] at hmem
      obtain ⟨j, hne, hj⟩ := List.mem_eraseIdx_iff_getElem?.1 hmem
      have habout : (items.map (·.ref))[task.idx]? = some task.about := by
        rw [refs_eq, List.getElem?_map, hat]
        rfl
      have hlt' : task.idx < (items.map (·.ref)).length := by rwa [List.length_map]
      exact hne ((List.getElem?_inj hlt' hdistinct).1 (habout.trans hj.symm)).symm
    · omega
  · exact Or.inr ⟨by omega, fun hmem => habout (hsub.subset hmem)⟩

/-- A harmless deletion of one position. -/
theorem inv_splice {s : State} (h : Inv s) {idx : ℕ} (hharmless : Harmless s idx) : Inv (s.splice idx) := by
  by_cases hidx : idx < s.batchResults.length
  · obtain ⟨hsubmits, hpolls⟩ := hharmless hidx
    refine ⟨?_, fun targets htargets => ⟨(h.submits targets htargets).1, fun t ht => ?_⟩,
      fun p hp task htask => ?_⟩
    · exact h.distinct.sublist ((List.eraseIdx_sublist _ _).map _)
    · have hplaced := (h.submits targets htargets).2 t ht
      rw [← hplaced, State.splice, List.getElem?_eraseIdx_of_lt (hsubmits targets htargets t ht)]
    · exact at_eraseIdx h.distinct hidx (hpolls p hp task htask) (h.polls p hp task htask)
  · have hsame : s.splice idx = s := by
      unfold State.splice
      rw [List.eraseIdx_of_length_le (Nat.not_lt.1 hidx)]
    rwa [hsame]

theorem inv_splices {s : State} (h : Inv s) {idxs : List ℕ} (hharmless : HarmlessAll idxs s) :
    Inv (idxs.foldl State.splice s) := by
  induction idxs generalizing s with
  | nil => exact h
  | cons idx idxs ih => exact ih (inv_splice h hharmless.1) hharmless.2

/-! ## Every step -/

/-- The selection is no part of the invariant. -/
theorem inv_select {s : State} (h : Inv s) (selected : JsSet ℕ) :
    Inv { s with batchSelectedIndexes := selected } :=
  ⟨h.distinct, h.submits, h.polls⟩

theorem inv_submit {s : State} (h : Inv s) : Inv s.submit := by
  have hobjects : ∀ (indexes : List ℕ) (items : List Item),
      objects (indexes.foldl (fun items i => items.modify i Item.submit) items) = objects items := by
    intro indexes
    induction indexes with
    | nil => exact fun _ => rfl
    | cons i indexes ih =>
      have hsubmit : ∀ item : Item, item.submit.ref = item.ref ∧ item.submit.taskId = item.taskId :=
        fun item => ⟨rfl, rfl⟩
      exact fun items => (ih _).trans
        (objects_modify (fun item => (hsubmit item).1) (fun item => (hsubmit item).2) items i)
  unfold State.submit
  dsimp only
  split_ifs with hempty
  · exact h
  · set indexes := s.batchSelectedIndexes.elems.filter fun i => s.batchResults[i]?.any (·.found)
    have hitems := hobjects indexes s.batchResults
    have hrefs : (indexes.foldl (fun items i => items.modify i Item.submit) s.batchResults).map (·.ref) =
        s.batchResults.map (·.ref) := by
      rw [refs_eq, hitems, ← refs_eq]
    refine ⟨hrefs ▸ h.distinct, fun targets htargets => ?_, fun p hp task htask =>
      at_of_objects hitems (h.polls p hp task htask)⟩
    rcases List.mem_append.1 htargets with htargets | htargets
    · obtain ⟨hnodup, hplaced⟩ := h.submits targets htargets
      exact ⟨hnodup, placed_of_refs hrefs hplaced⟩
    · obtain rfl := List.mem_singleton.1 htargets
      constructor
      · rw [List.map_filterMap]
        refine List.Nodup.filterMap (fun i j k hi hj => ?_) (s.batchSelectedIndexes.nodup.filter _)
        simp only [Option.map_map, Option.mem_def, Option.map_eq_some_iff] at hi hj
        obtain ⟨_, -, rfl⟩ := hi
        obtain ⟨_, -, hj⟩ := hj
        exact hj.symm
      · refine placed_of_refs hrefs fun t ht => ?_
        obtain ⟨i, -, hi⟩ := List.mem_filterMap.1 ht
        obtain ⟨item, hitem, rfl⟩ := Option.map_eq_some_iff.1 hi
        simp [hitem]

/-- An answer that leaves the objects and their tasks, with fewer submits and loops. -/
theorem inv_objects {s s' : State} (h : Inv s) (hobjects : objects s'.batchResults = objects s.batchResults)
    (hsubmits : s'.submits ⊆ s.submits)
    (hpolls : ∀ p ∈ s'.polls, ∀ task ∈ p.awaited, ∃ q ∈ s.polls, task ∈ q.awaited) : Inv s' := by
  have hrefs : s'.batchResults.map (·.ref) = s.batchResults.map (·.ref) := by
    rw [refs_eq, hobjects, ← refs_eq]
  refine ⟨hrefs ▸ h.distinct, fun targets htargets => ?_, fun p hp task htask => ?_⟩
  · obtain ⟨hnodup, hplaced⟩ := h.submits targets (hsubmits htargets)
    exact ⟨hnodup, placed_of_refs hrefs hplaced⟩
  · obtain ⟨q, hq, htask⟩ := hpolls p hp task htask
    exact at_of_objects hobjects (h.polls q hq task htask)

theorem submitAnswer_spec {s : State} (h : Inv s) {targets : List Target}
    (hnodup : (targets.map (·.idx)).Nodup) (hplaced : Placed s.batchResults targets)
    (hfree : ∀ t ∈ targets, ∀ p ∈ s.polls, ∀ task ∈ p.awaited, task.idx ≠ t.idx)
    (answer : Except Text (List (Option Submitted))) :
    Inv (s.submitAnswer targets answer).1 ∧
      ∀ w ∈ (s.submitAnswer targets answer).2, Right s.batchResults w := by
  cases answer with
  | error message =>
    obtain ⟨hobjects, hright⟩ := failLoop_spec message targets s.batchResults hplaced
    exact ⟨inv_objects h hobjects (List.Subset.refl _) fun q hq task htask => ⟨q, hq, htask⟩, hright⟩
  | ok results =>
    have hanswers := answerLoop_spec targets results s.batchResults hnodup hplaced
    unfold State.submitAnswer
    dsimp only
    rw [hanswers.thrown, if_neg Bool.false_ne_true]
    refine ⟨⟨hanswers.refs ▸ h.distinct, fun targets' htargets' => ?_, fun q hq task htask => ?_⟩,
      hanswers.right⟩
    · obtain ⟨hnodup', hplaced'⟩ := h.submits targets' htargets'
      exact ⟨hnodup', placed_of_refs hanswers.refs hplaced'⟩
    · have hold : q ∈ s.polls → At (answerLoop targets results s.batchResults).items task := by
        refine fun hq => at_of_refs hanswers.refs (hanswers.others _ fun hmem => ?_) (h.polls q hq task htask)
        obtain ⟨t, ht, hidx⟩ := List.mem_map.1 hmem
        exact hfree t ht q hq task htask hidx.symm
      dsimp only at hq
      split_ifs at hq
      · exact hold hq
      · rcases List.mem_append.1 hq with hq | hq
        · exact hold hq
        · obtain rfl := List.mem_singleton.1 hq
          obtain ⟨id, -, hlookup⟩ := List.mem_filterMap.1 htask
          exact Or.inl (hanswers.tasks task (lookup_taskId hlookup).1)

theorem pollAnswer_spec {s : State} (h : Inv s) {n : ℕ} {p : Poll} (hp : p ∈ s.polls)
    (answer : Option (List TaskStatus)) :
    Inv (s.pollAnswer n p answer).1 ∧ ∀ w ∈ (s.pollAnswer n p answer).2, Right s.batchResults w := by
  have hat : ∀ id ∈ p.pending.elems, ∀ task ∈ p.lookup id, At s.batchResults task :=
    fun id hid task htask => h.polls p hp task (List.mem_filterMap.2 ⟨id, hid, htask⟩)
  cases answer with
  | some results =>
    have hzip : ∀ a ∈ p.pending.elems.zip results, ∀ task ∈ p.lookup a.1, At s.batchResults task :=
      fun a ha => hat a.1 (List.of_mem_zip ha).1
    obtain ⟨hobjects, hright, htasks, hpending⟩ :=
      statusLoop_spec _ { p with consecutiveErrors := 0 } s.batchResults hzip
    refine ⟨inv_objects h hobjects (List.Subset.refl _) fun q hq task htask => ?_, hright⟩
    unfold State.pollAnswer at hq
    dsimp only at hq
    split_ifs at hq
    · exact ⟨q, List.eraseIdx_subset hq, htask⟩
    · rcases List.mem_or_eq_of_mem_set hq with hq | rfl
      · exact ⟨q, hq, htask⟩
      · exact ⟨p, hp, awaited_subset htasks hpending htask⟩
  | none =>
    unfold State.pollAnswer
    dsimp only
    split_ifs
    · obtain ⟨hobjects, hright⟩ := errorLoop_spec { p with consecutiveErrors := p.consecutiveErrors + 1 }
        p.pending.elems s.batchResults hat
      exact ⟨inv_objects h hobjects (List.Subset.refl _) fun q hq task htask =>
        ⟨q, List.eraseIdx_subset hq, htask⟩, hright⟩
    · refine ⟨inv_objects h rfl (List.Subset.refl _) fun q hq task htask => ?_, by simp⟩
      rcases List.mem_or_eq_of_mem_set hq with hq | rfl
      · exact ⟨q, hq, htask⟩
      · exact ⟨p, hp, htask⟩

/-- **One step** that disturbs no position writes to the right objects. -/
theorem step_right {s : State} (h : Inv s) {e : Event} (he : Undisturbed s e) :
    (∀ w ∈ s.written e, Right s.batchResults w) ∧ Inv (s.step e) := by
  cases e with
  | select idx checked => exact ⟨by simp [State.written, State.handle], inv_select h _⟩
  | selectAll checked => exact ⟨by simp [State.written, State.handle], inv_select h _⟩
  | deleteItem idx => exact ⟨by simp [State.written, State.handle], inv_select (inv_splice h he) _⟩
  | deleteSelected => exact ⟨by simp [State.written, State.handle], inv_select (inv_splices h he) _⟩
  | submit => exact ⟨by simp [State.written, State.handle], inv_submit h⟩
  | submitAnswer n answer =>
    cases htargets : s.submits[n]? with
    | none =>
      have hhandle : s.handle (.submitAnswer n answer) = (s, []) := by simp only [State.handle, htargets]
      rw [State.written, State.step, hhandle]
      exact ⟨by simp, h⟩
    | some targets =>
      have hhandle : s.handle (.submitAnswer n answer) =
          { s with submits := s.submits.eraseIdx n }.submitAnswer targets answer := by
        simp only [State.handle, htargets]
      have hrest : Inv { s with submits := s.submits.eraseIdx n } :=
        inv_objects h rfl List.eraseIdx_subset fun q hq task htask => ⟨q, hq, htask⟩
      obtain ⟨hnodup, hplaced⟩ := h.submits targets (List.mem_of_getElem? htargets)
      rw [State.written, State.step, hhandle]
      exact (submitAnswer_spec hrest hnodup hplaced (he targets htargets) answer).symm
  | pollAnswer n answer =>
    cases hp : s.polls[n]? with
    | none =>
      have hhandle : s.handle (.pollAnswer n answer) = (s, []) := by simp only [State.handle, hp]
      rw [State.written, State.step, hhandle]
      exact ⟨by simp, h⟩
    | some p =>
      have hhandle : s.handle (.pollAnswer n answer) = s.pollAnswer n p answer := by
        simp only [State.handle, hp]
      rw [State.written, State.step, hhandle]
      exact (pollAnswer_spec h (List.mem_of_getElem? hp) answer).symm

/-! ## Runs -/

theorem inv_parsed {items : List Item} (h : (items.map (·.ref)).Nodup) : Inv (.parsed items) :=
  ⟨h, by simp [State.parsed], by simp [State.parsed]⟩

/-- The loop of a restored list begins with every task at its position. -/
theorem inv_restored {items : List Item} (h : (items.map (·.ref)).Nodup) (selected : JsSet ℕ) :
    Inv (.restored items selected) := by
  refine ⟨h, fun targets htargets => absurd htargets List.not_mem_nil, fun p hp task htask => ?_⟩
  unfold State.restored at hp
  dsimp only at hp
  split_ifs at hp
  · cases hp
  · obtain rfl := List.mem_singleton.1 hp
    obtain ⟨id, -, hlookup⟩ := List.mem_filterMap.1 htask
    obtain ⟨⟨item, idx⟩, hmem, htask⟩ := List.mem_filterMap.1 (lookup_taskId hlookup).1
    dsimp only at htask
    split_ifs at htask
    obtain ⟨taskId, htaskId, rfl⟩ := Option.map_eq_some_iff.1 htask
    left
    have hitem : items[idx]? = some item := List.mem_zipIdx_iff_getElem?.1 hmem
    have hresults : (State.restored items selected).batchResults = items := rfl
    rw [hresults, objects, List.getElem?_map, hitem, Option.map_some, htaskId]

/-- **Statuses go to the right songs** in every run whose steps disturb no position. -/
theorem run_right {items : List Item} (h : (items.map (·.ref)).Nodup) {s : State}
    (hs : s = .parsed items ∨ ∃ selected, s = .restored items selected) {run : List Event}
    (hrun : Run.Each State.step Undisturbed s run) :
    Run.Each State.step (fun s e => ∀ w ∈ s.written e, Right s.batchResults w) s run := by
  have hinv : Inv s := by
    rcases hs with rfl | ⟨selected, rfl⟩
    · exact inv_parsed h
    · exact inv_restored h selected
  have hstep : ∀ s e, Inv s → Undisturbed s e →
      (∀ w ∈ s.written e, Right s.batchResults w) ∧ Inv (State.step s e) :=
    fun s e hs he => step_right hs he
  exact hrun.imp hstep hinv

/-- Two songs that have been found. -/
def twoSongs : List Item := [⟨0, true, "found".toList, none, none⟩, ⟨1, true, "found".toList, none, none⟩]

/-- Both are submitted and accepted, one is deleted, and the first one is done. -/
def deletedMeanwhile (idx : ℕ) : List Event :=
  [.select 0 true, .select 1 true, .submit,
    .submitAnswer 0 (.ok [some (.accepted ['a']), some (.accepted ['b'])]), .deleteItem idx,
    .pollAnswer 0 (some [⟨[], true, true⟩, ⟨[], false, false⟩])]

theorem second_deleted : Run.Each State.step (fun s e => ∀ w ∈ s.written e, Right s.batchResults w)
    (.parsed twoSongs) (deletedMeanwhile 1) := by
  refine run_right (by decide : (twoSongs.map (·.ref)).Nodup) (Or.inl rfl)
    ⟨trivial, trivial, trivial, ?_, ?_, trivial, trivial⟩
  · intro targets _ t _ p hp
    cases hp
  · unfold Undisturbed Harmless
    decide +kernel

/-- The first one is deleted, and the second one gets its status. -/
theorem first_deleted : ¬ Run.Each State.step (fun s e => ∀ w ∈ s.written e, Right s.batchResults w)
    (.parsed twoSongs) (deletedMeanwhile 0) := by
  rintro ⟨-, -, -, -, -, hlast, -⟩
  have hitem := (hlast ⟨0, some ['a'], some ⟨1, true, "downloading".toList, some ['b'], none⟩⟩
    List.mem_cons_self).1
  revert hitem
  decide +kernel

end Batch

end NarMusic.Web

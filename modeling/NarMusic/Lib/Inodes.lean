/-
  Files behind names.  A name leads to an inode; an open file keeps its inode, and
  reads and writes it, whatever becomes of the name.

  * `create` opens a file for writing: a file that is there is emptied, with the same
    inode, and otherwise a new inode is made.
  * `Apart n fs fs'`: only the name `n` and the file behind it have changed.  Every
    operation on the file of a name keeps apart from the others (`apart_create`,
    `apart_write`, `apart_unlink`), since no two names have one inode.
-/
import NarMusic.Lib.Bytes
import Mathlib.Logic.Function.Basic

namespace Inodes

open Cxx

abbrev Inode := ℕ

structure FileSystem (ν : Type) where
  names : ν → Option Inode
  data : Inode → Str
  /-- The next inode that is made. -/
  next : Inode
  fresh : ∀ {n i}, names n = some i → i < next
  inj : ∀ {m n i}, names m = some i → names n = some i → m = n

namespace FileSystem

variable {ν : Type}

/-- No files. -/
def empty : FileSystem ν := ⟨fun _ => none, fun _ => [], 0, by simp, by simp⟩

section
variable (fs : FileSystem ν)

/-- The content of the file behind a name. -/
def content (n : ν) : Option Str := (fs.names n).map fs.data

/-- `write` at a position; a gap behind the end is filled with zeros. -/
def write (i : Inode) (pos : ℕ) (bytes : Str) : FileSystem ν where
  names := fs.names
  data := Function.update fs.data i
    ((fs.data i).take pos ++ List.replicate (pos - (fs.data i).length) 0 ++ bytes ++
      (fs.data i).drop (pos + bytes.length))
  next := fs.next
  fresh := fs.fresh
  inj := fs.inj

variable [DecidableEq ν]

/-- The inode that `create` opens. -/
def createInode (n : ν) : Inode := (fs.names n).getD fs.next

/-- `open(n, O_WRONLY | O_CREAT | O_TRUNC)` -/
def create (n : ν) : FileSystem ν where
  names := Function.update fs.names n (some (fs.createInode n))
  data := Function.update fs.data (fs.createInode n) []
  next := fs.next + 1
  fresh := by
    intro m i h
    by_cases hm : m = n
    · subst hm
      rw [Function.update_self] at h
      obtain rfl := Option.some.inj h
      unfold createInode
      cases hn : fs.names m with
      | none => exact Nat.lt_succ_self _
      | some j => exact Nat.lt_succ_of_lt (fs.fresh hn)
    · rw [Function.update_of_ne hm] at h
      exact Nat.lt_succ_of_lt (fs.fresh h)
  inj := by
    have hother : ∀ {m : ν}, m ≠ n → fs.names m ≠ some (fs.createInode n) := by
      intro m hm h
      unfold createInode at h
      cases hn : fs.names n with
      | none => exact absurd (fs.fresh h) (by simp [hn])
      | some j => exact hm (fs.inj h (by simp [hn]))
    intro m m' i h h'
    by_cases hm : m = n <;> by_cases hm' : m' = n
    · rw [hm, hm']
    · rw [hm, Function.update_self] at h
      rw [Function.update_of_ne hm'] at h'
      exact absurd (h'.trans h.symm) (hother hm')
    · rw [hm', Function.update_self] at h'
      rw [Function.update_of_ne hm] at h
      exact absurd (h.trans h'.symm) (hother hm)
    · rw [Function.update_of_ne hm] at h
      rw [Function.update_of_ne hm'] at h'
      exact fs.inj h h'

/-- `unlink(n)` -/
def unlink (n : ν) : FileSystem ν where
  names := Function.update fs.names n none
  data := fs.data
  next := fs.next
  fresh := by
    intro m i h
    by_cases hm : m = n
    · simp [hm] at h
    · exact fs.fresh (by rwa [Function.update_of_ne hm] at h)
  inj := by
    intro m m' i h h'
    by_cases hm : m = n
    · simp [hm] at h
    · by_cases hm' : m' = n
      · simp [hm'] at h'
      · rw [Function.update_of_ne hm] at h
        rw [Function.update_of_ne hm'] at h'
        exact fs.inj h h'

end

variable {fs : FileSystem ν}

/-- A write at the end appends. -/
theorem data_write_end {i : Inode} {pos : ℕ} (h : (fs.data i).length = pos) (bytes : Str) :
    (fs.write i pos bytes).data i = fs.data i ++ bytes := by
  subst h
  simp [write]

/-- Only `n` and the file behind it have changed. -/
structure Apart (n : ν) (fs fs' : FileSystem ν) : Prop where
  names : ∀ m ≠ n, fs'.names m = fs.names m
  data : ∀ m ≠ n, ∀ i, fs.names m = some i → fs'.data i = fs.data i

theorem Apart.refl (n : ν) (fs : FileSystem ν) : Apart n fs fs := ⟨fun _ _ => rfl, fun _ _ _ _ => rfl⟩

theorem Apart.trans {n : ν} {fs fs' fs'' : FileSystem ν} (h : Apart n fs fs') (h' : Apart n fs' fs'') :
    Apart n fs fs'' where
  names m hm := (h'.names m hm).trans (h.names m hm)
  data m hm i hi := (h'.data m hm i ((h.names m hm).trans hi)).trans (h.data m hm i hi)

/-- A file behind another name is not changed. -/
theorem Apart.keeps {m n : ν} {fs' : FileSystem ν} {i : Inode} {bytes : Str} (h : Apart n fs fs') (hm : m ≠ n)
    (hfile : fs.names m = some i ∧ fs.data i = bytes) : fs'.names m = some i ∧ fs'.data i = bytes :=
  ⟨(h.names m hm).trans hfile.1, (h.data m hm i hfile.1).trans hfile.2⟩

theorem apart_write {n : ν} {i : Inode} (h : fs.names n = some i) (pos : ℕ) (bytes : Str) :
    Apart n fs (fs.write i pos bytes) where
  names _ _ := rfl
  data m hm j hj := by
    refine Function.update_of_ne ?_ _ fs.data
    rintro rfl
    exact hm (fs.inj hj h)

variable [DecidableEq ν]

theorem names_create (fs : FileSystem ν) (n : ν) : (fs.create n).names n = some (fs.createInode n) := by
  simp [create]

theorem data_create (fs : FileSystem ν) (n : ν) : (fs.create n).data (fs.createInode n) = [] := by
  simp [create]

theorem apart_create (fs : FileSystem ν) (n : ν) : Apart n fs (fs.create n) := by
  have hnames : ∀ m ≠ n, (fs.create n).names m = fs.names m := by
    intro m hm
    simp [create, hm]
  refine ⟨hnames, fun m hm i hi => ?_⟩
  have hne : i ≠ fs.createInode n := by
    rintro rfl
    exact hm ((fs.create n).inj ((hnames m hm).trans hi) (names_create fs n))
  simp [create, hne]

theorem apart_unlink (fs : FileSystem ν) (n : ν) : Apart n fs (fs.unlink n) where
  names m hm := by simp [unlink, hm]
  data _ _ _ _ := rfl

end FileSystem

end Inodes

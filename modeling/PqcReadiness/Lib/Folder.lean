import Mathlib.Data.Nat.Notation
import Mathlib.Logic.Function.Basic

/-!
# A directory on a file system

Names stand for files, and a file has its bytes and its mode, whatever names it has: a file that is
open stays what it is when its name is given to another.  `Folder` has the operations of a POSIX
system that programs build on to replace a file: creating a file under a name that does not exist,
appending to an open file, changing a mode, renaming over another name, and removing a name.
-/

namespace PqcReadiness.Lib

/-- A file: its bytes, and the permission bits of its mode. -/
structure Inode where
  content : List UInt8
  mode : BitVec 12
  deriving DecidableEq

/-- The names of a directory, the files by number, and how many files there have been. -/
structure Folder where
  names : String → Option ℕ
  files : ℕ → Inode
  count : ℕ

namespace Folder

variable (folder : Folder)

/-- The file that a name stands for. -/
def file? (name : String) : Option Inode := (folder.names name).map folder.files

/-- A new file, with nothing in it. -/
def create (name : String) (mode : BitVec 12) : Folder where
  names := Function.update folder.names name (some folder.count)
  files := Function.update folder.files folder.count ⟨[], mode⟩
  count := folder.count + 1

/-- More bytes at the end of a file. -/
def append (i : ℕ) (bytes : List UInt8) : Folder :=
  { folder with
    files := Function.update folder.files i
      { folder.files i with content := (folder.files i).content ++ bytes } }

/-- Another mode for a file. -/
def setMode (i : ℕ) (mode : BitVec 12) : Folder :=
  { folder with files := Function.update folder.files i { folder.files i with mode := mode } }

/-- A file gets another name, whatever that name stood for. -/
def rename (old new : String) : Folder :=
  match folder.names old with
  | none => folder
  | some i =>
      { folder with names := Function.update (Function.update folder.names old none) new (some i) }

/-- A name goes. -/
def remove (name : String) : Folder :=
  { folder with names := Function.update folder.names name none }

/-- Every name stands for a file that there is. -/
def Closed : Prop := ∀ name i, folder.names name = some i → i < folder.count

variable {folder} {name other old new : String} {i j : ℕ} {bytes : List UInt8} {mode : BitVec 12}

@[simp] theorem count_create : (folder.create name mode).count = folder.count + 1 := rfl

@[simp] theorem count_append : (folder.append i bytes).count = folder.count := rfl

@[simp] theorem count_setMode : (folder.setMode i mode).count = folder.count := rfl

@[simp] theorem count_remove : (folder.remove name).count = folder.count := rfl

@[simp] theorem names_append : (folder.append i bytes).names = folder.names := rfl

@[simp] theorem names_setMode : (folder.setMode i mode).names = folder.names := rfl

@[simp] theorem files_remove : (folder.remove name).files = folder.files := rfl

theorem names_create : (folder.create name mode).names other =
    if other = name then some folder.count else folder.names other := by
  simp [create, Function.update_apply]

theorem files_create : (folder.create name mode).files j =
    if j = folder.count then ⟨[], mode⟩ else folder.files j := by
  simp [create, Function.update_apply]

theorem files_append : (folder.append i bytes).files j =
    if j = i then { folder.files i with content := (folder.files i).content ++ bytes }
    else folder.files j := by
  simp [append, Function.update_apply]

theorem files_setMode : (folder.setMode i mode).files j =
    if j = i then { folder.files i with mode := mode } else folder.files j := by
  simp [setMode, Function.update_apply]

theorem names_remove : (folder.remove name).names other =
    if other = name then none else folder.names other := by
  simp [remove, Function.update_apply]

theorem files_append_of_ne (hne : j ≠ i) : (folder.append i bytes).files j = folder.files j := by
  rw [files_append, if_neg hne]

theorem files_setMode_of_ne (hne : j ≠ i) : (folder.setMode i mode).files j = folder.files j := by
  rw [files_setMode, if_neg hne]

theorem files_create_of_lt (hlt : j < folder.count) :
    (folder.create name mode).files j = folder.files j := by
  rw [files_create, if_neg (Nat.ne_of_lt hlt)]

/-- What renaming an existing file does. -/
theorem rename_of_some (hold : folder.names old = some i) :
    (folder.rename old new).files = folder.files ∧ (folder.rename old new).count = folder.count ∧
      ∀ other, (folder.rename old new).names other =
        if other = new then some i else if other = old then none else folder.names other := by
  rw [rename, hold]
  exact ⟨rfl, rfl, fun other => by simp [Function.update_apply]⟩

theorem Closed.create (hclosed : folder.Closed) (name : String) (mode : BitVec 12) :
    (folder.create name mode).Closed := by
  intro other j hother
  rw [names_create] at hother
  rw [count_create]
  split at hother
  · exact Option.some.inj hother ▸ Nat.lt_succ_self _
  · exact Nat.lt_succ_of_lt (hclosed other j hother)

theorem Closed.append (hclosed : folder.Closed) (i : ℕ) (bytes : List UInt8) :
    (folder.append i bytes).Closed := hclosed

theorem Closed.setMode (hclosed : folder.Closed) (i : ℕ) (mode : BitVec 12) :
    (folder.setMode i mode).Closed := hclosed

theorem Closed.remove (hclosed : folder.Closed) (name : String) : (folder.remove name).Closed := by
  intro other j hother
  rw [names_remove] at hother
  split at hother
  · cases hother
  · exact hclosed other j hother

theorem Closed.rename (hclosed : folder.Closed) (old new : String) :
    (folder.rename old new).Closed := by
  cases hold : folder.names old with
  | none =>
      rw [Folder.rename, hold]
      exact hclosed
  | some i =>
      obtain ⟨-, hcount, hnames⟩ := @rename_of_some folder old new i hold
      intro other j hother
      rw [hnames] at hother
      rw [hcount]
      split at hother
      · exact Option.some.inj hother ▸ hclosed old i hold
      · split at hother
        · cases hother
        · exact hclosed other j hother

end Folder

end PqcReadiness.Lib

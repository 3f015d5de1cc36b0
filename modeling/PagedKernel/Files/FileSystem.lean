import PagedKernel.Assoc
import PagedKernel.Word

/-! # The file system

A name leads to a file, and a file holds its contents. Taking a name away, or giving it new
contents, leaves the old file to those who have it open. -/

namespace PagedKernel

/-- A file, by its place among all files ever made. -/
abbrev FileId : Type := Nat

/-- Names, the contents of every file, and how many files are open. -/
structure FileSystem where
  names : Assoc String FileId := []
  files : List Bytes := []
  openHandles : Nat := 0
deriving DecidableEq, Repr

namespace FileSystem

def bytes (fs : FileSystem) (id : FileId) : Bytes := (fs.files[id]?).getD []

def contents? (fs : FileSystem) (name : String) : Option Bytes :=
  (fs.names.find? name).map fs.bytes

def exists? (fs : FileSystem) (name : String) : Bool := (fs.names.find? name).isSome

def insert (fs : FileSystem) (name : String) (data : Bytes) : FileSystem :=
  { fs with
    names := fs.names.insert name fs.files.length
    files := fs.files ++ [data] }

def remove? (fs : FileSystem) (name : String) : Option FileSystem :=
  (fs.names.find? name).map fun _ => { fs with names := fs.names.erase name }

/-- The file that a name leads to, made empty if there is none and `create` is set. The caller has
it open from now on. -/
def open? (fs : FileSystem) (name : String) (create : Bool) : Option (FileId × FileSystem) :=
  match fs.names.find? name with
  | some id => some (id, { fs with openHandles := fs.openHandles + 1 })
  | none =>
    if create then
      let made := fs.insert name []
      some (fs.files.length, { made with openHandles := fs.openHandles + 1 })
    else none

def closed (fs : FileSystem) : FileSystem := { fs with openHandles := fs.openHandles - 1 }

def setBytes (fs : FileSystem) (id : FileId) (data : Bytes) : FileSystem :=
  { fs with files := fs.files.set id data }

end FileSystem

def Bytes.slice (bs : Bytes) (position length : Nat) : Bytes := (bs.drop position).take length

/-- A byte string with `data` written over it at `position`; a gap is filled with zeros. -/
def Bytes.overwrite (bs : Bytes) (position : Nat) (data : Bytes) : Bytes :=
  bs.take position ++ List.replicate (position - bs.length) 0 ++ data ++
    bs.drop (position + data.length)

theorem Bytes.length_slice (bs : Bytes) (position length : Nat) :
    (bs.slice position length).length = min length (bs.length - position) := by
  simp [Bytes.slice]

theorem Bytes.length_overwrite (bs : Bytes) (position : Nat) (data : Bytes) :
    (bs.overwrite position data).length = max bs.length (position + data.length) := by
  simp only [Bytes.overwrite, List.length_append, List.length_take, List.length_replicate,
    List.length_drop]
  omega

end PagedKernel

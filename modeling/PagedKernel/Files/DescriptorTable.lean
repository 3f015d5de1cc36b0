import PagedKernel.Files.OpenFile

/-! # Descriptor tables

A process names its open files by descriptors. Descriptors 0 and 1 belong to the console, and once
closed they stay closed. The others are handed out again, the one free for the longest first. -/

namespace PagedKernel

structure DescriptorTable where
  slots : List (Option OpenFile)
  free : List Nat
deriving DecidableEq, Repr

namespace DescriptorTable

abbrev firstFree : Nat := 2

/-- How many of a row of slots have a descriptor. Descriptors are signed words, and the number of
slots is cut down to one. -/
def nameable (slots : Nat) : Nat := (Int32.ofNat slots).toInt.toNat

def create (capacity : Nat) : DescriptorTable where
  slots := some .stdin :: some .stdout :: List.replicate (capacity - firstFree) none
  free := List.range' firstFree (nameable (max capacity firstFree) - firstFree)

def capacity (t : DescriptorTable) : Nat := t.slots.length

def openCount (t : DescriptorTable) : Nat := t.slots.countP (·.isSome)

def index? (fd : Int) : Option Nat := if fd < 0 then none else some fd.toNat

def slot? (t : DescriptorTable) (i : Nat) : Option OpenFile := (t.slots[i]?).join

def find? (t : DescriptorTable) (fd : Int) : Option (Nat × OpenFile) :=
  (index? fd).bind fun i => (t.slot? i).map fun file => (i, file)

def setFile (t : DescriptorTable) (i : Nat) (file : OpenFile) : DescriptorTable :=
  { t with slots := t.slots.set i (some file) }

def place? (t : DescriptorTable) (file : OpenFile) : Option (Nat × DescriptorTable) :=
  match t.free with
  | [] => none
  | i :: rest => some (i, ⟨t.slots.set i (some file), rest⟩)

def vacate (t : DescriptorTable) (i : Nat) : DescriptorTable where
  slots := t.slots.set i none
  free := if firstFree ≤ i then t.free ++ [i] else t.free

@[simp] theorem capacity_create (n : Nat) : (create n).capacity = max n firstFree := by
  simp only [capacity, create, List.length_cons, List.length_replicate, firstFree]
  omega

end DescriptorTable

structure Desk where
  descriptors : DescriptorTable
  devices : Devices

namespace Desk

/-- Puts an open file under a free descriptor. If none is free, the file is closed. -/
def install (file : OpenFile) : EStateM (Stop Errno) Desk Nat := do
  let s ← get
  match s.descriptors.place? file with
  | some (i, descriptors) =>
    set { s with descriptors }
    if descriptors.capacity ≤ i then throw (.fault (.missingSlot i))
    return i
  | none =>
    set { s with devices := (file.close s.devices).2 }
    refuse .tooManyOpenFiles

def openFile (name : String) (create : Bool) : EStateM (Stop Errno) Desk Nat := do
  let s ← get
  match s.devices.open? name create with
  | none => refuse .noSuchEntry
  | some (file, devices) =>
    set { s with devices }
    install file

def file (fd : Int) : EStateM (Stop Errno) Desk (Nat × OpenFile) := do
  orRefuse .badFileDescriptor ((← get).descriptors.find? fd)

def onFile {α : Type} (i : Nat) (x : EStateM Errno Channel α) : EStateM (Stop Errno) Desk α := do
  let s ← get
  match s.descriptors.slot? i with
  | none => refuse .badFileDescriptor
  | some file =>
    match x ⟨file, s.devices⟩ with
    | .ok a c =>
      set { s with descriptors := s.descriptors.setFile i c.file, devices := c.devices }
      return a
    | .error e c =>
      set { s with descriptors := s.descriptors.setFile i c.file, devices := c.devices }
      refuse e

/-- Closes the file of a slot, if there is one, and tells whether there was. -/
def closeSlot (s : Desk) (i : Nat) : Bool × Desk :=
  match s.descriptors.slot? i with
  | none => (false, s)
  | some file => (true, ⟨s.descriptors.vacate i, (file.close s.devices).2⟩)

def close (fd : Int) : EStateM (Stop Errno) Desk Unit := do
  let s ← get
  match (DescriptorTable.index? fd).map s.closeSlot with
  | some (true, s) => set s
  | _ => refuse .badFileDescriptor

def closeSlots (s : Desk) : List Nat → Nat × Desk
  | [] => (0, s)
  | i :: rest =>
    let (closed, s) := s.closeSlot i
    let (count, s) := closeSlots s rest
    (closed.toNat + count, s)

def closeAll (s : Desk) : Nat × Desk :=
  s.closeSlots (List.range (DescriptorTable.nameable s.descriptors.capacity))

end Desk

end PagedKernel

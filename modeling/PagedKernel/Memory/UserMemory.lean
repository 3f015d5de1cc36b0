import PagedKernel.Memory.PageTable
import PagedKernel.Memory.Physical
import PagedKernel.Memory.Span
import PagedKernel.Stop

/-! # The memory of a program

An address space seen through its page table. A copy goes span by span: each span is translated,
moved, and noted in its entry; the first span that cannot be translated ends the copy. -/

namespace PagedKernel

/-- A page table with the memory that it maps into. -/
structure UserMemory where
  table : PageTable
  memory : Memory

inductive Obstacle where
  /-- The address could not be translated. -/
  | refused (address : Nat) (cause : Exception)
  /-- The address was translated to a frame that the memory does not have. -/
  | noFrame (frame : Nat)
deriving DecidableEq, Repr

def PageTable.translateNat (t : PageTable) (address : Nat) (access : Access) :
    Except Exception (PhysicalAddress × PageTable) :=
  match VirtualAddress.ofNat? address with
  | none => .error .addressError
  | some va => (t.translate va access).mapError MappingError.exception

namespace UserMemory

/-- What a copy out of a program's memory brought. -/
structure CopyOut where
  bytes : Bytes
  table : PageTable
  obstacle : Option Obstacle

structure CopyIn where
  count : Nat
  target : UserMemory
  obstacle : Option Obstacle

def copyOut (memory : Memory) : PageTable → List Span → CopyOut
  | table, [] => ⟨[], table, none⟩
  | table, span :: rest =>
    match table.translateNat span.start .read with
    | .error cause => ⟨[], table, some (.refused span.start cause)⟩
    | .ok (pa, table) =>
      match memory.read? pa span.length with
      | none => ⟨[], table, some (.noFrame pa.frame)⟩
      | some chunk =>
        let tail := copyOut memory table rest
        { tail with bytes := chunk ++ tail.bytes }

def copyIn : UserMemory → List Span → Bytes → CopyIn
  | m, [], _ => ⟨0, m, none⟩
  | m, span :: rest, data =>
    match m.table.translateNat span.start .write with
    | .error cause => ⟨0, m, some (.refused span.start cause)⟩
    | .ok (pa, table) =>
      match m.memory.write? pa (data.take span.length) with
      | none => ⟨0, { m with table }, some (.noFrame pa.frame)⟩
      | some (count, memory) =>
        let tail := copyIn ⟨table, memory⟩ rest (data.drop span.length)
        { tail with count := count + tail.count }

/-- How many of `length` bytes from an address lie in the pages. -/
def clamp (m : UserMemory) (address length : Nat) : Nat := min length (m.table.size - address)

def fetch {ε : Type} (address length : Nat) : EStateM (Stop ε) UserMemory Bytes := fun m =>
  let copy := copyOut m.memory m.table (Span.ofRange address (m.clamp address length))
  match copy.obstacle with
  | some (.noFrame f) => .error (.fault (.missingFrame f)) { m with table := copy.table }
  | _ => .ok copy.bytes { m with table := copy.table }

/-- Copies bytes from an address to the start of a buffer, as many as can be read. Tells how many,
and what the buffer holds then. -/
def readInto {ε : Type} (address : Nat) (buffer : Bytes) :
    EStateM (Stop ε) UserMemory (Nat × Bytes) := do
  let data ← fetch address buffer.length
  return (data.length, data ++ buffer.drop data.length)

def store {ε : Type} (address : Nat) (data : Bytes) : EStateM (Stop ε) UserMemory Nat := fun m =>
  let copy := copyIn m (Span.ofRange address (m.clamp address data.length)) data
  match copy.obstacle with
  | some (.noFrame f) => .error (.fault (.missingFrame f)) copy.target
  | _ => .ok copy.count copy.target

end UserMemory

end PagedKernel

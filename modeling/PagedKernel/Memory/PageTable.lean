import PagedKernel.Address
import PagedKernel.Exception

/-! # Page tables

A page table has one entry per page of an address space, in the order of the pages. An entry names
the frame that holds the page, says whether the page may be written, and notes its use. -/

namespace PagedKernel

inductive Access where
  | read
  | write
deriving DecidableEq, Repr

structure Flags where
  valid : Bool := false
  readOnly : Bool := false
  used : Bool := false
  dirty : Bool := false
deriving DecidableEq, Repr

namespace Flags

def toBits (f : Flags) : Nat :=
  f.valid.toNat + 2 * f.readOnly.toNat + 4 * f.used.toNat + 8 * f.dirty.toNat

def ofBits (n : Nat) : Flags := ⟨n.testBit 0, n.testBit 1, n.testBit 2, n.testBit 3⟩

def union (f g : Flags) : Flags :=
  ⟨f.valid || g.valid, f.readOnly || g.readOnly, f.used || g.used, f.dirty || g.dirty⟩

def diff (f g : Flags) : Flags :=
  ⟨f.valid && !g.valid, f.readOnly && !g.readOnly, f.used && !g.used, f.dirty && !g.dirty⟩

def touch (f : Flags) : Access → Flags
  | .read => { f with used := true }
  | .write => { f with used := true, dirty := true }

end Flags

structure Entry where
  vpn : Nat
  frame : Nat
  flags : Flags
deriving DecidableEq, Repr

inductive MappingError where
  | outOfRange
  | notValid
  | readOnly
deriving DecidableEq, Repr

namespace MappingError

def exception : MappingError → Exception
  | outOfRange => .addressError
  | notValid => .pageFault
  | readOnly => .readOnly

end MappingError

structure PageTable where
  entries : List Entry := []
deriving DecidableEq, Repr

namespace PageTable

def length (t : PageTable) : Nat := t.entries.length

def size (t : PageTable) : Nat := t.length * pageSize

def push (t : PageTable) (frame : Nat) (readOnly : Bool) : PageTable :=
  ⟨t.entries ++ [⟨t.length, frame, { valid := true, readOnly }⟩]⟩

def walk (t : PageTable) (va : VirtualAddress) : Except MappingError Entry :=
  match t.entries[va.page]? with
  | none => .error .outOfRange
  | some e => if e.flags.valid then .ok e else .error .notValid

def setEntry (t : PageTable) (page : Nat) (e : Entry) : PageTable := ⟨t.entries.set page e⟩

def adjust (t : PageTable) (va : VirtualAddress) (add remove : Flags) :
    Except MappingError (Entry × PageTable) :=
  (t.walk va).map fun e =>
    let e := { e with flags := (e.flags.union add).diff remove }
    (e, t.setEntry va.page e)

def Entry.permits (e : Entry) : Access → Bool
  | .read => true
  | .write => !e.flags.readOnly

/-- The physical address behind a virtual one. The entry notes the access. -/
def translate (t : PageTable) (va : VirtualAddress) (access : Access) :
    Except MappingError (PhysicalAddress × PageTable) :=
  match t.walk va with
  | .error e => .error e
  | .ok e =>
    if Entry.permits e access then
      .ok (.ofFrame e.frame va.offset, t.setEntry va.page { e with flags := e.flags.touch access })
    else .error .readOnly

/-- Whether an access to an address would go through. Nothing is noted. -/
def accessible (t : PageTable) (va : VirtualAddress) (access : Access) : Bool :=
  match t.walk va with
  | .ok e => Entry.permits e access
  | .error _ => false

/-- The frames of the valid entries, in the order of their pages. -/
def frames (t : PageTable) : List Nat := (t.entries.filter (·.flags.valid)).map (·.frame)

def pagesAccessible (t : PageTable) (access : Access) : (first count : Nat) → Bool
  | _, 0 => true
  | first, count + 1 =>
    (match VirtualAddress.ofNat? (first * pageSize) with
      | some va => t.accessible va access
      | none => false) && t.pagesAccessible access (first + 1) count

/-- Whether every page that the range from `start` to `stop` meets is accessible. An empty range
meets none. -/
def rangeAccessible (t : PageTable) (start stop : VirtualAddress) (access : Access) : Bool :=
  if stop.toNat ≤ start.toNat then true
  else t.pagesAccessible access start.page ((stop.toNat - 1) / pageSize + 1 - start.page)

/-- A pointer that a program passes: a positive register that points into its pages. -/
def pointer? (t : PageTable) (r : Int32) : Option VirtualAddress :=
  (VirtualAddress.ofRegister? r).filter fun va => 0 < va.toNat && va.page < t.length

end PageTable

end PagedKernel

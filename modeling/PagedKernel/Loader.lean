import PagedKernel.Image.Reader
import PagedKernel.Memory.AddressSpace
import PagedKernel.Memory.ArgumentArea
import PagedKernel.Registers

/-! # Loading programs

A loaded program has the pages of its sections, its stack, and one page with its arguments, in this
order and without gaps. Loading fails for the first of these reasons: there is no such file, it is
no image, a section leaves a gap, the arguments do not fit their page, memory is short. After a
failure nothing is left of the attempt. -/

namespace PagedKernel

namespace Section

/-- The first section that does not start where the pages before it end, if there is one. -/
def misplaced? (pages : Nat) : List Section → Option Section
  | [] => none
  | s :: rest => if s.firstPage = pages then misplaced? (pages + s.pages) rest else some s

def totalPages : List Section → Nat
  | [] => 0
  | s :: rest => s.pages + totalPages rest

end Section

namespace Loader

abbrev LoadM : Type → Type := EStateM (Stop LoadError) AddressSpace

def openImage (name : String) : LoadM Image := do
  let s ← get
  match s.machine.devices.open? name false with
  | none =>
    AddressSpace.report (.openFailed name)
    refuse (.cannotOpen name)
  | some (file, devices) =>
    let opening := Image.ofFile file devices
    modify fun s => { s with machine.devices := opening.devices }
    opening.accepted.forM fun sec => AddressSpace.report (.sectionAccepted file.name sec)
    match opening.outcome with
    | .ok image => return image
    | .error e => refuse (.malformed e)

def loadPages (image : Image) (index : Nat) (sec : Section) : (page count : Nat) → LoadM Image
  | _, 0 => pure image
  | page, count + 1 => do
    let s ← get
    match s.table.entries[sec.firstPage + page]? with
    | none => throw (.fault (.missingPage (sec.firstPage + page)))
    | some entry =>
      if s.machine.memory.size ≤ entry.frame then throw (.fault (.missingFrame entry.frame))
      match Image.loadPage s.machine.devices index page image with
      | .error e _ => refuse (.malformed (.io e))
      | .ok frame image =>
        set { s with machine.memory := s.machine.memory.setFrame entry.frame frame }
        loadPages image index sec (page + 1) count

def loadSections (image : Image) (index : Nat) : List Section → LoadM Image
  | [] => pure image
  | sec :: rest => do
    let image ← loadPages image index sec 0 sec.pages
    AddressSpace.report (.sectionLoaded sec)
    loadSections image (index + 1) rest

/-- The regions of a program: its sections, then its stack and the page for its arguments. -/
def regions (sections : List Section) (stackPages : Nat) : List Region :=
  sections.map (fun sec => ⟨sec.pages, sec.readOnly⟩) ++ [⟨stackPages + 1, false⟩]

def initialRegisters (entry stackTop argc argv : Nat) : Registers :=
  (((((Registers.cleared.set .pc (Int32.ofNat entry)).set .nextPc (Int32.ofNat entry + 4)).set
    .sp (Int32.ofNat stackTop)).set .a0 (Int32.ofNat argc)).set .a1 (Int32.ofNat argv))

def loadImage (image : Image) (args : List String) : LoadM Registers := do
  match Section.misplaced? 0 image.sections with
  | some sec =>
    AddressSpace.report .fragmented
    refuse (.fragmented sec.name)
  | none => pure ()
  let sectionPages := Section.totalPages image.sections
  let stackPages := (← get).machine.config.stackPages
  let bytes := ArgumentArea.sizeOf args
  if pageSize < bytes then
    AddressSpace.report .argumentsTooLong
    refuse (.argumentsTooLong bytes)
  let total := sectionPages + stackPages + 1
  let _ ← mapStop (Stop.mapRefusal fun _ => .outOfMemory total)
    (AddressSpace.map (regions image.sections stackPages))
  let image ← loadSections image 0 image.sections
  let argv ← orRefuse (.outOfMemory total) (VirtualAddress.ofNat? ((total - 1) * pageSize))
  let argv ← mapStop (Stop.mapRefusal fun _ => .argumentsTooLong bytes)
    (AddressSpace.onMemory ((ArgumentArea.start argv args.length).finish args))
  return initialRegisters image.entry ((sectionPages + stackPages) * pageSize) args.length
    argv.toNat

def closeImage (image : Image) : LoadM Unit :=
  modify fun s => { s with machine.devices := (image.close s.machine.devices).2 }

/-- Opens a program, fills the address space, and closes the program's file in any case. -/
def fill (name : String) (args : List String) : LoadM Registers := do
  let image ← openImage name
  fun s =>
    match loadImage image args s with
    | .ok registers s => (do closeImage image; return registers : LoadM Registers) s
    | .error stop s => (do closeImage image; throw stop : LoadM Registers) s

/-- Loads a program into an address space of its own. The frames of an attempt that failed go back
to the pool. -/
def load (name : String) (args : List String) :
    EStateM (Stop LoadError) Machine (PageTable × Registers) := fun machine =>
  match fill name args { machine } with
  | .ok registers s => .ok (s.table, registers) s.machine
  | .error stop s =>
    match AddressSpace.release s with
    | .ok _ s => .error stop s.machine
    | .error stop s => .error stop s.machine

end Loader

end PagedKernel

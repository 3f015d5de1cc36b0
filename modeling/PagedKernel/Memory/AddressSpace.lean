import PagedKernel.Machine

/-! # Giving pages to an address space and taking them back

Pages are mapped at once: all the frames that regions need are taken from the pool, or none is. A
page starts as zeros, whatever its frame held before. -/

namespace PagedKernel

structure AddressSpace where
  machine : Machine
  table : PageTable := {}

structure Region where
  pages : Nat
  readOnly : Bool
deriving DecidableEq, Repr

def Region.total : List Region → Nat
  | [] => 0
  | r :: rest => r.pages + total rest

def Region.protections (regions : List Region) : List Bool :=
  regions.flatMap fun r => List.replicate r.pages r.readOnly

namespace AddressSpace

variable {ε : Type}

def onMemory {α : Type} (x : EStateM (Stop ε) UserMemory α) : EStateM (Stop ε) AddressSpace α :=
  zoom (fun s => ⟨s.table, s.machine.memory⟩)
    (fun s m => { s with table := m.table, machine.memory := m.memory }) x

def report (e : Event) : EStateM (Stop ε) AddressSpace Unit :=
  modify fun s => { s with machine := s.machine.report e }

/-- Appends pages, each in a frame of its own that is cleared first. -/
def pushPages : List Nat → List Bool → EStateM (Stop ε) AddressSpace Unit
  | frame :: frames, readOnly :: rest => do
    if (← get).machine.memory.size ≤ frame then throw (.fault (.missingFrame frame))
    modify fun s => { s with
      machine.memory := s.machine.memory.setFrame frame Frame.zero
      table := s.table.push frame readOnly }
    pushPages frames rest
  | _, _ => pure ()

def map (regions : List Region) : EStateM (Stop Errno) AddressSpace Nat := do
  let total := Region.total regions
  let pool := (← get).machine.pool
  match pool.acquireMany? total with
  | none =>
    report (.framesShort total pool.available)
    refuse .noMemory
  | some (frames, pool) =>
    modify fun s => { s with machine.pool := pool }
    match frames.find? fun frame => decide (pool.capacity ≤ frame) with
    | some frame => throw (.fault (.unmarkedFrame frame))
    | none => pure ()
    pushPages frames (Region.protections regions)
    return total

/-- Takes all pages away, gives the frames of the valid ones back, and tells how many. -/
def release : EStateM (Stop ε) AddressSpace Nat := do
  let s ← get
  let frames := s.table.frames
  let (pool, fault?) := s.machine.pool.releaseAll frames
  set { s with table := {}, machine.pool := pool }
  match fault? with
  | none => return frames.length
  | some fault => throw (.fault fault)

end AddressSpace

end PagedKernel

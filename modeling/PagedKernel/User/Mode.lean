import PagedKernel.Kernel.Dispatch

/-! # User mode

What a program does on the processor: it moves data through its page table, grows its stack, and
issues system calls. A move that hits an obstacle raises an exception, which ends the process. -/

namespace PagedKernel.Turn

variable {α : Type}

def raise (cause : Exception) (address : Nat) : Call α := do
  modifySelf fun p =>
    { p with registers := p.registers.set .badVaddr (Int32.ofNat address) }
  exception cause
  throw (.ended (-1))

def raiseObstacle : Obstacle → Call α
  | .refused address cause => raise cause address
  | .noFrame frame => throw (.fault (.missingFrame frame))

def loadBytes (address length : Nat) : Call Bytes := do
  let t ← get
  let copy := UserMemory.copyOut t.kernel.machine.memory t.self.table (Span.ofRange address length)
  modifySelf fun p => { p with table := copy.table }
  match copy.obstacle with
  | none => return copy.bytes
  | some obstacle => raiseObstacle obstacle

def storeBytes (address : Nat) (data : Bytes) : Call Unit := do
  let t ← get
  let copy := UserMemory.copyIn ⟨t.self.table, t.kernel.machine.memory⟩
    (Span.ofRange address data.length) data
  set { t with self.table := copy.target.table, kernel.machine.memory := copy.target.memory }
  match copy.obstacle with
  | none => pure ()
  | some obstacle => raiseObstacle obstacle

def loadWord (address : UInt32) : Call UInt32 := return wordOfBytes (← loadBytes address.toNat 4)

def storeWord (address w : UInt32) : Call Unit := storeBytes address.toNat (wordBytes w)

def loadUntilZero (address : Nat) : (fuel : Nat) → Call Bytes
  | 0 => pure []
  | fuel + 1 => do
    match ← loadBytes address 1 with
    | [] => return []
    | b :: _ =>
      if b = 0 then return []
      let rest ← loadUntilZero (address + 1) fuel
      return b :: rest

/-- Loads the string at an address. It ends inside the pages, or the load does. -/
def loadString (address : UInt32) : Call String := do
  let size := (← get).self.table.size
  let data ← loadUntilZero address.toNat (size - address.toNat + 1)
  return Text.ofUtf8Lossy data

def loadStrings (address : UInt32) : (count : Nat) → Call (List String)
  | 0 => pure []
  | count + 1 => do
    let s ← loadString (← loadWord address)
    let rest ← loadStrings (address + 4) count
    return s :: rest

def stackPointer : Call UInt32 := return ((← get).self.registers.get .sp).toUInt32

/-- Takes room for `length` bytes from the stack, on a word border, and gives its address. -/
def reserve (length : Nat) : Call UInt32 := do
  let sp := ((← stackPointer) - UInt32.ofNat length) &&& ~~~3
  modifySelf fun p => { p with registers := p.registers.set .sp sp.toInt32 }
  return sp

def pushBytes (data : Bytes) : Call UInt32 := do
  let address ← reserve data.length
  storeBytes address.toNat data
  return address

def pushString (s : String) : Call UInt32 := pushBytes (ArgumentArea.terminated s)

/-- Pushes words, the first at the lowest address. -/
def pushWords (words : List UInt32) : Call UInt32 := pushBytes (words.flatMap wordBytes)

def trap (number : Int32) (args : List Int32) : Call Int32 := do
  if 4 < args.length then throw (.fault .tooManyArguments)
  if (← get).kernel.machine.poweredOff then throw (.ended (-1))
  let q : CallRequest :=
    ⟨number, args.getD 0 0, args.getD 1 0, args.getD 2 0, args.getD 3 0⟩
  modifySelf fun p => { p with registers := p.registers.withRequest q }
  syscall
  return (← get).self.registers.get .v0

/-- The kernel once the thread of the process is gone. A process that did not come to its end while
the machine runs takes the machine down with it. -/
def withoutThread (t : Turn) : Kernel :=
  if t.self.phase = .running ∧ t.kernel.machine.poweredOff = false then
    (t.kernel.report (.threadDied t.self.pid)).halt
  else t.kernel

/-- Lets go of a process. Its frames go back, as far as the pool takes them; its files stay open. -/
def drop (t : Turn) : Kernel × Option Fault :=
  let kernel := t.withoutThread
  match AddressSpace.release (ε := Errno) ⟨kernel.machine, t.self.table⟩ with
  | .ok _ s => ({ kernel with machine := s.machine }, none)
  | .error stop s => ({ kernel with machine := s.machine }, stop.fault?)

def outcome (t : Turn) : Stop Errno → Outcome
  | .fault f => .died f
  | .refused _ | .ended _ | .waiting => .ended t.self.status

def bury (t : Turn) (stop : Stop Errno) : Kernel := t.drop.1.settle t.self.ordinal (t.outcome stop)

end PagedKernel.Turn

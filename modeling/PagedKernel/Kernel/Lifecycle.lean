import PagedKernel.Kernel.Turn

/-! # System calls on processes

A process that ends first gives back what it has: its files are closed and its frames return to the
pool. Only then does anyone learn how it ended. -/

namespace PagedKernel.Turn

variable {α : Type}

def releaseResources : Call (Nat × Nat) := do
  let closed ← onDesk fun s => let (closed, s) := s.closeAll; .ok closed s
  let released ← onSpace AddressSpace.release
  return (closed, released)

/-- Switches the machine off and ends, if the process is the root; nothing otherwise. -/
def halt : Call Nat := do
  let pid := (← get).self.pid
  if pid ≠ .root then
    report (.haltIgnored pid)
    return 0
  let (closed, released) ← releaseResources
  report (.halted pid closed released)
  modifySelf fun p => { p with phase := .exited }
  modifyKernel Kernel.halt
  throw (.ended 0)

/-- Ends the process. Without a status it did not end by itself. -/
def exit (status : Option Int32) : Call α := do
  let (closed, released) ← releaseResources
  modifySelf fun p => { p with status }
  let self := (← get).self
  modifySelf fun p => { p with children := [] }
  modifyKernel fun k => k.disown self.children
  report (.exited self.pid status closed released)
  modifySelf fun p => { p with phase := .exited }
  modifyKernel Kernel.processExited
  throw (.ended (status.getD (-1)))

def stringArguments (address : Nat) : (count : Nat) → Call (List String)
  | 0 => pure []
  | count + 1 => do
    let pointer ← onMemory (UserMemory.getWord address)
    let arg ← stringArgument pointer.toInt32
    let rest ← stringArguments (address + ArgumentArea.pointerSize) count
    return arg :: rest

def execArguments (q : CallRequest) : Call (String × List String) := do
  let most ← maxStringLength
  let nameVa ← onMemory (UserMemory.pointer q.arg1)
  if q.arg2 < 0 then refuse .invalidArgument
  let argc := q.arg2.toInt.toNat
  let argv ← onMemory (UserMemory.pointer q.arg3)
  let name ← onMemory (UserMemory.getString nameVa.toNat most)
  onMemory (UserMemory.checkRange argv.toNat (argc * ArgumentArea.pointerSize) .read)
  let args ← stringArguments argv.toNat argc
  return (name, args)

def exec (q : CallRequest) : Call Nat := do
  let (name, args) ← execArguments q
  let pid ← onKernel (Kernel.spawn name args)
  modifySelf fun p => { p with children := pid.insert p.children }
  return pid.toNat

/-- Waits for a child, and learns its status if it exited by itself. The fault of a child that died
passes on to its parent. -/
def join (q : CallRequest) : Call Nat := do
  let va ← onMemory (UserMemory.pointer q.arg2)
  let pid : Pid := ⟨q.arg1⟩
  if pid ∉ (← get).self.children then refuse .noChild
  modifySelf fun p => { p with children := p.children.erase pid }
  let record ← onKernel fun k =>
    match k.takeRecord? pid with
    | some (record, k) => .ok record k
    | none => .error (.refused .noChild) k
  match record.outcome with
  | none => throw .waiting
  | some (.died fault) => throw (.fault fault)
  | some (.ended none) => return 0
  | some (.ended (some status)) =>
    let _ ← onMemory (UserMemory.putWord va.toNat status.toUInt32)
    return 1

end PagedKernel.Turn

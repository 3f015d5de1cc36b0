import PagedKernel.Thread
import PagedKernel.User.Schedule

/-! # A process served by hand

A process can be loaded without being created by the kernel: it has no record, no one waits for it,
and its calls are made for it one by one. Its children are processes like any others. -/

namespace PagedKernel

/-- A process served by hand, and the schedule that its children run on. -/
structure Bench where
  schedule : Schedule
  self : Process

namespace Bench

variable {α : Type}

def load (programs : Assoc Int32 Program) (pid : Pid) (root : String) (args : List String) :
    EStateM (Stop LoadError) Kernel Bench := do
  let (table, registers) ← zoom Kernel.machine (fun k machine => { k with machine })
    (Loader.load root args)
  let kernel ← get
  let capacity := kernel.machine.config.maxOpenFiles
  let turn := Turn.standalone kernel pid capacity table registers
  return ⟨{ kernel := turn.kernel, programs }, turn.self⟩

def onTurn (x : Call α) : EStateM (Stop Errno) Bench α :=
  zoom (fun b => ⟨b.schedule.kernel, b.self⟩)
    (fun b t => { b with schedule.kernel := t.kernel, self := t.self }) x

def run (fuel : Nat) (pid : Pid) : EStateM (Stop Errno) Bench Bool := fun b =>
  let (ran, schedule) := b.schedule.runReady fuel pid
  .ok ran { b with schedule }

def exec (fuel : Nat) (later : Bool) (q : CallRequest) : EStateM (Stop Errno) Bench Nat := do
  let pid ← onTurn (Turn.exec q)
  if !later then
    let _ ← run fuel ⟨Int32.ofNat pid⟩
  return pid

def join (fuel : Nat) (q : CallRequest) : EStateM (Stop Errno) Bench Nat := do
  let _ ← run fuel ⟨q.arg1⟩
  onTurn (Turn.join q)

/-- Serves a system call on the registers of the process, and gives them back. A child that is
created runs at once, and one that is waited for runs first. -/
def trap (fuel : Nat) (q : CallRequest) : EStateM (Stop Errno) Bench Registers := do
  let call := CallNumber.decode q.number
  if call.toOption = some .join then
    let _ ← run fuel ⟨q.arg1⟩
  onTurn do
    Turn.modifySelf fun p => { p with registers := p.registers.withRequest q }
    Turn.syscall
  let registers := (← get).self.registers
  if call.toOption = some .exec then
    let _ ← run fuel ⟨registers.get .v0⟩
  return registers

def exception (cause : Exception) : EStateM (Stop Errno) Bench Unit :=
  onTurn do
    Turn.modifySelf fun p => { p with registers := .cleared }
    Turn.exception cause

def takeRecord (pid : Pid) : EStateM (Stop Errno) Bench (Option Record) :=
  onTurn do
    match (← get).kernel.takeRecord? pid with
    | none => return none
    | some (record, kernel) =>
      Turn.modifyKernel fun _ => kernel
      return some record

/-- Lets go of the process, whose thread came to the given end, and runs those that are still ready,
in `fuel` steps. The end is another one if the frames of the process cannot go back. -/
def leave (fuel : Nat) (last : ThreadEnd) (b : Bench) : ThreadEnd × Schedule :=
  let (kernel, fault?) := Turn.drop ⟨b.schedule.kernel, b.self⟩
  (last.afterFault fault?, { b.schedule with kernel }.runAll fuel)

end Bench

end PagedKernel

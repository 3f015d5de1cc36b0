import PagedKernel.Kernel.Process
import PagedKernel.Loader
import PagedKernel.Thread

/-! # The kernel

The kernel numbers processes, keeps a record of each that can still be waited for, and holds those
that are ready and have not been given the processor yet. -/

namespace PagedKernel

inductive Outcome where
  | ended (status : Option Int32)
  | died (fault : Fault)
deriving DecidableEq, Repr

/-- What is known of a process to those that wait for it. -/
structure Record where
  name : String
  /-- Which process it is about. A later process with the same number gets a record of its own. -/
  ordinal : Nat
  outcome : Option Outcome := none
deriving DecidableEq, Repr

def Record.settle (ordinal : Nat) (outcome : Outcome) (r : Record) : Record :=
  if r.ordinal = ordinal then { r with outcome := some outcome } else r

@[simp] theorem Record.ordinal_settle (ordinal : Nat) (outcome : Outcome) (r : Record) :
    (r.settle ordinal outcome).ordinal = r.ordinal := by
  unfold settle
  split <;> rfl

/-- The kernel on its machine. -/
structure Kernel where
  machine : Machine
  records : Assoc Pid Record := []
  /-- The ordinal of the next process that gets a number. -/
  nextOrdinal : Nat := 1
  /-- Processes that have not exited; the counter wraps around. -/
  live : UInt64 := 0
  ready : List Process := []

namespace Kernel

def boot (config : Config) (devices : Devices) : Kernel := { machine := .build config devices }

def report (k : Kernel) (e : Event) : Kernel := { k with machine := k.machine.report e }

def halt (k : Kernel) : Kernel := { k with machine := k.machine.halt }

def nextPid (k : Kernel) : Pid := .nth k.nextOrdinal

def threadName (name : String) (pid : Pid) : String := s!"{name}[{pid.number.toInt}]"

def enroll (k : Kernel) (name : String) (table : PageTable) (registers : Registers) :
    Pid × Kernel :=
  let pid := k.nextPid
  let process : Process :=
    { pid, table, registers
      ordinal := k.nextOrdinal
      descriptors := .create k.machine.config.maxOpenFiles }
  let entered : Kernel :=
    { k with
      nextOrdinal := k.nextOrdinal + 1
      live := k.live + 1
      ready := k.ready ++ [process]
      records := k.records.insert pid { name := threadName name pid, ordinal := k.nextOrdinal } }
  (pid, entered.report (.started pid name table.length))

/-- Gives a process up whose thread does not start. It has its number by then; its frames go back. -/
def abandon (k : Kernel) (table : PageTable) : Kernel :=
  let numbered : Kernel := { k with nextOrdinal := k.nextOrdinal + 1 }
  match AddressSpace.release (ε := Errno) ⟨k.machine, table⟩ with
  | .ok _ s | .error _ s => { numbered with machine := s.machine }

/-- Creates a process that runs a program. The host may refuse it a thread. One whose name the host
cannot hold stays counted, though it does not run. -/
def spawn (name : String) (args : List String) : EStateM (Stop Errno) Kernel Pid := fun k =>
  match Loader.load name args k.machine with
  | .ok (table, registers) machine =>
    let thread := threadName name k.nextPid
    let k := { k with machine }
    if Thread.nameOk thread then
      match machine.devices.refusals.find? k.nextOrdinal with
      | none =>
        let (pid, k) := k.enroll name table registers
        .ok pid k
      | some reason =>
        .error (.refused .noMemory) ((k.abandon table).report (.threadRefused thread reason))
    else .error (.fault .badThreadName) { k.abandon table with live := k.live + 1 }
  | .error (.refused e) machine =>
    .error (.refused e.errno) ({ k with machine }.report (.execFailed name e))
  | .error stop machine => .error (stop.mapRefusal LoadError.errno) { k with machine }

def takeRecord? (k : Kernel) (pid : Pid) : Option (Record × Kernel) :=
  (k.records.find? pid).map fun record => (record, { k with records := k.records.erase pid })

/-- Takes the records of processes out; nobody will wait for them. -/
def disown (k : Kernel) (children : List Pid) : Kernel :=
  let orphans := children.filterMap k.records.find?
  let records := children.foldl Assoc.erase k.records
  orphans.foldl (fun k record => k.report (.orphanReaped record.name)) { k with records }

/-- Counts a process off. The last one switches the machine off. -/
def processExited (k : Kernel) : Kernel :=
  let counted := { k with live := k.live - 1 }
  if k.live = 1 then (counted.report .lastExited).halt else counted

def settle (k : Kernel) (ordinal : Nat) (outcome : Outcome) : Kernel :=
  { k with records := k.records.mapValues (Record.settle ordinal outcome) }

def takeReady? (k : Kernel) (ordinal : Nat) : Option (Process × Kernel) :=
  (k.ready.find? (·.ordinal = ordinal)).map fun process =>
    (process, { k with ready := k.ready.filter fun p => !decide (p.ordinal = ordinal) })

def nextReady? (k : Kernel) : Option Nat := k.ready.head?.map (·.ordinal)

def readyWith? (k : Kernel) (pid : Pid) : Option Nat :=
  (k.ready.find? (·.pid = pid)).map (·.ordinal)

end Kernel

end PagedKernel

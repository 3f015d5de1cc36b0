import PagedKernel.User.Script

/-! # Running processes one at a time

A stack of processes has been given the processor; the one on top runs, and the others wait until it
has ended. A process that is ready is put on top when it is joined, when it was just created, when a
program asks for it, or when the stack is empty, the one created first before the others. -/

namespace PagedKernel

/-- A process that has been given the processor, and how far its program has come. What the current
instruction yielded is held back while another process runs. -/
structure Activation where
  process : Process
  argc : Int32
  argv : UInt32
  index : Nat := 0
  rest : List Instruction
  status : Operand
  vars : Kept := []
  yielded : Option Reply := none

inductive TraceEvent where
  | step (pid : Pid) (index : Nat) (reply : Reply)
  | ended (pid : Pid)
deriving DecidableEq

/-- The kernel with the processes that have been given the processor. Programs are known by the
address of their first instruction. The newest event of the trace comes first. -/
structure Schedule where
  kernel : Kernel
  programs : Assoc Int32 Program := []
  stack : List Activation := []
  trace : List TraceEvent := []

namespace Schedule

def bury (s : Schedule) (t : Turn) (stop : Stop Errno) : Schedule :=
  { s with
    kernel := t.bury stop
    trace := .ended t.self.pid :: s.trace }

def endWith (s : Schedule) (process : Process) (last : Call Unit) : Schedule :=
  match last ⟨s.kernel, process⟩ with
  | .ok _ t => s.bury t (.ended 0)
  | .error stop t => s.bury t stop

/-- Gives a process the processor. A process without a program there ends with an exception, and one
with an empty program ends without a status. -/
def start (s : Schedule) (process : Process) : Schedule :=
  let process := { process with phase := .running }
  let pc := process.registers.get .pc
  match s.programs.find? pc with
  | some (.script rest status) =>
    let argc := process.registers.get .a0
    let argv := (process.registers.get .a1).toUInt32
    { s with stack := { process, argc, argv, rest, status } :: s.stack }
  | some .empty => s.endWith process (Turn.exit none)
  | none =>
    s.endWith { process with registers := process.registers.set .badVaddr pc }
      (Turn.exception .illegalInstruction)

def startReady? (s : Schedule) (ordinal : Nat) : Option Schedule :=
  (s.kernel.takeReady? ordinal).map fun (process, kernel) => { s with kernel }.start process

def startWith? (s : Schedule) (pid : Pid) : Option Schedule :=
  (s.kernel.readyWith? pid).bind s.startReady?

/-- The process that an action wants to have ended, if it names one, and what the action yields if
it does no more than that. -/
def awaited? (vars : Kept) : Action → Option (Pid × Option Reply)
  | .run pid => some (⟨pid.signed vars⟩, some (.flag true))
  | .syscall number args _ =>
    if number.signed vars = 3 then
      some (⟨(args.map (Operand.signed vars)).headD 0⟩, none)
    else none
  | _ => none

def created? (vars : Kept) : Action → Reply → Option Pid
  | .syscall number _ false, .number n =>
    if number.signed vars = 2 ∧ 0 < n then some ⟨Int32.ofInt n⟩ else none
  | _, _ => none

/-- Runs the current instruction of the process on top, and then the child that it created. -/
def perform (s : Schedule) (a : Activation) (below : List Activation) (i : Instruction) :
    Option Schedule :=
  match Turn.perform a.vars a.argc a.argv i.action ⟨s.kernel, a.process⟩ with
  | .error .waiting _ => none
  | .error stop t => some ({ s with stack := below }.bury t stop)
  | .ok reply t =>
    let s := { s with
      kernel := t.kernel
      stack := { a with process := t.self, yielded := some reply } :: below }
    some (((created? a.vars i.action reply).bind s.startWith?).getD s)

/-- Lets the program on top see what its current instruction yielded, and moves it on. -/
def deliver (s : Schedule) (a : Activation) (below : List Activation) (i : Instruction)
    (rest : List Instruction) (reply : Reply) : Schedule :=
  let vars := match i.keep, reply with
    | some name, .number n => a.vars.insert name n
    | _, _ => a.vars
  { s with
    stack := { a with vars, rest, index := a.index + 1, yielded := none } :: below
    trace := .step a.process.pid a.index reply :: s.trace }

def finish (status : Int32) : Call Unit := do
  let _ ← Turn.trap 1 [status]
  Turn.exit none

/-- One step of the process on top. There is none if the stack is empty, or if the process waits for
one that cannot run. -/
def step? (s : Schedule) : Option Schedule :=
  match s.stack with
  | [] => none
  | a :: below =>
    match a.rest with
    | [] => some ({ s with stack := below }.endWith a.process (finish (a.status.signed a.vars)))
    | i :: rest =>
      match a.yielded with
      | some reply => some (s.deliver a below i rest reply)
      | none =>
        let started := (awaited? a.vars i.action).bind fun (pid, reply) =>
          { s with stack := { a with yielded := reply } :: below }.startWith? pid
        match started with
        | some s => some s
        | none => s.perform a below i

def run : (fuel : Nat) → Schedule → Schedule
  | 0, s => s
  | fuel + 1, s =>
    match s.step? with
    | some s => run fuel s
    | none => s

/-- One step of the process on top, or the start of the process that has been ready the longest. -/
def advance? (s : Schedule) : Option Schedule :=
  match s.step? with
  | some s => some s
  | none => if s.stack.isEmpty then s.kernel.nextReady?.bind s.startReady? else none

def runAll : (fuel : Nat) → Schedule → Schedule
  | 0, s => s
  | fuel + 1, s =>
    match s.advance? with
    | some s => runAll fuel s
    | none => s

/-- A new machine whose root process was created, or the reason why it could not be. -/
def boot (config : Config) (devices : Devices) (programs : Assoc Int32 Program) (root : String)
    (args : List String) : Except (Stop Errno) Pid × Schedule :=
  match Kernel.spawn root args (.boot config devices) with
  | .ok pid kernel => (.ok pid, { kernel, programs })
  | .error stop kernel => (.error stop, { kernel, programs })

def events (s : Schedule) : List TraceEvent := s.trace.reverse

def runReady (fuel : Nat) (s : Schedule) (pid : Pid) : Bool × Schedule :=
  match s.startWith? pid with
  | some s => (true, s.run fuel)
  | none => (false, s)

end Schedule

end PagedKernel

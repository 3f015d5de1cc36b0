import PagedKernel.Exception
import PagedKernel.LoadError
import PagedKernel.Pid

/-! # The event log

What the kernel reports of its work: each event has a level and a text. -/

namespace PagedKernel

inductive Level where
  | error
  | warn
  | info
  | debug
  | trace
deriving DecidableEq, Repr

inductive Event where
  | built (physPages stackPages : Nat)
  | halting
  | framesShort (requested available : Nat)
  | sectionAccepted (file : String) (sec : Section)
  | openFailed (name : String)
  | fragmented
  | argumentsTooLong
  | sectionLoaded (sec : Section)
  | execFailed (name : String) (error : LoadError)
  | started (pid : Pid) (name : String) (pages : Nat)
  | callFailed (number : Int32) (error : Errno)
  | unknownCall (pid : Pid) (number : Int32)
  | unexpected (pid : Pid) (cause : Exception) (address pc : Int32)
  | haltIgnored (pid : Pid)
  | halted (pid : Pid) (closed released : Nat)
  | exited (pid : Pid) (status : Option Int32) (closed released : Nat)
  | orphanReaped (thread : String)
  | lastExited
  | threadDied (pid : Pid)
  | threadRefused (thread reason : String)
deriving DecidableEq, Repr

namespace Event

def level : Event → Level
  | threadDied _ => .error
  | unknownCall .. | unexpected .. | threadRefused .. => .warn
  | built .. | halting | execFailed .. | started .. | halted .. | exited .. | lastExited => .info
  | framesShort .. | sectionAccepted .. | openFailed _ | fragmented | argumentsTooLong
  | sectionLoaded _ | haltIgnored _ | orphanReaped _ => .debug
  | callFailed .. => .trace

def statusText : Option Int32 → String
  | none => "None"
  | some status => s!"Some({status.toInt})"

def text : Event → String
  | built physPages stackPages =>
    s!"machine: {physPages} physical pages, {stackPages} stack pages per process."
  | halting => "Machine halting!"
  | framesShort requested available =>
    s!"frame_alloc: {requested} frames requested, {available} free"
  | sectionAccepted file sec =>
    s!"coff {file}: section {sec.name} at {Text.hex sec.address}, {sec.pages} pages"
  | openFailed name => s!"loader: open failed for {name}"
  | fragmented => "loader: fragmented executable"
  | argumentsTooLong => "loader: arguments too long"
  | sectionLoaded sec => s!"loader: initialized section {sec.name} ({sec.pages} pages)"
  | execFailed name error => s!"exec {name}: {error.message}"
  | started pid name pages => s!"process {pid.number.toInt} started: {name} ({pages} pages)"
  | callFailed number error => s!"syscall {number.toInt} failed: {error.message}"
  | unknownCall pid number =>
    s!"process {pid.number.toInt}: {Errno.noSuchSyscall.message} ({number.toInt})"
  | unexpected pid cause address pc =>
    let place := Text.hexWord address
    let counter := Text.hexWord pc
    s!"process {pid.number.toInt}: unexpected {cause.name} at {place} (pc {counter})"
  | haltIgnored pid => s!"process {pid.number.toInt}: halt ignored"
  | halted pid closed released =>
    s!"process {pid.number.toInt}: halt, {closed} files closed, {released} frames released"
  | exited pid status closed released =>
    let outcome := statusText status
    s!"process {pid.number.toInt} exited ({outcome}): {closed} files closed, {released} frames released"
  | orphanReaped thread => s!"reaping orphan {thread}"
  | lastExited => "last process exited"
  | threadDied pid => s!"process {pid.number.toInt}: kernel thread died"
  | threadRefused thread reason => s!"thread {thread}: spawn failed: {reason}"

end Event

end PagedKernel

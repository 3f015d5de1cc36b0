import PagedKernel.Stop

/-! # Kernel threads -/

namespace PagedKernel

inductive ThreadEnd where
  /-- The work returns. -/
  | returned
  /-- The thread exits from within its work, however deep in it. -/
  | exited (code : Int32)
  /-- The work breaks a rule. -/
  | died (fault : Fault)
deriving DecidableEq, Repr

namespace ThreadEnd

def join : ThreadEnd → Except Fault Int32
  | returned => .ok 0
  | exited code => .ok code
  | died fault => .error fault

/-- The end of a thread whose task does not handle exceptions. -/
def unhandledException : ThreadEnd := exited (-1)

/-- The end that a stop brings to the thread in which it happens. A refusal and a wait bring none. -/
def ofStop? {ε : Type} : Stop ε → Option ThreadEnd
  | .ended code => some (exited code)
  | .fault f => some (died f)
  | .refused _ | .waiting => none

/-- The end of a thread that meets a fault when it lets go of what it has. One that did not return
had its end before. -/
def afterFault : ThreadEnd → Option Fault → ThreadEnd
  | returned, some f => died f
  | last, _ => last

end ThreadEnd

structure Thread where
  name : String
  last : ThreadEnd
deriving DecidableEq, Repr

/-- Whether the host can hold a name. It keeps names up to a zero character, so no name has one. -/
def Thread.nameOk (name : String) : Bool := !name.toList.contains '\x00'

def Thread.start (name : String) (last : ThreadEnd) : Except Fault Thread :=
  if Thread.nameOk name then .ok ⟨name, last⟩ else .error .badThreadName

end PagedKernel

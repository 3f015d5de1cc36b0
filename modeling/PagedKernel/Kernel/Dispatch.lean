import PagedKernel.Kernel.FileCalls
import PagedKernel.Kernel.Lifecycle

/-! # Serving system calls and exceptions -/

namespace PagedKernel

inductive CallNumber where
  | halt
  | exit
  | exec
  | join
  | create
  | openFile
  | read
  | write
  | close
  | unlink
deriving DecidableEq, Repr

namespace CallNumber

def all : List CallNumber := [halt, exit, exec, join, create, openFile, read, write, close, unlink]

def decode (n : Int32) : Except Errno CallNumber :=
  if n < 0 then .error .noSuchSyscall
  else match all[n.toInt.toNat]? with
    | some call => .ok call
    | none => .error .noSuchSyscall

end CallNumber

namespace Turn

def serve (call : CallNumber) (q : CallRequest) : Call Nat :=
  match call with
  | .halt => halt
  | .exit => exit (some q.arg1)
  | .exec => exec q
  | .join => join q
  | .create => createCall q
  | .openFile => openCall q
  | .read => readCall q
  | .write => writeCall q
  | .close => closeCall q
  | .unlink => unlinkCall q

/-- Serves the call that the registers state, and answers it there. A process with a number that
stands for no call is ended. -/
def syscall : Call Unit := do
  let self := (← get).self
  let q := self.registers.request
  match CallNumber.decode q.number with
  | .error _ =>
    report (.unknownCall self.pid q.number)
    exit none
  | .ok call =>
    let result ← attempt (serve call q)
    match result with
    | .ok _ => pure ()
    | .error e => report (.callFailed q.number e)
    modifySelf fun p => { p with registers := p.registers.answer result }

def exception (cause : Exception) : Call Unit := do
  let self := (← get).self
  report (.unexpected self.pid cause (self.registers.get .badVaddr) (self.registers.get .pc))
  exit none

end Turn

end PagedKernel

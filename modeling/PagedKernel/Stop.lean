import PagedKernel.Errno

/-! # How a computation of the kernel stops short

A request can be refused, the thread that serves it can end, it can have to wait for another
process, or the kernel itself can break one of its rules. The state reached by then is kept in each
case, so the computations are state machines that report how they stopped. -/

namespace PagedKernel

inductive Fault where
  /-- A frame was given back that the pool already held. -/
  | doubleRelease (frame : Nat)
  /-- A frame was given back that the pool never had. -/
  | foreignFrame (frame : Nat)
  /-- The pool has no mark for a frame in its queue. -/
  | unmarkedFrame (frame : Nat)
  /-- A page table names a frame that the memory does not have. -/
  | missingFrame (frame : Nat)
  /-- A page that was just mapped is not in its table. -/
  | missingPage (page : Nat)
  /-- A descriptor that is free has no slot in its table. -/
  | missingSlot (slot : Nat)
  /-- A system call was issued with more arguments than registers can carry. -/
  | tooManyArguments
  /-- A thread was to be started under a name that the host cannot hold. -/
  | badThreadName
  /-- The program itself gave up. -/
  | programDied
deriving DecidableEq, Repr

namespace Fault

def poolMessage? : Fault → Option String
  | doubleRelease frame => some s!"frame_alloc: double release of frame {frame}"
  | foreignFrame frame => some s!"frame_alloc: frame {frame} is not part of the pool"
  | _ => none

end Fault

/-- How a computation stops short; `ε` says why a request may be refused. -/
inductive Stop (ε : Type) where
  | refused (error : ε)
  | ended (code : Int32)
  | waiting
  | fault (fault : Fault)
deriving DecidableEq, Repr

def Stop.fault? {ε : Type} : Stop ε → Option Fault
  | .fault f => some f
  | refused _ | ended _ | waiting => none

def Stop.mapRefusal {ε δ : Type} (f : ε → δ) : Stop ε → Stop δ
  | refused error => refused (f error)
  | ended code => ended code
  | waiting => waiting
  | fault f => .fault f

/-- Runs a computation on a part of the state. What it did to the part is kept if it stops. -/
def zoom {ε σ τ α : Type} (view : σ → τ) (update : σ → τ → σ) (x : EStateM ε τ α) :
    EStateM ε σ α := fun s =>
  match x (view s) with
  | .ok a t => .ok a (update s t)
  | .error e t => .error e (update s t)

def mapStop {ε δ σ α : Type} (f : ε → δ) (x : EStateM ε σ α) : EStateM δ σ α := fun s =>
  match x s with
  | .ok a t => .ok a t
  | .error e t => .error (f e) t

/-- The refusal as a value: a computation that is refused goes on from the state it reached. -/
def attempt {ε σ α : Type} (x : EStateM (Stop ε) σ α) : EStateM (Stop ε) σ (Except ε α) := fun s =>
  match x s with
  | .ok a t => .ok (.ok a) t
  | .error (.refused e) t => .ok (.error e) t
  | .error stop t => .error stop t

def refuse {ε σ α : Type} (e : ε) : EStateM (Stop ε) σ α := throw (.refused e)

def orRefuse {ε σ α : Type} (e : ε) : Option α → EStateM (Stop ε) σ α
  | some a => pure a
  | none => refuse e

section

variable {ε σ α : Type}

@[simp] theorem refuse_apply (e : ε) (s : σ) :
    (refuse e : EStateM (Stop ε) σ α) s = .error (.refused e) s := rfl

@[simp] theorem orRefuse_some (e : ε) (a : α) :
    (orRefuse e (some a) : EStateM (Stop ε) σ α) = pure a := rfl

@[simp] theorem orRefuse_none (e : ε) :
    (orRefuse e none : EStateM (Stop ε) σ α) = refuse e := rfl

end

end PagedKernel

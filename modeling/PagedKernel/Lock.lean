/-! # Locks

A lock guards a value. It is held by one guard at most, and a guard has to be unlocked: to drop it
is a mistake, after which the lock is free all the same. -/

namespace PagedKernel

/-- A guarded value, and whether the guard is out. -/
structure Lock (α : Type) where
  value : α
  held : Bool := false
deriving DecidableEq, Repr

namespace Lock

variable {α : Type}

def tryAcquire? (l : Lock α) : Option (Lock α) :=
  if l.held then none else some { l with held := true }

def get? (l : Lock α) : Option α := if l.held then some l.value else none

def set? (l : Lock α) (a : α) : Option (Lock α) :=
  if l.held then some { l with value := a } else none

def release? (l : Lock α) : Option (Lock α) :=
  if l.held then some { l with held := false } else none

def update (l : Lock α) (f : α → α) : Lock α :=
  (do ((← l.tryAcquire?).set? (f l.value)) >>= release?).getD l

def updateMany (l : Lock α) (f : α → α) : (count : Nat) → Lock α
  | 0 => l
  | count + 1 => (l.update f).updateMany f count

end Lock

end PagedKernel

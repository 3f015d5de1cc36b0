import PagedKernel.Address

/-! # Numbers of processes

Processes get their numbers in order. A number has 32 bits, so that after the largest number comes
the smallest, and 2^32 processes later a number is given again. What tells processes apart for good
is the ordinal: how many numbers were given up to theirs. -/

namespace PagedKernel

structure Pid where
  number : Int32
deriving DecidableEq, Repr, Inhabited

namespace Pid

def nth (ordinal : Nat) : Pid := ⟨Int32.ofNat ordinal⟩

theorem nth_succ (n : Nat) : nth (n + 1) = ⟨(nth n).number + 1⟩ := by simp [nth, Int32.ofNat_add]

/-- The first number. A process that has it may switch the machine off. -/
def root : Pid := nth 1

/-- The number as a call returns it: a negative one wraps around. -/
def toNat (pid : Pid) : Nat := (pid.number.toInt % counterRange).toNat

def insert (pid : Pid) : List Pid → List Pid
  | [] => [pid]
  | c :: rest =>
    if pid.number < c.number then pid :: c :: rest
    else if c = pid then c :: rest
    else c :: insert pid rest

end Pid

end PagedKernel

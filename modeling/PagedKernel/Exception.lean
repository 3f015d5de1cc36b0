/-! # Exceptions of the processor -/

namespace PagedKernel

inductive Exception where
  | syscall
  | pageFault
  | tlbMiss
  | readOnly
  | busError
  | addressError
  | overflow
  | illegalInstruction
deriving DecidableEq, Repr, Inhabited

namespace Exception

def all : List Exception :=
  [syscall, pageFault, tlbMiss, readOnly, busError, addressError, overflow, illegalInstruction]

def code : Exception → Nat
  | syscall => 0
  | pageFault => 1
  | tlbMiss => 2
  | readOnly => 3
  | busError => 4
  | addressError => 5
  | overflow => 6
  | illegalInstruction => 7

def ofCode? (n : Nat) : Option Exception := all[n]?

def name : Exception → String
  | syscall => "Syscall"
  | pageFault => "PageFault"
  | tlbMiss => "TlbMiss"
  | readOnly => "ReadOnly"
  | busError => "BusError"
  | addressError => "AddressError"
  | overflow => "Overflow"
  | illegalInstruction => "IllegalInstruction"

end Exception

end PagedKernel

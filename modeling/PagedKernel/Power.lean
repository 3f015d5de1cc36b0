/-! # The power switch -/

namespace PagedKernel

/-- Whether the machine is off, and how many threads came to wait for that since it was last
switched. -/
structure PowerSwitch where
  isOff : Bool := false
  waiters : Nat := 0
deriving DecidableEq, Repr

namespace PowerSwitch

def wait (p : PowerSwitch) : PowerSwitch := { p with waiters := p.waiters + 1 }

def off (p : PowerSwitch) : Nat × PowerSwitch := (p.waiters, ⟨true, 0⟩)

end PowerSwitch

end PagedKernel

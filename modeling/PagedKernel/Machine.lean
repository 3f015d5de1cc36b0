import PagedKernel.Config
import PagedKernel.Event
import PagedKernel.Memory.Accessors
import PagedKernel.Memory.FramePool
import PagedKernel.Power

/-! # The machine

Memory, the frames that are free, the devices, the power switch, and the log. -/

namespace PagedKernel

/-- A machine. The newest event of the log comes first. -/
structure Machine where
  config : Config
  memory : Memory
  pool : FramePool
  devices : Devices := {}
  power : PowerSwitch := {}
  log : List Event := []

namespace Machine

def report (m : Machine) (e : Event) : Machine := { m with log := e :: m.log }

def build (config : Config) (devices : Devices) : Machine :=
  let memory := Memory.zeroed config.physPages
  { config, devices, memory
    pool := FramePool.full memory.size
    log := [.built config.physPages config.stackPages] }

def poweredOff (m : Machine) : Bool := m.power.isOff

def halt (m : Machine) : Machine :=
  let switched := { m with power := m.power.off.2 }
  if m.power.isOff then switched else switched.report .halting

def openHandles (m : Machine) : Nat := m.devices.files.openHandles

end Machine

end PagedKernel

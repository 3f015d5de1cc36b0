import PagedKernel.Event
import PagedKernel.Files.DescriptorTable
import PagedKernel.Memory.PageTable
import PagedKernel.Registers

/-! # Processes -/

namespace PagedKernel

/-- How far a process has come. -/
inductive Phase where
  | created
  | running
  | exited
deriving DecidableEq, Repr

/-- All that a process has for itself. -/
structure Process where
  pid : Pid
  /-- The how-manieth it is of those that the kernel gave a number; 0 if it has none from there. -/
  ordinal : Nat := 0
  table : PageTable := {}
  descriptors : DescriptorTable
  registers : Registers := .cleared
  /-- Processes that it created and did not wait for yet, by their numbers and in the order of
  these. -/
  children : List Pid := []
  phase : Phase := .created
  /-- What it passed to exit. -/
  status : Option Int32 := none
deriving DecidableEq

end PagedKernel

import PagedKernel.Kernel.Basic

/-! # The turn of a process

While a process has the processor, the kernel works for it: on the process itself and on what all
processes share. The other processes stand aside and are no part of the state. -/

namespace PagedKernel

structure Turn where
  kernel : Kernel
  self : Process

abbrev Call : Type → Type := EStateM (Stop Errno) Turn

namespace Turn

variable {α : Type}

/-- The turn of a process that was made without the kernel: it has no record, and is not counted. -/
def standalone (kernel : Kernel) (pid : Pid) (capacity : Nat) (table : PageTable)
    (registers : Registers) : Turn :=
  ⟨kernel, { pid, table, registers, descriptors := .create capacity }⟩

def onMemory (x : EStateM (Stop Errno) UserMemory α) : Call α :=
  zoom (fun t => ⟨t.self.table, t.kernel.machine.memory⟩)
    (fun t m => { t with self.table := m.table, kernel.machine.memory := m.memory }) x

def onSpace (x : EStateM (Stop Errno) AddressSpace α) : Call α :=
  zoom (fun t => ⟨t.kernel.machine, t.self.table⟩)
    (fun t s => { t with self.table := s.table, kernel.machine := s.machine }) x

def onDesk (x : EStateM (Stop Errno) Desk α) : Call α :=
  zoom (fun t => ⟨t.self.descriptors, t.kernel.machine.devices⟩)
    (fun t s => { t with self.descriptors := s.descriptors, kernel.machine.devices := s.devices }) x

def onKernel (x : EStateM (Stop Errno) Kernel α) : Call α :=
  zoom Turn.kernel (fun t kernel => { t with kernel }) x

def modifyKernel (f : Kernel → Kernel) : Call Unit := modify fun t => { t with kernel := f t.kernel }

def modifySelf (f : Process → Process) : Call Unit := modify fun t => { t with self := f t.self }

def report (e : Event) : Call Unit := modifyKernel (·.report e)

def maxStringLength : Call Nat := return (← get).kernel.machine.config.maxStringLength

def stringArgument (r : Int32) : Call String := do
  let most ← maxStringLength
  onMemory do
    let va ← UserMemory.pointer r
    UserMemory.getString va.toNat most

end Turn

end PagedKernel

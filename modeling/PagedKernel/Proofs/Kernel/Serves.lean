import PagedKernel.Proofs.Kernel.Spawn
import PagedKernel.Proofs.Memory.Edited

/-!
# Serving a process

While the kernel serves a call that neither ends the process nor creates one, it touches nothing but
the process and its memory. Every such computation is put together from work on the memory and work
on the descriptors.
-/

namespace PagedKernel

abbrev untouched : Nat → Prop := fun _ => False

namespace Kernel

variable {k k' k'' : Kernel}

/-- Neither the frames nor the processes are any different. -/
structure SameProcesses (k k' : Kernel) : Prop where
  pool : k'.machine.pool = k.machine.pool
  memory : k'.machine.memory = k.machine.memory
  ready : k'.ready = k.ready
  nextOrdinal : k'.nextOrdinal = k.nextOrdinal
  records : ∀ e ∈ k'.records, e ∈ k.records

theorem SameProcesses.refl (k : Kernel) : SameProcesses k k := ⟨rfl, rfl, rfl, rfl, fun _ he => he⟩

theorem SameProcesses.trans (h : SameProcesses k k') (h' : SameProcesses k' k'') :
    SameProcesses k k'' where
  pool := h'.pool.trans h.pool
  memory := h'.memory.trans h.memory
  ready := h'.ready.trans h.ready
  nextOrdinal := h'.nextOrdinal.trans h.nextOrdinal
  records e he := h.records e (h'.records e he)

theorem sameProcesses_report (k : Kernel) (e : Event) : SameProcesses k (k.report e) :=
  ⟨rfl, rfl, rfl, rfl, fun _ he => he⟩

theorem halt_eq (k : Kernel) : ∃ power log,
    k.halt = { k with machine := { k.machine with power, log } } ∧ power.isOff = true := by
  unfold Kernel.halt Machine.halt
  dsimp only
  split
  · exact ⟨_, _, rfl, rfl⟩
  · exact ⟨_, _, rfl, rfl⟩

theorem sameProcesses_halt (k : Kernel) : SameProcesses k k.halt := by
  obtain ⟨power, log, hhalt, -⟩ := k.halt_eq
  rw [hhalt]
  exact ⟨rfl, rfl, rfl, rfl, fun _ he => he⟩

theorem processExited_eq (k : Kernel) : ∃ power log,
    k.processExited =
      { k with live := k.live - 1, machine := { k.machine with power, log } } ∧
    power.isOff = (k.machine.poweredOff || k.live == 1) := by
  unfold processExited
  dsimp only
  split
  · next hlast =>
    obtain ⟨power, log, hhalt, hoff⟩ :=
      halt_eq (Kernel.report { k with live := k.live - 1 } .lastExited)
    exact ⟨power, log, hhalt, by simp [hoff, hlast]⟩
  · next hmore => exact ⟨k.machine.power, k.machine.log, rfl, by simp [hmore, Machine.poweredOff]⟩

theorem sameProcesses_processExited (k : Kernel) : SameProcesses k k.processExited := by
  obtain ⟨power, log, hexited, -⟩ := k.processExited_eq
  rw [hexited]
  exact ⟨rfl, rfl, rfl, rfl, fun _ he => he⟩

private theorem foldl_report_eq (k : Kernel) (records : List Record) : ∃ log,
    records.foldl (fun k record => k.report (.orphanReaped record.name)) k =
      { k with machine := { k.machine with log } } := by
  induction records generalizing k with
  | nil => exact ⟨k.machine.log, rfl⟩
  | cons record rest ih =>
    obtain ⟨log, hrest⟩ := ih (k.report (.orphanReaped record.name))
    exact ⟨log, hrest⟩

theorem disown_eq (k : Kernel) (children : List Pid) : ∃ log, k.disown children =
    { k with records := children.foldl Assoc.erase k.records, machine := { k.machine with log } } :=
  foldl_report_eq { k with records := children.foldl Assoc.erase k.records } _

theorem sameProcesses_disown (k : Kernel) (children : List Pid) :
    SameProcesses k (k.disown children) := by
  obtain ⟨log, hdisown⟩ := k.disown_eq children
  rw [hdisown]
  exact ⟨rfl, rfl, rfl, rfl, fun _ he => Assoc.mem_of_mem_foldl_erase he⟩

end Kernel

namespace Turn

open UserMemory

variable {α β : Type} {t t' t'' : Turn} {others : List Process} {touched touched' : Nat → Prop}
variable {x : Call α} {f : α → Call β} {ok : α → Prop} {ok' : β → Prop}

/-- The process has moved on, and nothing else has but the bytes that are touched, the devices and
the records of those that were waited for. -/
structure Keeps (touched : Nat → Prop) (t t' : Turn) : Prop where
  pid : t'.self.pid = t.self.pid
  ordinal : t'.self.ordinal = t.self.ordinal
  registers : t'.self.registers = t.self.registers
  children : ∀ c ∈ t'.self.children, c ∈ t.self.children
  descriptors : t.self.descriptors.InRange → t'.self.descriptors.InRange
  pool : t'.kernel.machine.pool = t.kernel.machine.pool
  ready : t'.kernel.ready = t.kernel.ready
  nextOrdinal : t'.kernel.nextOrdinal = t.kernel.nextOrdinal
  records : ∀ e ∈ t'.kernel.records, e ∈ t.kernel.records
  edited : Edited touched t.memory t'.memory

theorem Keeps.refl (t : Turn) : Keeps touched t t where
  pid := rfl
  ordinal := rfl
  registers := rfl
  children _ hc := hc
  descriptors h := h
  pool := rfl
  ready := rfl
  nextOrdinal := rfl
  records _ he := he
  edited := Edited.refl _

theorem Keeps.trans (h : Keeps touched t t') (h' : Keeps touched t' t'') : Keeps touched t t'' where
  pid := h'.pid.trans h.pid
  ordinal := h'.ordinal.trans h.ordinal
  registers := h'.registers.trans h.registers
  children c hc := h.children c (h'.children c hc)
  descriptors hd := h'.descriptors (h.descriptors hd)
  pool := h'.pool.trans h.pool
  ready := h'.ready.trans h.ready
  nextOrdinal := h'.nextOrdinal.trans h.nextOrdinal
  records e he := h.records e (h'.records e he)
  edited := h.edited.trans h'.edited

theorem Keeps.mono (h : Keeps touched t t') (ht : ∀ a, touched a → touched' a) :
    Keeps touched' t t' :=
  { h with edited := h.edited.mono ht }

theorem Keeps.mapped (h : Keeps touched t t') : t'.self.table.mapped = t.self.table.mapped :=
  PageTable.mapped_congr h.edited.mapping

theorem Keeps.sound (h : Keeps touched t t') (hs : t.Sound others) : t'.Sound others := by
  have hsize : t'.kernel.machine.memory.size = t.kernel.machine.memory.size := h.edited.size
  refine hs.replace h.ordinal (h.descriptors hs.inRange) ?_ h.ready ?_ ?_ h.records
  · intro e he hc
    exact hs.younger _ Sound.self_mem e (h.records e he) (h.children _ hc)
  · rw [h.pool, hsize, h.mapped]
    exact hs.held
  · exact Nat.le_of_eq h.nextOrdinal.symm

theorem Keeps.spares (h : Keeps touched t t') (hs : t.Sound others) : Spares others t t' where
  sound := h.sound hs
  pid := h.pid
  ordinal := h.ordinal
  ready := ⟨[], by rw [List.append_nil, h.ready]⟩
  frames q hq f hf := h.edited.foreign f (hs.apart hq hf)
  records e he := Or.inl (h.records e he)

theorem keeps_of_sameProcesses (hk : t.kernel.SameProcesses t'.kernel) (hpid : t'.self.pid = t.self.pid)
    (hordinal : t'.self.ordinal = t.self.ordinal)
    (hregisters : t'.self.registers = t.self.registers) (htable : t'.self.table = t.self.table)
    (hdescriptors : t'.self.descriptors = t.self.descriptors)
    (hchildren : ∀ c ∈ t'.self.children, c ∈ t.self.children) : Keeps touched t t' where
  pid := hpid
  ordinal := hordinal
  registers := hregisters
  children := hchildren
  descriptors hd := by rwa [hdescriptors]
  pool := hk.pool
  ready := hk.ready
  nextOrdinal := hk.nextOrdinal
  records := hk.records
  edited := by
    have hmemory : t'.memory = t.memory := by
      simp only [Turn.memory, htable, hk.memory]
    rw [hmemory]
    exact Edited.refl _

def desk (t : Turn) : Desk := ⟨t.self.descriptors, t.kernel.machine.devices⟩

def put (t : Turn) (m : UserMemory) (s : Desk) : Turn where
  kernel := { t.kernel with
    machine := { t.kernel.machine with memory := m.memory, devices := s.devices } }
  self := { t.self with table := m.table, descriptors := s.descriptors }

/-- The process has worked on its memory and on its files, and all else is as it was. -/
structure Stays (touched : Nat → Prop) (t t' : Turn) : Prop where
  frame : t' = t.put t'.memory t'.desk
  filesKept : t.desk.FilesKept t'.desk
  edited : Edited touched t.memory t'.memory

theorem Stays.refl (t : Turn) : Stays touched t t := ⟨rfl, Desk.FilesKept.refl _, Edited.refl _⟩

theorem Stays.trans (h : Stays touched t t') (h' : Stays touched t' t'') :
    Stays touched t t'' where
  frame := by
    have hframe := h'.frame
    rw [h.frame] at hframe
    exact hframe
  filesKept := h.filesKept.trans h'.filesKept
  edited := h.edited.trans h'.edited

theorem Stays.congr {β : Type} (h : Stays touched t t') (f : Turn → β)
    (hf : ∀ m s, f (t.put m s) = f t) : f t' = f t := by
  rw [h.frame]
  exact hf _ _

theorem Stays.keeps (h : Stays touched t t') : Keeps touched t t' where
  pid := h.congr (·.self.pid) fun _ _ => rfl
  ordinal := h.congr (·.self.ordinal) fun _ _ => rfl
  registers := h.congr (·.self.registers) fun _ _ => rfl
  children c hc := by
    rwa [h.congr (·.self.children) fun _ _ => rfl] at hc
  descriptors := h.filesKept.inRange
  pool := h.congr (·.kernel.machine.pool) fun _ _ => rfl
  ready := h.congr (·.kernel.ready) fun _ _ => rfl
  nextOrdinal := h.congr (·.kernel.nextOrdinal) fun _ _ => rfl
  records e he := by
    rwa [h.congr (·.kernel.records) fun _ _ => rfl] at he
  edited := h.edited

instance : Lasting (Turn.Sound · others) (Stays touched) where
  refl _ := Stays.refl _
  trans := Stays.trans
  keeps h := h.keeps.sound

/-- Whatever others are running, the computation is work on what the process has, and touches none
but the given bytes. -/
abbrev Serves (others : List Process) (touched : Nat → Prop) (x : Call α) (ok : α → Prop) : Prop :=
  Obeys (Turn.Sound · others) (Stays touched) x ok

theorem stays_of_edited {m : UserMemory} (h : Edited touched t.memory m) :
    Stays touched t { t with self.table := m.table, kernel.machine.memory := m.memory } :=
  ⟨rfl, Desk.FilesKept.refl _, h⟩

theorem serves_onMemory {x : EStateM (Stop Errno) UserMemory α} (hx : Edits touched x ok) :
    Serves others touched (onMemory x) ok := by
  intro t hs
  unfold onMemory
  rw [ensures_zoom]
  apply (hx t.memory hs.framed).mono
  · rintro a m ⟨hedited, ha⟩
    exact ⟨stays_of_edited hedited, ha⟩
  · rintro stop m ⟨hedited, hstop⟩
    exact ⟨stays_of_edited hedited, hstop⟩

/-- The process has looked at its memory, and all else is as it was. -/
def Looks (t t' : Turn) : Prop := ∃ seen, t' = { t with self.table := t.self.table.marked seen }

theorem looks_of_peeked {m : UserMemory} (h : Peeked t.memory m) :
    Looks t { t with self.table := m.table, kernel.machine.memory := m.memory } := by
  obtain ⟨seen, rfl⟩ := h
  exact ⟨seen, rfl⟩

theorem Looks.refl (t : Turn) : Looks t t := looks_of_peeked (Peeked.refl t.memory)

theorem Looks.trans (h : Looks t t') (h' : Looks t' t'') : Looks t t'' := by
  obtain ⟨seen, rfl⟩ := h
  obtain ⟨seen', rfl⟩ := h'
  exact ⟨_, by rw [PageTable.marked_marked]⟩

theorem Looks.stays (h : Looks t t') : Stays touched t t' := by
  obtain ⟨seen, rfl⟩ := h
  exact stays_of_edited (Peeked.edited ⟨seen, rfl⟩)

instance : Lasting (Turn.Sound · others) Looks where
  refl _ := Looks.refl _
  trans := Looks.trans
  keeps h := (show Stays untouched _ _ from h.stays).keeps.sound

abbrev Reads (others : List Process) (x : Call α) (ok : α → Prop) : Prop :=
  Obeys (Turn.Sound · others) Looks x ok

theorem Reads.serves (hx : Reads others x ok) : Serves others touched x ok :=
  hx.mono (fun _ _ h => h.stays) fun _ ha => ha

theorem reads_onMemory {x : EStateM (Stop Errno) UserMemory α} (hx : Peeks x ok) :
    Reads others (onMemory x) ok := by
  intro t hs
  unfold onMemory
  rw [ensures_zoom]
  apply (hx t.memory hs.framed).mono
  · rintro a m ⟨hpeeked, ha⟩
    exact ⟨looks_of_peeked hpeeked, ha⟩
  · rintro stop m ⟨hpeeked, hstop⟩
    exact ⟨looks_of_peeked hpeeked, hstop⟩

theorem stays_of_filesKept {s : Desk} (h : t.desk.FilesKept s) : Stays touched t
    { t with self.descriptors := s.descriptors, kernel.machine.devices := s.devices } :=
  ⟨rfl, h, Edited.refl _⟩

theorem serves_onDesk {x : EStateM (Stop Errno) Desk α} (hx : Desk.KeepsFiles x ok) :
    Serves others touched (onDesk x) ok := by
  intro t hs
  unfold onDesk
  rw [ensures_zoom]
  apply (hx t.desk hs.inRange).mono
  · rintro a s ⟨htends, ha⟩
    exact ⟨stays_of_filesKept htends, ha⟩
  · rintro stop s ⟨htends, hstop⟩
    exact ⟨stays_of_filesKept htends, hstop⟩

end Turn

end PagedKernel

import PagedKernel.Proofs.Kernel.Serves

/-!
# What becomes of processes

In its turn a process works on what it has, creates a child, takes leave of a child that it waited
for, or ends. Nothing else becomes of any process, and frames and open files change hands only then.
-/

namespace PagedKernel

/-- Something that becomes of a process, which is named by its ordinal. -/
inductive Happening where
  | created (parent child : Nat)
  | reaped (parent child : Nat)
  /-- The host refused the thread of a process, which did not come to be. -/
  | unstarted (ordinal : Nat)
  /-- A process exited with a status, or was ended by the kernel without one. -/
  | exited (ordinal : Nat) (status : Option Int32)
  /-- The root switched the machine off. -/
  | halted (root : Process)
  /-- The thread of a process is gone, and the process had not come to its end. -/
  | lost (process : Process)
deriving DecidableEq

namespace Kernel

private theorem abides_report (k : Kernel) (e : Event) : Abides k (k.report e) :=
  ⟨rfl, rfl, rfl, rfl, .refl _⟩

variable {k k' k'' : Kernel} {p : Process}

/-- Whoever is newly ready comes after all that were there. -/
structure AddsReadyLast (k k' : Kernel) : Prop where
  nextOrdinal : k.nextOrdinal ≤ k'.nextOrdinal
  ready : ∀ q ∈ k'.ready, q ∈ k.ready ∨ k.nextOrdinal ≤ q.ordinal

theorem addsReadyLast_of_ready_eq (hnext : k.nextOrdinal ≤ k'.nextOrdinal)
    (hready : k'.ready = k.ready) :
    AddsReadyLast k k' := ⟨hnext, fun _ hq => Or.inl (hready ▸ hq)⟩

theorem addsReadyLast_of_eq (hnext : k'.nextOrdinal = k.nextOrdinal) (hready : k'.ready = k.ready) :
    AddsReadyLast k k' := addsReadyLast_of_ready_eq (Nat.le_of_eq hnext.symm) hready

theorem AddsReadyLast.trans (h : AddsReadyLast k k') (h' : AddsReadyLast k' k'') :
    AddsReadyLast k k'' where
  nextOrdinal := Nat.le_trans h.nextOrdinal h'.nextOrdinal
  ready q hq := by
    rcases h'.ready q hq with hold | hnew
    · exact h.ready q hold
    · exact Or.inr (Nat.le_trans h.nextOrdinal hnew)

theorem TakesUp.addsReadyLast (h : TakesUp k k' p) : AddsReadyLast k k' where
  nextOrdinal := by
    rw [h.nextOrdinal]
    exact Nat.le_succ _
  ready q hq := by
    rw [h.ready] at hq
    rcases List.mem_append.1 hq with hold | hnew
    · exact Or.inl hold
    · rw [List.mem_singleton.1 hnew, h.ordinal]
      exact Or.inr (Nat.le_refl _)

end Kernel

theorem PageTable.frames_congr {t t' : PageTable} (h : t'.mapping = t.mapping) :
    t'.frames = t.frames := by
  have hbare : ∀ t : PageTable,
      t.frames = (t.mapping.filter (·.flags.valid)).map (·.frame) := by
    intro t
    simp [PageTable.frames, PageTable.mapping, List.filter_map, Function.comp_def]
  rw [hbare, h, ← hbare]

namespace Turn

open Kernel

variable {t t' t'' : Turn} {touched : Nat → Prop}

/-- The process has worked on its memory and its files, and nothing has become of any process. -/
structure Works (t t' : Turn) : Prop extends Kernel.Abides t.kernel t'.kernel where
  nextOrdinal : t'.kernel.nextOrdinal = t.kernel.nextOrdinal
  live : t'.kernel.live = t.kernel.live
  pid : t'.self.pid = t.self.pid
  ordinal : t'.self.ordinal = t.self.ordinal
  children : t'.self.children = t.self.children
  phase : t'.self.phase = t.self.phase
  mapping : t'.self.table.mapping = t.self.table.mapping
  filesKept : t.desk.FilesKept t'.desk

theorem Works.refl (t : Turn) : Works t t :=
  ⟨Kernel.Abides.refl _, rfl, rfl, rfl, rfl, rfl, rfl, rfl, Desk.FilesKept.refl _⟩

theorem Works.trans (h : Works t t') (h' : Works t' t'') : Works t t'' where
  toAbides := h.toAbides.trans h'.toAbides
  nextOrdinal := h'.nextOrdinal.trans h.nextOrdinal
  live := h'.live.trans h.live
  pid := h'.pid.trans h.pid
  ordinal := h'.ordinal.trans h.ordinal
  children := h'.children.trans h.children
  phase := h'.phase.trans h.phase
  mapping := h'.mapping.trans h.mapping
  filesKept := h.filesKept.trans h'.filesKept

theorem Stays.works (h : Stays touched t t') : Works t t' where
  records := h.congr (·.kernel.records) fun _ _ => rfl
  ready := h.congr (·.kernel.ready) fun _ _ => rfl
  power := h.congr (·.kernel.machine.power) fun _ _ => rfl
  size := h.edited.size
  queue := .of_eq (h.congr (·.kernel.machine.pool.queue) fun _ _ => rfl)
  nextOrdinal := h.congr (·.kernel.nextOrdinal) fun _ _ => rfl
  live := h.congr (·.kernel.live) fun _ _ => rfl
  pid := h.congr (·.self.pid) fun _ _ => rfl
  ordinal := h.congr (·.self.ordinal) fun _ _ => rfl
  children := h.congr (·.self.children) fun _ _ => rfl
  phase := h.congr (·.self.phase) fun _ _ => rfl
  mapping := h.edited.mapping
  filesKept := h.filesKept

/-- The process has not even worked on its files, and the free frames stand in the order in which
they stood. -/
structure WorksOnMemory (t t' : Turn) : Prop extends Works t t' where
  desk : t'.desk = t.desk
  pool : t'.kernel.machine.pool = t.kernel.machine.pool

theorem worksOnMemory_report (t : Turn) (e : Event) : WorksOnMemory t ⟨t.kernel.report e, t.self⟩ :=
  ⟨⟨Kernel.abides_report _ e, rfl, rfl, rfl, rfl, rfl, rfl, rfl, Desk.FilesKept.refl _⟩, rfl, rfl⟩

theorem worksOnMemory_registers (t : Turn) (registers : Registers) :
    WorksOnMemory t ⟨t.kernel, { t.self with registers }⟩ :=
  ⟨⟨Kernel.Abides.refl _, rfl, rfl, rfl, rfl, rfl, rfl, rfl, Desk.FilesKept.refl _⟩, rfl, rfl⟩

def forget (t : Turn) (child : Pid) : Turn :=
  ⟨t.kernel, { t.self with children := t.self.children.erase child }⟩

def reap (t : Turn) (child : Pid) : Turn :=
  ⟨{ t.kernel with records := t.kernel.records.erase child }, (t.forget child).self⟩

def passOver (t : Turn) : Turn :=
  ⟨{ t.kernel with nextOrdinal := t.kernel.nextOrdinal + 1 }, t.self⟩

/-- The process goes on, and these things have happened in its turn. -/
inductive Does (t : Turn) : List Happening → Turn → Prop
  | works {t' : Turn} (hworks : Works t t') : Does t [] t'
  | begets {t₁ t' : Turn} {k : Kernel} {child : Process} (hworks : Works t t₁)
      (hchild : t₁.kernel.TakesUp k child)
      (hafter : Works ⟨k, { t₁.self with children := child.pid.insert t₁.self.children }⟩ t') :
      Does t [.created t.self.ordinal child.ordinal] t'
  | unstarts {t₁ t' : Turn} (hworks : Works t t₁)
      (hafter : Works t₁.passOver t') : Does t [.unstarted t₁.kernel.nextOrdinal] t'
  | reaps {t' : Turn} {child : Pid} {record : Record} (hchild : child ∈ t.self.children)
      (hrecord : t.kernel.records.find? child = some record) (hworks : Works (t.reap child) t') :
      Does t [.reaped t.self.ordinal record.ordinal] t'
  /-- Only if the records do not fit the children. -/
  | misses {t' : Turn} {child : Pid} (hchild : child ∈ t.self.children)
      (hrecord : t.kernel.records.find? child = none) (hworks : Works (t.forget child) t') :
      Does t [] t'

theorem Does.then {happened : List Happening} (h : Does t happened t') (hworks : Works t' t'') :
    Does t happened t'' := by
  cases h with
  | works hbefore => exact .works (hbefore.trans hworks)
  | begets hbefore hchild hafter => exact .begets hbefore hchild (hafter.trans hworks)
  | unstarts hbefore hafter => exact .unstarts hbefore (hafter.trans hworks)
  | reaps hchild hrecord hafter => exact .reaps hchild hrecord (hafter.trans hworks)
  | misses hchild hrecord hafter => exact .misses hchild hrecord (hafter.trans hworks)

theorem Works.ready_begets {k : Kernel} {p child : Process} (hworks : Works t t')
    (hchild : t'.kernel.TakesUp k child) (hafter : Works ⟨k, p⟩ t'') :
    t''.kernel.ready = t.kernel.ready ++ [child] := by
  rw [hafter.ready, hchild.ready, hworks.ready]

theorem Works.ready_passOver (hworks : Works t t') (hafter : Works t'.passOver t'') :
    t''.kernel.ready = t.kernel.ready := hafter.ready.trans hworks.ready

private theorem Works.addsReadyLast (h : Works t t') : AddsReadyLast t.kernel t'.kernel :=
  addsReadyLast_of_eq h.nextOrdinal h.ready

theorem Does.addsReadyLast {happened : List Happening} (h : Does t happened t') :
    AddsReadyLast t.kernel t'.kernel := by
  cases h with
  | works hworks => exact hworks.addsReadyLast
  | begets hworks hchild hafter =>
    exact (hworks.addsReadyLast.trans hchild.addsReadyLast).trans hafter.addsReadyLast
  | @unstarts t₁ t' hworks hafter =>
    have hpassed : AddsReadyLast t₁.kernel t₁.passOver.kernel :=
      addsReadyLast_of_ready_eq (Nat.le_succ _) rfl
    exact (hworks.addsReadyLast.trans hpassed).trans hafter.addsReadyLast
  | reaps hchild hrecord hworks => exact ⟨hworks.addsReadyLast.nextOrdinal, hworks.addsReadyLast.ready⟩
  | misses hchild hrecord hworks => exact ⟨hworks.addsReadyLast.nextOrdinal, hworks.addsReadyLast.ready⟩

/-- The process has given back all that it had: its files are closed, and its frames are free. -/
structure Releases (t t' : Turn) : Prop where
  pid : t'.self.pid = t.self.pid
  ordinal : t'.self.ordinal = t.self.ordinal
  phase : t'.self.phase = .exited
  table : t'.self.table = {}
  queue : t'.kernel.machine.pool.queue = t.kernel.machine.pool.queue ++ t.self.table.frames
  desk : t'.desk = t.desk.closeAll.2
  size : t'.kernel.machine.memory.size = t.kernel.machine.memory.size
  ready : t'.kernel.ready = t.kernel.ready
  nextOrdinal : t'.kernel.nextOrdinal = t.kernel.nextOrdinal

/-- The process has exited. The records of its children are gone, and it counts no longer; the last
one switches the machine off. -/
structure Exits (status : Option Int32) (t t' : Turn) : Prop extends Releases t t' where
  status : t'.self.status = status
  children : t'.self.children = []
  records : t'.kernel.records = t.self.children.foldl Assoc.erase t.kernel.records
  live : t'.kernel.live = t.kernel.live - 1
  power : t'.kernel.machine.poweredOff = (t.kernel.machine.poweredOff || t.kernel.live == 1)

/-- The root has switched the machine off. -/
structure Halts (t t' : Turn) : Prop extends Releases t t' where
  root : t.self.pid = .root
  records : t'.kernel.records = t.kernel.records
  live : t'.kernel.live = t.kernel.live
  power : t'.kernel.machine.poweredOff = true

private theorem Releases.of_worksOnMemory {t₁ : Turn} (h : Releases t₁ t') (hn : WorksOnMemory t t₁) :
    Releases t t' where
  pid := h.pid.trans hn.pid
  ordinal := h.ordinal.trans hn.ordinal
  phase := h.phase
  table := h.table
  queue := by rw [h.queue, hn.pool, PageTable.frames_congr hn.mapping]
  desk := by rw [h.desk, hn.desk]
  size := h.size.trans hn.size
  ready := h.ready.trans hn.ready
  nextOrdinal := h.nextOrdinal.trans hn.nextOrdinal

theorem Exits.of_worksOnMemory {t₁ : Turn} {status : Option Int32} (h : Exits status t₁ t')
    (hn : WorksOnMemory t t₁) : Exits status t t' where
  toReleases := h.toReleases.of_worksOnMemory hn
  status := h.status
  children := h.children
  records := by rw [h.records, hn.records, hn.children]
  live := by rw [h.live, hn.live]
  power := by rw [h.power, Machine.poweredOff, hn.power, hn.live, Machine.poweredOff]

/-- The process does not go on, and these things have happened in its turn. One that has to wait is
as if it had not had its turn. -/
inductive Ceases (t : Turn) : Stop Errno → List Happening → Turn → Prop
  | exits {t' : Turn} {status : Option Int32} (hexits : Exits status t t') :
      Ceases t (.ended (status.getD (-1))) [.exited t.self.ordinal status] t'
  | halts {t' : Turn} (hhalts : Halts t t') : Ceases t (.ended 0) [.halted t.self] t'
  | cut (hoff : t.kernel.machine.poweredOff = true) : Ceases t (.ended (-1)) [.lost t.self] t
  | waits {t' : Turn} : Ceases t .waiting [] t'
  | dies {t' : Turn} {happened : List Happening} (f : Fault) (hdoes : Does t happened t') :
      Ceases t (.fault f) (happened ++ [.lost t'.self]) t'

theorem Ceases.addsReadyLast {stop : Stop Errno} {happened : List Happening}
    (h : Ceases t stop happened t') (hwaits : stop ≠ .waiting) : AddsReadyLast t.kernel t'.kernel := by
  cases h with
  | exits hexits => exact addsReadyLast_of_eq hexits.nextOrdinal hexits.ready
  | halts hhalts => exact addsReadyLast_of_eq hhalts.nextOrdinal hhalts.ready
  | cut hoff => exact addsReadyLast_of_eq rfl rfl
  | waits => exact absurd rfl hwaits
  | dies f hdoes => exact hdoes.addsReadyLast

end Turn

end PagedKernel

import PagedKernel.Proofs.Kernel.Sound
import PagedKernel.Proofs.Loader.Load

/-!
# Taking up a process

A new process gets frames that were free, and the next number. A failed attempt leaves nothing
behind but what the loader wrote to free frames.
-/

namespace PagedKernel

namespace Kernel

variable {k k' : Kernel} {running : List Process} {name : String} {args : List String}

theorem nameOk_threadName (h : '\x00' ∉ name.toList) (pid : Pid) :
    Thread.nameOk (threadName name pid) = true := by
  have hname : threadName name pid = name ++ "[" ++ pid.number.toInt.repr ++ "]" := rfl
  have hnumber := Text.zero_notMem_repr pid.number.toInt
  unfold Thread.nameOk
  rw [hname]
  simp [h, hnumber]

/-- A kernel that took up a process, or failed to, with those that were there before. -/
structure Grown (running : List Process) (k k' : Kernel) : Prop where
  sound : k'.Sound running
  ready : k.ready <+: k'.ready
  foreign : ∀ f ∉ k.machine.pool.queue, k'.machine.memory.frame? f = k.machine.memory.frame? f
  records : ∀ e ∈ k'.records, e ∈ k.records ∨ e.2.outcome = none

/-- The processes and their records are the same, and the pool has the same frames. -/
structure Abides (k k' : Kernel) : Prop where
  records : k'.records = k.records
  ready : k'.ready = k.ready
  power : k'.machine.power = k.machine.power
  size : k'.machine.memory.size = k.machine.memory.size
  queue : k'.machine.pool.queue.Perm k.machine.pool.queue

theorem Abides.refl (k : Kernel) : Abides k k := ⟨rfl, rfl, rfl, rfl, .refl _⟩

private theorem Grown.recount (h : Grown running k k') (live : UInt64) (log : List Event) :
    Grown running k { k' with live, machine := { k'.machine with log } } :=
  ⟨h.sound.unchanged rfl h.sound.ledger (Nat.le_refl _) fun _ he => he, h.ready, h.foreign, h.records⟩

theorem Abides.trans {k'' : Kernel} (h : Abides k k') (h' : Abides k' k'') : Abides k k'' where
  records := h'.records.trans h.records
  ready := h'.ready.trans h.ready
  power := h'.power.trans h.power
  size := h'.size.trans h.size
  queue := h'.queue.trans h.queue

/-- One process more is ready. It has the next number, pages in frames that were free, and no
children and no files yet; its record does not say how it ended. -/
structure TakesUp (k k' : Kernel) (p : Process) : Prop where
  pid : p.pid = k.nextPid
  ordinal : p.ordinal = k.nextOrdinal
  children : p.children = []
  descriptors : p.descriptors = .create k.machine.config.maxOpenFiles
  valid : p.table.AllValid
  pages : p.table.mapped ≠ []
  queue : p.table.mapped ++ k'.machine.pool.queue = k.machine.pool.queue
  records : ∃ name, k'.records = k.records.insert k.nextPid { name, ordinal := k.nextOrdinal }
  nextOrdinal : k'.nextOrdinal = k.nextOrdinal + 1
  live : k'.live = k.live + 1
  ready : k'.ready = k.ready ++ [p]
  devices : k'.machine.devices = k.machine.devices
  power : k'.machine.power = k.machine.power
  size : k'.machine.memory.size = k.machine.memory.size

theorem TakesUp.lt {p : Process} (h : TakesUp k k' p) {n : Nat} (hn : n < k.nextOrdinal) :
    n < k'.nextOrdinal := by
  rw [h.nextOrdinal]
  exact Nat.lt_succ_of_lt hn

theorem TakesUp.ordinal_lt {p : Process} (h : TakesUp k k' p) : p.ordinal < k'.nextOrdinal := by
  rw [h.ordinal, h.nextOrdinal]
  exact Nat.lt_succ_self _

theorem TakesUp.named {p : Process} (h : TakesUp k k' p) : p.pid = .nth p.ordinal := by
  rw [h.pid, h.ordinal]
  rfl

theorem TakesUp.mem_records {p : Process} (h : TakesUp k k' p) {e : Pid × Record}
    (he : e ∈ k'.records) :
    e.1 = p.pid ∧ e.2.ordinal = p.ordinal ∧ e.2.outcome = none ∨ e.1 ≠ p.pid ∧ e ∈ k.records := by
  obtain ⟨name, hrecords⟩ := h.records
  rw [hrecords, ← h.pid, ← h.ordinal] at he
  rcases Assoc.mem_insert he with rfl | hold
  · exact Or.inl ⟨rfl, rfl, rfl⟩
  · exact Or.inr hold

theorem TakesUp.younger {p q : Process} (h : TakesUp k k' p) (hq : q.ordinal < k.nextOrdinal)
    {e : Pid × Record} (he : e ∈ k'.records) (hpid : e.1 = k.nextPid) : q.ordinal < e.2.ordinal := by
  rcases h.mem_records he with ⟨-, hordinal, -⟩ | ⟨hne, -⟩
  · rwa [hordinal, h.ordinal]
  · exact absurd (hpid.trans h.pid.symm) hne

/-- What becomes of the count of numbers and of the count of processes when none is taken up. -/
inductive TurnsDown (k : Kernel) (name : String) : Stop Errno → Kernel → Prop
  | unloaded {k' : Kernel} {stop : Stop Errno} (hstop : stop.IsRefusal)
      (hnext : k'.nextOrdinal = k.nextOrdinal) (hlive : k'.live = k.live) : TurnsDown k name stop k'
  /-- The host refuses the thread. The number is used up. -/
  | unstarted {k' : Kernel}
      (hrefused : (k.machine.devices.refusals.find? k.nextOrdinal).isSome)
      (hnext : k'.nextOrdinal = k.nextOrdinal + 1) (hlive : k'.live = k.live) :
      TurnsDown k name (.refused .noMemory) k'
  /-- The host cannot hold the name. The process that does not run is counted. -/
  | unnamed {k' : Kernel} (hname : Thread.nameOk (threadName name k.nextPid) = false)
      (hnext : k'.nextOrdinal = k.nextOrdinal + 1) (hlive : k'.live = k.live + 1) :
      TurnsDown k name (.fault .badThreadName) k'

theorem TurnsDown.le {stop : Stop Errno} (h : TurnsDown k name stop k') :
    k.nextOrdinal ≤ k'.nextOrdinal := by
  cases h with
  | unloaded hstop hnext hlive => exact Nat.le_of_eq hnext.symm
  | unstarted hrefused hnext hlive => exact hnext ▸ Nat.le_succ _
  | unnamed hname hnext hlive => exact hnext ▸ Nat.le_succ _

private theorem Sound.admit {p : Process} (h : k.Sound running) (hready : k'.ready = k.ready ++ [p])
    (hledger : k'.machine.pool.Ledger k'.machine.memory.size
      (p.table.mapped ++ heldBy (running ++ k.ready)))
    (hdescriptors : p.descriptors.InRange) (hself : p.ordinal = k.nextOrdinal)
    (hchildren : p.children = []) (hnext : k'.nextOrdinal = k.nextOrdinal + 1)
    (hrecords : ∀ e ∈ k'.records, e ∈ k.records ∨ e.2.ordinal = p.ordinal) : k'.Sound running := by
  have hsplit : running ++ k'.ready = (running ++ k.ready) ++ [p] := by
    rw [hready, List.append_assoc]
  have hcases : ∀ q ∈ running ++ k'.ready, q ∈ running ++ k.ready ∨ q = p := by
    intro q hq
    rw [hsplit] at hq
    rcases List.mem_append.1 hq with hold | hnew
    · exact Or.inl hold
    · exact Or.inr (List.mem_singleton.1 hnew)
  refine ⟨?_, ?_, ?_, ?_, ?_⟩
  · rw [hsplit, heldBy_append, heldBy_cons, heldBy_nil, List.append_nil]
    exact hledger.perm List.perm_append_comm
  · intro q hq
    rcases hcases q hq with hold | rfl
    · exact h.descriptors q hold
    · exact hdescriptors
  · intro e he hnone
    rw [hsplit]
    rcases hrecords e he with hold | hnew
    · obtain ⟨q, hq, hordinal⟩ := h.awaited e hold hnone
      exact ⟨q, List.mem_append_left _ hq, hordinal⟩
    · exact ⟨p, List.mem_append_right _ (List.mem_singleton.2 rfl), hnew.symm⟩
  · intro q hq
    rcases hcases q hq with hold | rfl
    · have hlt := h.numbered q hold
      omega
    · omega
  · intro q hq e he hc
    rcases hcases q hq with hold | rfl
    · rcases hrecords e he with hbefore | hnew
      · exact h.younger q hold e hbefore hc
      · rw [hnew, hself]
        exact h.numbered q hold
    · rw [hchildren] at hc
      cases hc

section

variable {machine : Machine} {table : PageTable} (h : k.Sound running)
variable (hmapped : Loader.Mapped k.machine ⟨machine, table⟩)

include h hmapped

private theorem foreign_of_mapped (f : Nat) (hf : f ∉ k.machine.pool.queue) :
    machine.memory.frame? f = k.machine.memory.frame? f := by
  have hqueue := hmapped.queue_eq h.ledger
  apply hmapped.foreign
  intro hmem
  apply hf
  rw [← hqueue]
  exact List.mem_append_left _ hmem

private theorem Grown.enroll (name : String) (registers : Registers) :
    Grown running k ({ k with machine }.enroll name table registers).2 := by
  have hrecords : ∀ e ∈ k.records.insert k.nextPid
        { name := threadName name k.nextPid, ordinal := k.nextOrdinal },
      e ∈ k.records ∨ e.2.ordinal = k.nextOrdinal ∧ e.2.outcome = none := by
    intro e he
    rcases Assoc.mem_insert he with rfl | ⟨-, hold⟩
    · exact Or.inr ⟨rfl, rfl⟩
    · exact Or.inl hold
  have hforeign := foreign_of_mapped h hmapped
  refine ⟨?_, List.prefix_append .., hforeign, ?_⟩
  · refine h.admit rfl ?_ (DescriptorTable.inRange_create _) rfl rfl rfl ?_
    · change FramePool.Ledger _ machine.memory.size _
      rw [show machine.memory.size = k.machine.memory.size from hmapped.size]
      exact hmapped.ledger h.ledger
    · intro e he
      exact (hrecords e he).imp_right And.left
  · intro e he
    exact (hrecords e he).imp_right And.right

private theorem takesUp_enroll (hdevices : machine.devices = k.machine.devices)
    (hpages : table.mapped ≠ []) (name : String) (registers : Registers) :
    TakesUp k ({ k with machine }.enroll name table registers).2
      { pid := k.nextPid, ordinal := k.nextOrdinal, table, registers
        descriptors := .create machine.config.maxOpenFiles } where
  pid := rfl
  ordinal := rfl
  children := rfl
  descriptors := congrArg (fun c => DescriptorTable.create c.maxOpenFiles) hmapped.config
  valid := hmapped.valid
  pages := hpages
  queue := hmapped.queue_eq h.ledger
  records := ⟨_, rfl⟩
  nextOrdinal := rfl
  live := rfl
  ready := rfl
  devices := hdevices
  power := hmapped.power
  size := hmapped.size

theorem abandon_eq : ∃ pool, { k with machine }.abandon table =
      { k with machine := { machine with pool }, nextOrdinal := k.nextOrdinal + 1 } ∧
    pool.Ledger k.machine.memory.size (heldBy (running ++ k.ready)) ∧
    pool.queue.Perm k.machine.pool.queue := by
  have hledger := hmapped.ledger h.ledger
  have hqueue := hmapped.queue_eq h.ledger
  rw [← hmapped.valid.frames_eq] at hledger hqueue
  obtain ⟨pool, hrelease, hfree, hback⟩ := AddressSpace.release_of_ledger (ε := Errno) hledger
  refine ⟨pool, ?_, hfree, ?_⟩
  · simp only [Kernel.abandon, hrelease]
  · rw [hback, ← hqueue]
    exact List.perm_append_comm

private theorem Grown.abandon : Grown running k ({ k with machine }.abandon table) := by
  obtain ⟨pool, habandon, hfree, -⟩ := abandon_eq h hmapped
  have hforeign := foreign_of_mapped h hmapped
  rw [habandon]
  refine ⟨?_, List.prefix_rfl, hforeign, fun e he => Or.inl he⟩
  refine Sound.unchanged h rfl ?_ (Nat.le_succ _) fun _ he => he
  change FramePool.Ledger _ machine.memory.size _
  rw [show machine.memory.size = k.machine.memory.size from hmapped.size]
  exact hfree

end

/-- The process has come of a program and its arguments: it was loaded from the image under the name,
and nothing stood in the way. -/
structure Runs (k k' : Kernel) (name : String) (args : List String) (p : Process) : Prop where
  loaded : ∃ data entry sections, k.machine.devices.files.contents? name = some data ∧
    Image.Declares data entry sections ∧
    Loader.Loaded data entry sections k.machine.config.stackPages args
      ⟨p.table, k'.machine.memory⟩ p.registers
  unhindered : ∀ e, ¬ Loader.Obstacle k.machine name args e

/-- The process has the pages that its program needs. -/
theorem Runs.length_mapped {p : Process} (h : Runs k k' name args p) : ∃ data entry sections,
    k.machine.devices.files.contents? name = some data ∧ Image.Declares data entry sections ∧
    p.table.mapped.length = Loader.pagesNeeded sections k.machine.config.stackPages := by
  obtain ⟨data, entry, sections, hcontents, hdeclares, hloaded⟩ := h.loaded
  exact ⟨data, entry, sections, hcontents, hdeclares,
    (PageTable.length_mapped p.table).trans hloaded.length⟩

/-- A process is taken up, or the attempt is refused and has changed no more than the log and free
frames, and the count of numbers if the host refused the thread. The only fault is a name that no
thread can have; its process is counted all the same. -/
theorem ensures_spawn_runs (h : k.Sound running) (name : String) (args : List String) :
    Ensures (spawn name args) k
      (fun pid k' => Grown running k k' ∧ pid = k.nextPid ∧ ∃ p, TakesUp k k' p ∧
        k.Runs k' name args p)
      (fun stop k' => Grown running k k' ∧ Abides k k' ∧
        k'.machine.devices = k.machine.devices ∧ TurnsDown k name stop k') := by
  have hload : Ensures (Loader.load name args) k.machine _ _ :=
    Loader.ensures_load h.ledger (Nat.le_refl _)
  unfold Ensures spawn
  rcases hx : Loader.load name args k.machine with ⟨⟨table, registers⟩, machine⟩ | ⟨stop, machine⟩
  · obtain ⟨hdevices, hnone, hmapped, hloaded⟩ := hload.of_ok hx
    cases hname : Thread.nameOk (threadName name k.nextPid) with
    | true =>
      simp only [hname, if_true]
      cases hrefusal : machine.devices.refusals.find? k.nextOrdinal with
      | none =>
        let child : Process :=
          { pid := k.nextPid, ordinal := k.nextOrdinal, table, registers
            descriptors := .create machine.config.maxOpenFiles }
        have hruns : k.Runs ({ k with machine }.enroll name table registers).2 name args child :=
          ⟨hloaded, hnone⟩
        obtain ⟨data, entry, sections, -, -, hlength⟩ := hruns.length_mapped
        have hpages : table.mapped ≠ [] := by
          intro hempty
          rw [hempty] at hlength
          cases hlength
        exact ⟨Grown.enroll h hmapped name registers, rfl, child,
          takesUp_enroll h hmapped hdevices hpages name registers, hruns⟩
      | some reason =>
        have hrefused : (k.machine.devices.refusals.find? k.nextOrdinal).isSome := by
          rw [← hdevices, hrefusal]
          rfl
        obtain ⟨pool, habandon, -, hqueue⟩ := abandon_eq h hmapped
        refine ⟨(Grown.abandon h hmapped).recount _ _, ?_⟩
        rw [habandon]
        exact ⟨⟨rfl, rfl, hmapped.power, hmapped.size, hqueue⟩, hdevices,
          .unstarted hrefused rfl rfl⟩
    | false =>
      simp only [hname, Bool.false_eq_true, if_false]
      obtain ⟨pool, habandon, -, hqueue⟩ := abandon_eq h hmapped
      refine ⟨(Grown.abandon h hmapped).recount _ _, ?_⟩
      rw [habandon]
      exact ⟨⟨rfl, rfl, hmapped.power, hmapped.size, hqueue⟩, hdevices, .unnamed hname rfl rfl⟩
  · obtain ⟨⟨e, rfl, -⟩, hunloaded⟩ := hload.of_error hx
    refine ⟨⟨?_, List.prefix_rfl, hunloaded.foreign, fun e he => Or.inl he⟩,
      ⟨rfl, rfl, hunloaded.power, hunloaded.size, hunloaded.queue⟩, hunloaded.devices,
      .unloaded ⟨_, rfl⟩ rfl rfl⟩
    refine Sound.unchanged h rfl ?_ (Nat.le_refl _) fun _ he => he
    change FramePool.Ledger _ machine.memory.size _
    rw [hunloaded.size]
    exact hunloaded.ledger

theorem ensures_spawn (h : k.Sound running) (name : String) (args : List String) :
    Ensures (spawn name args) k
      (fun pid k' => Grown running k k' ∧ pid = k.nextPid ∧ ∃ p, TakesUp k k' p)
      (fun stop k' => Grown running k k' ∧ Abides k k' ∧
        k'.machine.devices = k.machine.devices ∧ TurnsDown k name stop k') := by
  apply (ensures_spawn_runs h name args).mono
  · rintro pid k' ⟨hgrown, hpid, p, hp, -⟩
    exact ⟨hgrown, hpid, p, hp⟩
  · intro stop k' hfailed
    exact hfailed

theorem Runs.loadable {child : Process} (h : Runs k k' name args child) :
    Loader.Loadable k.machine name args := by
  obtain ⟨data, entry, sections, hcontents, hdeclares, -⟩ := h.loaded
  exact ⟨data, entry, sections, hcontents, hdeclares, fun e hhindered =>
    h.unhindered e (.hindered hcontents hdeclares hhindered)⟩

private theorem exists_load_eq (hs : k.Sound running) (h : Loader.Loadable k.machine name args) :
    ∃ table registers machine, Loader.load name args k.machine = .ok (table, registers) machine ∧
      Loader.Mapped k.machine ⟨machine, table⟩ ∧ machine.devices = k.machine.devices := by
  have hload : Ensures (Loader.load name args) k.machine _ _ :=
    Loader.ensures_load hs.ledger (Nat.le_refl _)
  rcases hx : Loader.load name args k.machine with ⟨⟨table, registers⟩, machine⟩ | ⟨stop, machine⟩
  · obtain ⟨hdevices, -, hmapped, -⟩ := hload.of_ok hx
    exact ⟨table, registers, machine, rfl, hmapped, hdevices⟩
  · obtain ⟨⟨e, -, hobstacle⟩, -⟩ := hload.of_error hx
    exact absurd hobstacle h.unhindered

/-- A program that can be loaded becomes a process, if the host has a thread for it. -/
theorem exists_spawn_eq (hs : k.Sound running) (hname : '\x00' ∉ name.toList)
    (h : Loader.Loadable k.machine name args)
    (hthread : k.machine.devices.refusals.find? k.nextOrdinal = none) :
    ∃ pid k', spawn name args k = .ok pid k' := by
  obtain ⟨table, registers, machine, hload, -, hdevices⟩ := exists_load_eq hs h
  simp only [spawn, hload, hdevices, nameOk_threadName hname, if_true, hthread]
  exact ⟨_, _, rfl⟩

/-- If the host has none, all that is left of it is that the next number is another. -/
theorem exists_spawn_unstarted (hs : k.Sound running) (hname : '\x00' ∉ name.toList)
    (h : Loader.Loadable k.machine name args) {reason : String}
    (hrefused : k.machine.devices.refusals.find? k.nextOrdinal = some reason) :
    ∃ k', spawn name args k = .error (.refused .noMemory) k' ∧
      k'.nextOrdinal = k.nextOrdinal + 1 ∧ k'.machine.config = k.machine.config := by
  obtain ⟨table, registers, machine, hload, hmapped, hdevices⟩ := exists_load_eq hs h
  obtain ⟨pool, habandon, -⟩ := abandon_eq hs hmapped
  simp only [spawn, hload, hdevices, nameOk_threadName hname, if_true, hrefused, habandon]
  exact ⟨_, rfl, rfl, hmapped.config⟩

end Kernel

end PagedKernel

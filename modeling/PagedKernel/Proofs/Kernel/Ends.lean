import PagedKernel.Proofs.Kernel.Lifecycle
import PagedKernel.User.Mode

/-!
# How processes end

A process that ends gives back the frames that it holds, none of which the pool has. Nobody's memory
is touched, and what is left of the process is how it ended.
-/

namespace PagedKernel.Turn

open UserMemory

variable {α ε : Type} {t t' t'' : Turn} {others : List Process} {touched : Nat → Prop}

/-- The others are spared, and no memory is any different. -/
structure Left (others : List Process) (t t' : Turn) : Prop extends Spares others t t' where
  memory : t'.kernel.machine.memory = t.kernel.machine.memory

theorem Left.trans (h : Left others t t') (h' : Left others t' t'') : Left others t t'' :=
  ⟨h.toSpares.trans h'.toSpares, h'.memory.trans h.memory⟩

private theorem Sound.release (hs : t.Sound others) : ∃ pool,
    (AddressSpace.release : EStateM (Stop ε) AddressSpace Nat)
        ⟨t.kernel.machine, t.self.table⟩ =
      .ok t.self.table.frames.length ⟨{ t.kernel.machine with pool }, {}⟩ ∧
    pool.Ledger t.kernel.machine.memory.size (heldBy (others ++ t.kernel.ready)) ∧
    pool.queue = t.kernel.machine.pool.queue ++ t.self.table.frames := by
  have hledger := hs.held.sublist (t.self.table.frames_sublist.append_right _)
  exact AddressSpace.release_of_ledger (s := ⟨t.kernel.machine, t.self.table⟩) hledger

theorem left_of_sameProcesses (hs : t.Sound others) (hk : t.kernel.SameProcesses t'.kernel)
    (hpid : t'.self.pid = t.self.pid) (hordinal : t'.self.ordinal = t.self.ordinal)
    (htable : t'.self.table = t.self.table)
    (hdescriptors : t'.self.descriptors = t.self.descriptors)
    (hchildren : ∀ c ∈ t'.self.children, c ∈ t.self.children) : Left others t t' := by
  have hsound : t'.Sound others := by
    refine hs.replace hordinal ?_ ?_ hk.ready ?_ ?_ hk.records
    · rw [hdescriptors]
      exact hs.inRange
    · intro e he hc
      exact hs.younger _ Sound.self_mem e (hk.records e he) (hchildren _ hc)
    · rw [hk.pool, hk.memory, htable]
      exact hs.held
    · exact Nat.le_of_eq hk.nextOrdinal.symm
  refine ⟨⟨hsound, hpid, hordinal, ⟨[], by rw [List.append_nil, hk.ready]⟩, ?_, ?_⟩, hk.memory⟩
  · intro _ _ f _
    rw [hk.memory]
  · intro e he
    exact Or.inl (hk.records e he)

theorem left_report (hs : t.Sound others) (e : Event) :
    Left others t ⟨t.kernel.report e, t.self⟩ :=
  left_of_sameProcesses hs (Kernel.sameProcesses_report _ e) rfl rfl rfl rfl fun _ hc => hc

private theorem left_of_released (hs : t.Sound others) {pool : FramePool}
    (h : pool.Ledger t.kernel.machine.memory.size (heldBy (others ++ t.kernel.ready))) :
    Left others t { t with self.table := {}, kernel.machine.pool := pool } := by
  refine ⟨⟨?_, rfl, rfl, List.prefix_rfl, fun _ _ _ _ => rfl, fun _ he => Or.inl he⟩, rfl⟩
  exact hs.replace rfl hs.inRange (fun e he hc => hs.younger _ Sound.self_mem e he hc) rfl h
    (Nat.le_refl _) fun _ he => he

def freed (t : Turn) (pool : FramePool) : Turn where
  kernel := { t.kernel with
    machine := { t.kernel.machine with devices := t.desk.closeAll.2.devices, pool } }
  self := { t.self with table := {}, descriptors := t.desk.closeAll.2.descriptors }

theorem exists_releaseResources_eq (hs : t.Sound others) : ∃ pool,
    releaseResources t = .ok (t.desk.closeAll.1, t.self.table.frames.length) (t.freed pool) ∧
    Left others t (t.freed pool) ∧
    pool.queue = t.kernel.machine.pool.queue ++ t.self.table.frames := by
  let desk := t.desk.closeAll.2
  let closed : Turn :=
    { t with self.descriptors := desk.descriptors, kernel.machine.devices := desk.devices }
  have hstays : Stays untouched t closed := stays_of_filesKept Desk.filesKept_closeAll
  have hclosed : Left others t closed := ⟨hstays.keeps.spares hs, rfl⟩
  obtain ⟨pool, hrelease, hfree, hqueue⟩ := hclosed.sound.release (ε := Errno)
  refine ⟨pool, Ensures.eq ?_, hclosed.trans (left_of_released hclosed.sound hfree), hqueue⟩
  unfold releaseResources
  refine ensures_bind.2 (ensures_zoom.2 ?_)
  change Ensures (onSpace AddressSpace.release >>= _) closed _ _
  refine ensures_bind.2 (ensures_zoom.2 ?_)
  rw [ensures_of_ok hrelease]
  rfl

private theorem ensures_releaseResources (hs : t.Sound others) : Ensures releaseResources t
    (fun _ t' => Left others t t' ∧ ∃ pool, t' = t.freed pool ∧
      pool.queue = t.kernel.machine.pool.queue ++ t.self.table.frames)
    (fun _ _ => False) := by
  obtain ⟨pool, hrun, hleft, hqueue⟩ := exists_releaseResources_eq hs
  rw [ensures_of_ok hrun]
  exact ⟨hleft, pool, rfl, hqueue⟩

private theorem exits_of_freed {pool : FramePool} (status : Option Int32) (e : Event)
    (hqueue : pool.queue = t.kernel.machine.pool.queue ++ t.self.table.frames) :
    Exits status t
      ⟨(((t.freed pool).kernel.disown t.self.children).report e).processExited,
        { (t.freed pool).self with status, children := [], phase := .exited }⟩ := by
  obtain ⟨log, hdisown⟩ := (t.freed pool).kernel.disown_eq t.self.children
  rw [hdisown]
  generalize hk : Kernel.report _ e = k
  obtain ⟨power, log', hexited, hoff⟩ := k.processExited_eq
  rw [hexited]
  subst hk
  exact ⟨⟨rfl, rfl, rfl, rfl, hqueue, rfl, rfl, rfl, rfl⟩, rfl, rfl, rfl, rfl, hoff⟩

/-- Whatever status it passes, a process that exits ends. -/
theorem ensures_exit (hs : t.Sound others) (status : Option Int32) :
    Ensures (exit status : Call α) t (fun _ _ => False)
      (fun stop t' => Left others t t' ∧ stop = .ended (status.getD (-1)) ∧
        Exits status t t') := by
  unfold exit
  apply (ensures_releaseResources hs).bind
  · rintro ⟨closed, released⟩ _ ⟨hleft, pool, rfl, hqueue⟩
    simp only [modifySelf, modifyKernel, report, ensures_bind, ensures_modify, ensures_get,
      ensures_throw]
    refine ⟨hleft.trans (left_of_sameProcesses hleft.sound ?_ rfl rfl rfl rfl ?_), trivial,
      exits_of_freed status _ hqueue⟩
    · exact ((Kernel.sameProcesses_disown _ _).trans (Kernel.sameProcesses_report _ _)).trans
        (Kernel.sameProcesses_processExited _)
    · intro c hc
      cases hc
  · intro _ _ h
    exact h.elim

theorem ensures_report_exit (hs : t.Sound others) (e : Event) :
    Ensures (report e >>= fun _ => exit none : Call α) t (fun _ _ => False)
      (fun stop t' => Left others t t' ∧ stop = .ended (-1) ∧ Exits none t t') := by
  have hreport := left_report hs e
  rw [ensures_bind, report, modifyKernel, ensures_modify]
  apply (ensures_exit hreport.sound none).mono
  · exact fun _ _ h => h
  · rintro stop t' ⟨hleft, rfl, hexits⟩
    exact ⟨hreport.trans hleft, rfl, hexits.of_worksOnMemory (worksOnMemory_report t e)⟩

theorem ensures_halt (hs : t.Sound others) : Ensures halt t
    (fun n t' => t.self.pid ≠ .root ∧ n = 0 ∧ Keeps untouched t t' ∧ Works t t')
    (fun stop t' => Left others t t' ∧ stop = .ended 0 ∧ Halts t t') := by
  unfold halt
  rw [ensures_bind, ensures_get]
  dsimp only
  split
  · next hother =>
    simp only [report, modifyKernel, ensures_bind, ensures_modify, ensures_pure]
    exact ⟨hother, trivial,
      keeps_of_sameProcesses (Kernel.sameProcesses_report _ _) rfl rfl rfl rfl rfl fun _ hc => hc,
      (worksOnMemory_report t _).toWorks⟩
  · next hroot =>
    apply (ensures_releaseResources hs).bind
    · rintro ⟨closed, released⟩ _ ⟨hleft, pool, rfl, hqueue⟩
      simp only [modifySelf, modifyKernel, report, ensures_bind, ensures_modify, ensures_throw]
      refine ⟨?_, trivial, ?_⟩
      · refine hleft.trans (left_of_sameProcesses hleft.sound ?_ rfl rfl rfl rfl fun _ hc => hc)
        exact (Kernel.sameProcesses_report _ _).trans (Kernel.sameProcesses_halt _)
      · obtain ⟨log, power, hhalt, hoff⟩ := Kernel.halt_eq
          ((t.freed pool).kernel.report (.halted t.self.pid closed released))
        rw [show (Kernel.halt _) = _ from hhalt]
        exact
          ⟨⟨rfl, rfl, rfl, rfl, hqueue, rfl, rfl, rfl, rfl⟩, Decidable.not_not.1 hroot, rfl, rfl, hoff⟩
    · intro _ _ h
      exact h.elim

private theorem withoutThread_eq (t : Turn) : ∃ power log,
    t.withoutThread = { t.kernel with machine := { t.kernel.machine with power, log } } ∧
    power.isOff = (t.kernel.machine.poweredOff || t.self.phase == .running) := by
  unfold withoutThread
  split
  · next hrunning =>
    obtain ⟨power, log, hhalt, hoff⟩ := (t.kernel.report (.threadDied t.self.pid)).halt_eq
    exact ⟨power, log, hhalt, by simp [hoff, hrunning.1]⟩
  · next hrest =>
    refine ⟨t.kernel.machine.power, t.kernel.machine.log, rfl, ?_⟩
    cases hoff : t.kernel.machine.poweredOff with
    | true => exact hoff
    | false =>
      have hphase : t.self.phase ≠ .running := fun h => hrest ⟨h, hoff⟩
      have hpower : t.kernel.machine.power.isOff = false := hoff
      simp [hpower, hphase]

private theorem sameProcesses_withoutThread (t : Turn) : t.kernel.SameProcesses t.withoutThread := by
  obtain ⟨power, log, hwithout, -⟩ := t.withoutThread_eq
  rw [hwithout]
  exact ⟨rfl, rfl, rfl, rfl, fun _ he => he⟩

/-- Dropping a process gives its frames back, and finds no fault. -/
theorem Sound.drop (hs : t.Sound others) : ∃ pool,
    t.drop = ({ t.withoutThread with machine := { t.withoutThread.machine with pool } }, none) ∧
    pool.Ledger t.kernel.machine.memory.size (heldBy (others ++ t.kernel.ready)) ∧
    pool.queue = t.kernel.machine.pool.queue ++ t.self.table.frames := by
  have hsameprocs := t.sameProcesses_withoutThread
  have hleft : Left others t ⟨t.withoutThread, t.self⟩ :=
    left_of_sameProcesses hs hsameprocs rfl rfl rfl rfl fun _ hc => hc
  obtain ⟨pool, hrelease, hfree, hqueue⟩ := hleft.sound.release (ε := Errno)
  rw [hsameprocs.memory, hsameprocs.ready] at hfree
  rw [hsameprocs.pool] at hqueue
  refine ⟨pool, ?_, hfree, hqueue⟩
  simp only [Turn.drop, hrelease]

theorem mem_settle {records : Assoc Pid Record} {ordinal : Nat} {outcome : Outcome}
    {e : Pid × Record} (he : e ∈ records.mapValues (Record.settle ordinal outcome)) :
    e.2.ordinal = ordinal ∧ e.2.outcome = some outcome ∨ e.2.ordinal ≠ ordinal ∧ e ∈ records := by
  obtain ⟨⟨pid, old⟩, hold, rfl⟩ := List.mem_map.1 he
  dsimp only [Record.settle]
  split
  · next heq => exact Or.inl ⟨heq, rfl⟩
  · next hne => exact Or.inr ⟨hne, hold⟩

/-- What a kernel is left with when a process is gone. -/
structure Gone (others : List Process) (t : Turn) (k : Kernel) : Prop where
  sound : k.Sound others
  memory : k.machine.memory = t.kernel.machine.memory
  ready : k.ready = t.kernel.ready

/-- How the process ended is in its record, and what it still had is given up: its frames go back,
and a machine that its thread was lost on goes off. -/
structure Buries (t : Turn) (stop : Stop Errno) (k : Kernel) : Prop where
  records : k.records = t.kernel.records.mapValues (.settle t.self.ordinal (t.outcome stop))
  ready : k.ready = t.kernel.ready
  nextOrdinal : k.nextOrdinal = t.kernel.nextOrdinal
  live : k.live = t.kernel.live
  devices : k.machine.devices = t.kernel.machine.devices
  memory : k.machine.memory = t.kernel.machine.memory
  queue : k.machine.pool.queue = t.kernel.machine.pool.queue ++ t.self.table.frames
  power : k.machine.poweredOff = (t.kernel.machine.poweredOff || t.self.phase == .running)

theorem Sound.buries (hs : t.Sound others) (stop : Stop Errno) : t.Buries stop (t.bury stop) := by
  obtain ⟨pool, hdrop, -, hqueue⟩ := hs.drop
  obtain ⟨power, log, hwithout, hoff⟩ := t.withoutThread_eq
  rw [Turn.bury, hdrop, hwithout]
  exact ⟨rfl, rfl, rfl, rfl, rfl, rfl, hqueue, hoff⟩

/-- A process that came to its end before has nothing left to give up. -/
theorem bury_of_exited (hphase : t.self.phase = .exited) (htable : t.self.table = {})
    (stop : Stop Errno) : t.bury stop = t.kernel.settle t.self.ordinal (t.outcome stop) := by
  have hwithout : t.withoutThread = t.kernel := by
    rw [withoutThread, hphase]
    exact if_neg fun h => nomatch h.1
  have hdrop : t.drop = (t.kernel, none) := by
    rw [Turn.drop, hwithout, htable]
    rfl
  rw [Turn.bury, hdrop]

theorem Releases.power_buries {k : Kernel} {stop : Stop Errno} (hreleases : Releases t t')
    (hburies : t'.Buries stop k) : k.machine.poweredOff = t'.kernel.machine.poweredOff := by
  rw [hburies.power, hreleases.phase]
  exact Bool.or_false _

theorem Sound.bury (hs : t.Sound others) (stop : Stop Errno) : Gone others t (t.bury stop) := by
  have hburies := hs.buries stop
  have hmem : ∀ q ∈ others ++ (t.bury stop).ready, q ∈ t.self :: others ++ t.kernel.ready := by
    intro q hq
    rw [hburies.ready] at hq
    exact List.mem_cons_of_mem _ hq
  refine ⟨⟨?_, ?_, ?_, ?_, ?_⟩, hburies.memory, hburies.ready⟩
  · obtain ⟨pool, hdrop, hfree, -⟩ := hs.drop
    rw [hburies.memory, hburies.ready, Turn.bury, hdrop]
    exact hfree
  · intro q hq
    exact hs.descriptors q (hmem q hq)
  · intro e he hnone
    rw [hburies.records] at he
    rcases mem_settle he with ⟨-, hsome⟩ | ⟨hne, hold⟩
    · rw [hnone] at hsome
      cases hsome
    · obtain ⟨q, hq, hordinal⟩ := hs.awaited e hold hnone
      rw [hburies.ready]
      rcases List.mem_cons.1 hq with rfl | hrest
      · exact absurd hordinal.symm hne
      · exact ⟨q, hrest, hordinal⟩
  · intro q hq
    rw [hburies.nextOrdinal]
    exact hs.numbered q (hmem q hq)
  · intro q hq e he hc
    rw [hburies.records] at he
    obtain ⟨⟨pid, old⟩, hold, rfl⟩ := List.mem_map.1 he
    rw [old.ordinal_settle]
    exact hs.younger q (hmem q hq) _ hold hc

theorem mem_records_bury (hs : t.Sound others) {stop : Stop Errno} {e : Pid × Record}
    (he : e ∈ (t.bury stop).records) :
    e ∈ t.kernel.records ∨ ∀ f, e.2.outcome = some (.died f) → stop = .fault f := by
  rw [(hs.buries stop).records] at he
  rcases mem_settle he with ⟨-, hsome⟩ | ⟨-, hold⟩
  · right
    intro f hf
    rw [hf] at hsome
    cases stop with
    | fault g =>
      cases hsome
      rfl
    | refused e => cases hsome
    | ended code => cases hsome
    | waiting => cases hsome
  · exact Or.inl hold

end PagedKernel.Turn

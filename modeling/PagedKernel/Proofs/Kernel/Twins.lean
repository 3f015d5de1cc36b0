import PagedKernel.Proofs.Kernel.Twin
import PagedKernel.Proofs.User.Paths

/-!
# Kernels with the same processes in other frames

Two kernels that are level have the same processes when each process of the one has its twin in the
other, running or ready as it is itself. What the kernels do for one of them leaves the others twins,
and it takes up children and gives frames back in the one kernel as in the other.
-/

namespace PagedKernel

open UserMemory

private theorem UserMemory.Framed.of_frames {table : PageTable} {memory memory' : Memory}
    (h : Framed ⟨table, memory⟩)
    (hframes : ∀ f ∈ table.mapped, memory'.frame? f = memory.frame? f) :
    Framed ⟨table, memory'⟩ := by
  intro f hf
  have hlt := (Memory.frame?_isSome_iff memory f).2 (h f hf)
  rw [← hframes f hf] at hlt
  exact (Memory.frame?_isSome_iff memory' f).1 hlt

private theorem UserMemory.byte?_of_frames {table : PageTable} {memory memory' : Memory} {a : Nat}
    (hframes : ∀ f ∈ table.mapped, memory'.frame? f = memory.frame? f) :
    (⟨table, memory'⟩ : UserMemory).byte? a = (⟨table, memory⟩ : UserMemory).byte? a := by
  apply byte?_congr
  · rfl
  · exact hframes

section

variable {memory memory' memory₁ memory₁' : Memory} {p p' : Process}
variable {processes processes' : List Process}

theorem Process.Twin.congr (h : Process.Twin memory memory' p p')
    (hframes : ∀ f ∈ p.table.mapped, memory₁.frame? f = memory.frame? f)
    (hframes' : ∀ f ∈ p'.table.mapped, memory₁'.frame? f = memory'.frame? f) :
    Process.Twin memory₁ memory₁' p p' where
  same := h.same
  memory :=
    { h.memory with
      byte := by
        intro a
        rw [byte?_of_frames hframes, byte?_of_frames hframes', h.memory.byte]
      framed := h.memory.framed.of_frames hframes
      framed' := h.memory.framed'.of_frames hframes' }

abbrev Process.Twins (memory memory' : Memory) (processes processes' : List Process) : Prop :=
  List.Forall₂ (Process.Twin memory memory') processes processes'

theorem Process.Twins.congr (h : Process.Twins memory memory' processes processes')
    (hframes : ∀ p ∈ processes, ∀ f ∈ p.table.mapped, memory₁.frame? f = memory.frame? f)
    (hframes' : ∀ p ∈ processes', ∀ f ∈ p.table.mapped, memory₁'.frame? f = memory'.frame? f) :
    Process.Twins memory₁ memory₁' processes processes' := by
  induction h with
  | nil => exact .nil
  | @cons p p' rest rest' hp hrest ih =>
    refine .cons (hp.congr (hframes p (List.mem_cons_self ..)) (hframes' p' (List.mem_cons_self ..)))
      (ih ?_ ?_)
    · intro q hq
      exact hframes q (List.mem_cons_of_mem _ hq)
    · intro q hq
      exact hframes' q (List.mem_cons_of_mem _ hq)

theorem Process.Twin.pid (h : Process.Twin memory memory' p p') : p'.pid = p.pid := by rw [h.same]

theorem Process.Twin.ordinal (h : Process.Twin memory memory' p p') : p'.ordinal = p.ordinal := by
  rw [h.same]

end

namespace Kernel

variable {k k' k₁ k₁' : Kernel} {running running' : List Process}

/-- Two kernels with the same processes in frames of their own. -/
structure Twins (running running' : List Process) (k k' : Kernel) : Prop where
  level : k.Level k'
  running : Process.Twins k.machine.memory k'.machine.memory running running'
  ready : Process.Twins k.machine.memory k'.machine.memory k.ready k'.ready

section

variable {name : String} {args : List String} {t t' : PageTable} {r : Registers} {s s' : Machine}
variable {stop : Stop LoadError}

private theorem Level.loaded (h : k.Level k') (hs : k.Sound running) (hs' : k'.Sound running')
    (hx : Loader.load name args k.machine = .ok (t, r) s)
    (hx' : Loader.load name args k'.machine = .ok (t', r) s')
    (hlength : t'.length = t.length) :
    Level { k with machine := s } { k' with machine := s' } := by
  have hexceptions : s.exceptions = k.machine.exceptions :=
    (Loader.exceptions_load name args k.machine).of_ok hx
  have hexceptions' : s'.exceptions = k'.machine.exceptions :=
    (Loader.exceptions_load name args k'.machine).of_ok hx'
  obtain ⟨hdevices, -, hmapped, -⟩ := (Loader.ensures_load hs.ledger (Nat.le_refl _)).of_ok hx
  obtain ⟨hdevices', -, hmapped', -⟩ := (Loader.ensures_load hs'.ledger (Nat.le_refl _)).of_ok hx'
  refine ⟨?_, ?_, ?_, ?_, ?_, h.records, h.nextOrdinal, h.live⟩
  · exact hmapped'.config.trans (h.config.trans hmapped.config.symm)
  · exact hdevices'.trans (h.devices.trans hdevices.symm)
  · exact hmapped'.power.trans (h.power.trans hmapped.power.symm)
  · exact hexceptions'.trans (h.exceptions.trans hexceptions.symm)
  · have hqueue := congrArg List.length (hmapped.queue_eq hs.ledger)
    have hqueue' := congrArg List.length (hmapped'.queue_eq hs'.ledger)
    have havailable := h.available
    rw [List.length_append, PageTable.length_mapped] at hqueue hqueue'
    have hreach : t'.length + s'.pool.available = t.length + s.pool.available :=
      hqueue'.trans (havailable.trans hqueue.symm)
    change s'.pool.available = s.pool.available
    omega

private theorem Level.unloaded (h : k.Level k') (hs : k.Sound running) (hs' : k'.Sound running')
    (hx : Loader.load name args k.machine = .error stop s)
    (hx' : Loader.load name args k'.machine = .error stop s') :
    Level { k with machine := s } { k' with machine := s' } := by
  have hexceptions : s.exceptions = k.machine.exceptions :=
    (Loader.exceptions_load name args k.machine).of_error hx
  have hexceptions' : s'.exceptions = k'.machine.exceptions :=
    (Loader.exceptions_load name args k'.machine).of_error hx'
  obtain ⟨-, hunloaded⟩ := (Loader.ensures_load hs.ledger (Nat.le_refl _)).of_error hx
  obtain ⟨-, hunloaded'⟩ := (Loader.ensures_load hs'.ledger (Nat.le_refl _)).of_error hx'
  refine ⟨?_, ?_, ?_, ?_, ?_, h.records, h.nextOrdinal, h.live⟩
  · exact hunloaded'.config.trans (h.config.trans hunloaded.config.symm)
  · exact hunloaded'.devices.trans (h.devices.trans hunloaded.devices.symm)
  · exact hunloaded'.power.trans (h.power.trans hunloaded.power.symm)
  · exact hexceptions'.trans (h.exceptions.trans hexceptions.symm)
  · exact hunloaded'.queue.length_eq.trans (h.available.trans hunloaded.queue.length_eq.symm)

end

/-- Two kernels have taken up twins, or neither has taken up a process. -/
inductive Grew (k k' k₁ k₁' : Kernel) : Prop
  | alike (hlevel : k₁.Level k₁') (hready : k₁.ready = k.ready) (hready' : k₁'.ready = k'.ready)
  | taken {p p' : Process} (hlevel : k₁.Level k₁') (hready : k₁.ready = k.ready ++ [p])
      (hready' : k₁'.ready = k'.ready ++ [p'])
      (hp : Process.Twin k₁.machine.memory k₁'.machine.memory p p')

/-- Level kernels take up the same process, or refuse it for the same reason. -/
theorem Level.spawn (h : k.Level k') (hs : k.Sound running) (hs' : k'.Sound running')
    (name : String) (args : List String) :
    Agree (Grew k k') (Kernel.spawn name args k) (Kernel.spawn name args k') := by
  rcases Loader.twin_load hs.ledger (Nat.le_refl _) hs'.ledger (Nat.le_refl _) h.devices h.config
    h.available name args with ⟨t, t', r, s, s', hx, hx', htwin⟩ | ⟨e, s, s', hx, hx'⟩
  · have hlength := PageTable.length_eq_of_faceless htwin.faceless
    have hloaded := h.loaded hs hs' hx hx' hlength
    have hpid : k'.nextPid = k.nextPid := congrArg Pid.nth h.nextOrdinal
    have hdevices : s'.devices = s.devices := hloaded.devices
    obtain ⟨-, -, hmapped, -⟩ := (Loader.ensures_load hs.ledger (Nat.le_refl _)).of_ok hx
    obtain ⟨-, -, hmapped', -⟩ := (Loader.ensures_load hs'.ledger (Nat.le_refl _)).of_ok hx'
    obtain ⟨pool, habandon, -, hqueue⟩ := abandon_eq hs hmapped
    obtain ⟨pool', habandon', -, hqueue'⟩ := abandon_eq hs' hmapped'
    have habandoned : Level { k with machine := { s with pool }, nextOrdinal := k.nextOrdinal + 1 }
        { k' with machine := { s' with pool := pool' }, nextOrdinal := k'.nextOrdinal + 1 } :=
      { hloaded with
        available := hqueue'.length_eq.trans (h.available.trans hqueue.length_eq.symm)
        nextOrdinal := congrArg (· + 1) h.nextOrdinal }
    rw [hdevices, h.nextOrdinal] at habandoned
    unfold Kernel.spawn
    simp only [hx, hx', hpid, hdevices, habandon, habandon']
    rw [h.nextOrdinal]
    cases Thread.nameOk (threadName name k.nextPid) with
    | true =>
      have hconfig : s'.config = s.config := hloaded.config
      cases s.devices.refusals.find? k.nextOrdinal with
      | none =>
        simp only [if_true, enroll, Kernel.nextPid, hlength, hconfig]
        refine .ok (.taken (Level.report ?_ _) rfl rfl ⟨rfl, htwin⟩)
        exact
          { hloaded with
            records := congrArg (Assoc.insert · _ _) h.records
            nextOrdinal := rfl
            live := congrArg (· + 1) h.live }
      | some reason =>
        simp only [if_true]
        exact .error (.alike (habandoned.report _) rfl rfl)
    | false =>
      simp only [Bool.false_eq_true, if_false]
      refine .error (.alike ?_ rfl rfl)
      exact { habandoned with live := congrArg (· + 1) h.live }
  · have hunloaded := h.unloaded hs hs' hx hx'
    unfold Kernel.spawn
    simp only [hx, hx']
    exact .error (.alike (hunloaded.report _) rfl rfl)

private theorem Twins.grown (h : Twins running running' k k')
    (hframes : ∀ q ∈ running ++ k.ready, ∀ f ∈ q.table.mapped,
      k₁.machine.memory.frame? f = k.machine.memory.frame? f)
    (hframes' : ∀ q ∈ running' ++ k'.ready, ∀ f ∈ q.table.mapped,
      k₁'.machine.memory.frame? f = k'.machine.memory.frame? f)
    (hgrew : Grew k k' k₁ k₁') : Twins running running' k₁ k₁' := by
  have hrunning : Process.Twins k₁.machine.memory k₁'.machine.memory running running' := by
    apply h.running.congr
    · intro q hq
      exact hframes q (List.mem_append_left _ hq)
    · intro q hq
      exact hframes' q (List.mem_append_left _ hq)
  have hready : Process.Twins k₁.machine.memory k₁'.machine.memory k.ready k'.ready := by
    apply h.ready.congr
    · intro q hq
      exact hframes q (List.mem_append_right _ hq)
    · intro q hq
      exact hframes' q (List.mem_append_right _ hq)
  cases hgrew with
  | alike hlevel hsame hsame' =>
    refine ⟨hlevel, hrunning, ?_⟩
    rw [hsame, hsame']
    exact hready
  | taken hlevel hmore hmore' hp =>
    refine ⟨hlevel, hrunning, ?_⟩
    rw [hmore, hmore']
    exact List.rel_append hready (.cons hp .nil)

theorem Twins.spawn (h : Twins running running' k k') (hs : k.Sound running)
    (hs' : k'.Sound running') (name : String) (args : List String) :
    Agree (Twins running running') (Kernel.spawn name args k) (Kernel.spawn name args k') := by
  have hkeeps : ∀ {running : List Process} {k k₁ : Kernel}, k.Sound running →
      Grown running k k₁ → ∀ q ∈ running ++ k.ready, ∀ f ∈ q.table.mapped,
        k₁.machine.memory.frame? f = k.machine.memory.frame? f :=
    fun hs hg q hq f hf => hg.foreign f (hs.not_free hq hf)
  apply (h.level.spawn hs hs' name args).ensures (ensures_spawn hs name args)
    (ensures_spawn hs' name args)
  · intro pid k₁ k₁' hgrew hspawn hspawn'
    exact h.grown (hkeeps hs hspawn.1) (hkeeps hs' hspawn'.1) hgrew
  · intro stop k₁ k₁' hgrew hspawn hspawn'
    exact h.grown (hkeeps hs hspawn.1) (hkeeps hs' hspawn'.1) hgrew

end Kernel

end PagedKernel

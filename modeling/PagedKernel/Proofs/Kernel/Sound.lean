import PagedKernel.Kernel.Turn
import PagedKernel.Proofs.Files
import PagedKernel.Proofs.Memory.Ledger
import PagedKernel.Proofs.Memory.View
import PagedKernel.Proofs.Pid

/-!
# The kernel and the processes that it keeps

The frames of all processes are out of the pool, each held by one of them. This keeps their memories
apart: what is written for one process lies in a frame that no other one has.
-/

namespace PagedKernel

def heldBy (processes : List Process) : List Nat := processes.flatMap (·.table.mapped)

section

variable {processes processes' : List Process} {p : Process} {f : Nat}

@[simp] theorem heldBy_nil : heldBy [] = [] := rfl

@[simp] theorem heldBy_cons (p : Process) (rest : List Process) :
    heldBy (p :: rest) = p.table.mapped ++ heldBy rest := rfl

@[simp] theorem heldBy_append (processes rest : List Process) :
    heldBy (processes ++ rest) = heldBy processes ++ heldBy rest := List.flatMap_append

theorem heldBy_perm (h : processes.Perm processes') :
    (heldBy processes).Perm (heldBy processes') := h.flatMap_right _

theorem mem_heldBy (hp : p ∈ processes) (hf : f ∈ p.table.mapped) : f ∈ heldBy processes :=
  List.mem_flatMap.2 ⟨p, hp, hf⟩

end

namespace Kernel

/-- What holds of a kernel while processes are running. A process whose end is not in its record is
there to be waited for, and those that one can wait for came after it. -/
structure Sound (k : Kernel) (running : List Process) : Prop where
  ledger : k.machine.pool.Ledger k.machine.memory.size (heldBy (running ++ k.ready))
  descriptors : ∀ p ∈ running ++ k.ready, p.descriptors.InRange
  awaited : ∀ e ∈ k.records, e.2.outcome = none → ∃ p ∈ running ++ k.ready, p.ordinal = e.2.ordinal
  numbered : ∀ p ∈ running ++ k.ready, p.ordinal < k.nextOrdinal
  younger : ∀ p ∈ running ++ k.ready, ∀ e ∈ k.records, e.1 ∈ p.children → p.ordinal < e.2.ordinal

variable {k k' : Kernel} {running running' : List Process} {p : Process} {f : Nat}

theorem Sound.boot (config : Config) (devices : Devices) : (boot config devices).Sound [] where
  ledger := FramePool.Ledger.full _
  descriptors := by simp [Kernel.boot]
  awaited := by simp [Kernel.boot]
  numbered := by simp [Kernel.boot]
  younger := by simp [Kernel.boot]

theorem Sound.perm (h : k.Sound running) (hp : (running ++ k.ready).Perm (running' ++ k'.ready))
    (hmachine : k'.machine = k.machine) (hrecords : k'.records = k.records)
    (hnext : k'.nextOrdinal = k.nextOrdinal) : k'.Sound running' where
  ledger := by
    rw [hmachine]
    exact h.ledger.perm (heldBy_perm hp)
  descriptors p hmem := h.descriptors p (hp.mem_iff.2 hmem)
  awaited e he hnone := by
    rw [hrecords] at he
    obtain ⟨p, hmem, hself⟩ := h.awaited e he hnone
    exact ⟨p, hp.mem_iff.1 hmem, hself⟩
  numbered p hmem := by
    rw [hnext]
    exact h.numbered p (hp.mem_iff.2 hmem)
  younger p hmem := by
    rw [hrecords]
    exact h.younger p (hp.mem_iff.2 hmem)

theorem Sound.unchanged (h : k.Sound running) (hready : k'.ready = k.ready)
    (hledger : k'.machine.pool.Ledger k'.machine.memory.size (heldBy (running ++ k.ready)))
    (hnext : k.nextOrdinal ≤ k'.nextOrdinal)
    (hrecords : ∀ e ∈ k'.records, e ∈ k.records) : k'.Sound running where
  ledger := by rwa [hready]
  descriptors := by
    rw [hready]
    exact h.descriptors
  awaited e he hnone := by
    rw [hready]
    exact h.awaited e (hrecords e he) hnone
  numbered p hp := by
    rw [hready] at hp
    exact Nat.lt_of_lt_of_le (h.numbered p hp) hnext
  younger p hp e he := by
    rw [hready] at hp
    exact h.younger p hp e (hrecords e he)

theorem Sound.replace {p' : Process} {others : List Process} (h : k.Sound (p :: others))
    (hself : p'.ordinal = p.ordinal) (hdescriptors : p'.descriptors.InRange)
    (hchildren : ∀ e ∈ k'.records, e.1 ∈ p'.children → p.ordinal < e.2.ordinal)
    (hready : k'.ready = k.ready)
    (hledger : k'.machine.pool.Ledger k'.machine.memory.size
      (p'.table.mapped ++ heldBy (others ++ k.ready)))
    (hnext : k.nextOrdinal ≤ k'.nextOrdinal)
    (hrecords : ∀ e ∈ k'.records, e ∈ k.records) : k'.Sound (p' :: others) := by
  have hcases : ∀ q ∈ p' :: others ++ k'.ready, q = p' ∨ q ∈ p :: others ++ k.ready := by
    intro q hq
    rw [hready] at hq
    exact (List.mem_cons.1 hq).imp_right (List.mem_cons_of_mem _)
  refine ⟨?_, ?_, ?_, ?_, ?_⟩
  · rwa [hready, List.cons_append, heldBy_cons]
  · intro q hq
    rcases hcases q hq with rfl | hold
    · exact hdescriptors
    · exact h.descriptors q hold
  · intro e he hnone
    obtain ⟨q, hq, hordinal⟩ := h.awaited e (hrecords e he) hnone
    rw [hready]
    rcases List.mem_cons.1 hq with rfl | hrest
    · exact ⟨p', List.mem_cons_self .., hself.trans hordinal⟩
    · exact ⟨q, List.mem_cons_of_mem _ hrest, hordinal⟩
  · intro q hq
    refine Nat.lt_of_lt_of_le ?_ hnext
    rcases hcases q hq with rfl | hold
    · rw [hself]
      exact h.numbered p (List.mem_cons_self ..)
    · exact h.numbered q hold
  · intro q hq e he hc
    rcases hcases q hq with rfl | hold
    · rw [hself]
      exact hchildren e he hc
    · exact h.younger q hold e (hrecords e he) hc

theorem Sound.framed (h : k.Sound running) (hp : p ∈ running ++ k.ready) :
    UserMemory.Framed ⟨p.table, k.machine.memory⟩ := by
  intro f hf
  exact h.ledger.held_lt (mem_heldBy hp hf)

theorem Sound.not_free (h : k.Sound running) (hp : p ∈ running ++ k.ready)
    (hf : f ∈ p.table.mapped) : f ∉ k.machine.pool.queue :=
  h.ledger.not_mem_queue (mem_heldBy hp hf)

end Kernel

namespace Turn

variable {t t' t'' : Turn} {others : List Process} {q : Process} {f : Nat}

def Sound (t : Turn) (others : List Process) : Prop := t.kernel.Sound (t.self :: others)

def memory (t : Turn) : UserMemory := ⟨t.self.table, t.kernel.machine.memory⟩

def withMemory (t : Turn) (m : UserMemory) : Turn :=
  { t with self.table := m.table, kernel.machine.memory := m.memory }

theorem onMemory_eq {α : Type} (x : EStateM (Stop Errno) UserMemory α) (t : Turn) :
    onMemory x t = match x t.memory with
      | .ok v m => .ok v (t.withMemory m)
      | .error stop m => .error stop (t.withMemory m) := by
  unfold onMemory zoom
  dsimp only
  rw [show (⟨t.self.table, t.kernel.machine.memory⟩ : UserMemory) = t.memory from rfl]
  cases x t.memory <;> rfl

theorem Sound.self_mem : t.self ∈ t.self :: others ++ t.kernel.ready := List.mem_cons_self ..

theorem Sound.held (h : t.Sound others) : t.kernel.machine.pool.Ledger
    t.kernel.machine.memory.size (t.self.table.mapped ++ heldBy (others ++ t.kernel.ready)) :=
  h.ledger

theorem Sound.framed (h : t.Sound others) : t.memory.Framed := Kernel.Sound.framed h self_mem

theorem Sound.inRange (h : t.Sound others) : t.self.descriptors.InRange :=
  h.descriptors _ self_mem

theorem Sound.nodup (h : t.Sound others) : t.self.table.mapped.Nodup :=
  (List.nodup_append.1 h.ledger.held_nodup).1

/-- The frames of the process are no one else's. -/
theorem Sound.apart (h : t.Sound others) (hq : q ∈ others ++ t.kernel.ready)
    (hf : f ∈ q.table.mapped) : f ∉ t.self.table.mapped := by
  intro hself
  have hapart := (List.nodup_append.1 h.ledger.held_nodup).2.2
  exact hapart f hself f (mem_heldBy hq hf) rfl

/-- What a turn came to, as the other processes see it: they are all still there, and their frames
hold what they held. -/
structure Spares (others : List Process) (t t' : Turn) : Prop where
  sound : t'.Sound others
  pid : t'.self.pid = t.self.pid
  ordinal : t'.self.ordinal = t.self.ordinal
  ready : t.kernel.ready <+: t'.kernel.ready
  frames : ∀ q ∈ others ++ t.kernel.ready, ∀ f ∈ q.table.mapped,
    t'.kernel.machine.memory.frame? f = t.kernel.machine.memory.frame? f
  records : ∀ e ∈ t'.kernel.records, e ∈ t.kernel.records ∨ e.2.outcome = none

theorem Spares.refl (h : t.Sound others) : Spares others t t where
  sound := h
  pid := rfl
  ordinal := rfl
  ready := List.prefix_rfl
  frames _ _ _ _ := rfl
  records _ he := Or.inl he

theorem Spares.trans (h : Spares others t t') (h' : Spares others t' t'') :
    Spares others t t'' where
  sound := h'.sound
  pid := h'.pid.trans h.pid
  ordinal := h'.ordinal.trans h.ordinal
  ready := h.ready.trans h'.ready
  frames q hq f hf := by
    have hq' : q ∈ others ++ t'.kernel.ready := by
      rcases List.mem_append.1 hq with hother | hready
      · exact List.mem_append_left _ hother
      · exact List.mem_append_right _ (h.ready.subset hready)
    rw [h'.frames q hq' f hf, h.frames q hq f hf]
  records e he := by
    rcases h'.records e he with hold | hnew
    · exact h.records e hold
    · exact Or.inr hnew

theorem Spares.byte? (h : Spares others t t') (hq : q ∈ others ++ t.kernel.ready) (a : Nat) :
    (⟨q.table, t'.kernel.machine.memory⟩ : UserMemory).byte? a =
      (⟨q.table, t.kernel.machine.memory⟩ : UserMemory).byte? a := by
  apply UserMemory.byte?_congr
  · rfl
  · exact h.frames q hq

end Turn

end PagedKernel

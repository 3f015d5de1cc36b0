import PagedKernel.Proofs.Kernel.World
import PagedKernel.Proofs.Memory.Flat
import PagedKernel.Proofs.Memory.Spaces

/-!
# The address spaces that there can be

An address space is used on its own, or it is that of a process. In either case its table names
frames of the memory only, and none of them twice.
-/

namespace PagedKernel.UserMemory

/-- A program's memory as it comes about: after any steps of address spaces that share a pool, the
marks of their entries changed or not, or as a process has it. -/
inductive Reachable : UserMemory → Prop
  | space (machine : Machine) (n : Nat) (steps : List SpaceStep) {t : PageTable}
      (ht : t ∈ ((Spaces.start machine n).run steps).tables) :
      Reachable ⟨t, ((Spaces.start machine n).run steps).machine.memory⟩
  | process {w : World} {p : Process} (hw : World.Reachable (fun _ => True) w)
      (hp : p ∈ w.processes) : Reachable ⟨p.table, w.kernel.machine.memory⟩

variable {m : UserMemory}

theorem Reachable.framed (h : m.Reachable) : m.Framed := by
  cases h with
  | space machine n steps ht =>
    exact (Spaces.run_sound (Spaces.sound_start machine n) steps).framed _ ht
  | process hw hp => exact hw.sound.framed hp

theorem Reachable.nodup (h : m.Reachable) : m.table.mapped.Nodup := by
  cases h with
  | space machine n steps ht =>
    have hs := Spaces.run_sound (Spaces.sound_start machine n) steps
    exact (List.nodup_flatMap.1 hs.ledger.held_nodup).1 _ ht
  | process hw hp => exact (List.nodup_flatMap.1 hw.sound.ledger.held_nodup).1 _ hp

/-- Whatever address space there is, and whatever the address and the number of bytes: a read into a
buffer and a write move the bytes that they would move in one row of bytes, up to the first that may
not be moved, and touch no others. What was written is read back. Each round of the loop that moves
them moves a byte at least. -/
theorem Reachable.transfers_flat (h : m.Reachable) (a : Nat) :
    (∀ buffer : Bytes, ∃ n buffer' m',
      (readInto a buffer m : EStateM.Result (Stop Errno) _ _) = .ok (n, buffer') m' ∧
      FlatRead m a buffer n buffer' m') ∧
    (∀ data : Bytes, ∃ n m', (store a data m : EStateM.Result (Stop Errno) _ _) = .ok n m' ∧
      FlatWrite m a data n m') ∧
    ∀ length, ∀ span ∈ Span.ofRange a (m.clamp a length), 0 < span.length := by
  refine ⟨?_, ?_, ?_⟩
  · intro buffer
    exact flatRead_readInto h.framed a buffer
  · intro data
    exact flatWrite_store h.framed h.nodup a data
  · intro length
    exact Span.forall_ofRange_pos a (m.clamp a length)

def sampleSteps : List SpaceStep :=
  Spaces.sampleSteps ++
    [.call 0 (.adjust ⟨8192, by decide⟩ { readOnly := true } {}),
      .call 0 (.adjust ⟨12288, by decide⟩ {} { valid := true })]

def sampleSpaces : Spaces := (Spaces.start (.build { physPages := 4 } {}) 4).run sampleSteps

def sampleMemory : UserMemory := ⟨sampleSpaces.tables.headD {}, sampleSpaces.machine.memory⟩

theorem reachable_sampleMemory : sampleMemory.Reachable :=
  .space (.build { physPages := 4 } {}) 4 sampleSteps
    (show sampleSpaces.tables.headD {} ∈ sampleSpaces.tables by decide +kernel)

theorem transfers_flat_sample : sampleMemory.Reachable ∧
    (∃ buffer' m', (readInto 12284 [9, 9, 9, 9, 9, 9] sampleMemory :
      EStateM.Result (Stop Errno) _ _) = .ok (4, buffer') m' ∧
      FlatRead sampleMemory 12284 [9, 9, 9, 9, 9, 9] 4 buffer' m') ∧
    ∃ m', (store 8190 [1, 2, 3] sampleMemory : EStateM.Result (Stop Errno) _ _) = .ok 2 m' ∧
      FlatWrite sampleMemory 8190 [1, 2, 3] 2 m' := by
  obtain ⟨n, buffer', m₁, hread, hflatRead⟩ :=
    (reachable_sampleMemory.transfers_flat 12284).1 [9, 9, 9, 9, 9, 9]
  obtain ⟨k, m₂, hstore, hflatWrite⟩ := (reachable_sampleMemory.transfers_flat 8190).2.1 [1, 2, 3]
  have hn : n = 4 := (hflatRead.most.unique (PageTable.moves_reach ..)).trans (by decide +kernel)
  have hk : k = 2 := (hflatWrite.most.unique (PageTable.moves_reach ..)).trans (by decide +kernel)
  subst hn hk
  exact ⟨reachable_sampleMemory, ⟨buffer', m₁, hread, hflatRead⟩, m₂, hstore, hflatWrite⟩

end PagedKernel.UserMemory

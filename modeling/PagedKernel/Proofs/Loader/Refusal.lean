import Mathlib
import PagedKernel.Proofs.Loader.Load

/-!
# When a load fails

A load fails for its obstacle and for nothing else: once frames were taken there is no way left to
fail, since the image was checked against its file and the arguments against their page. What was
taken until then is given back, and nobody else sees a difference.
-/

namespace PagedKernel.Loader

/-- A load is refused exactly for the obstacle in its way, and succeeds where there is none. After a
failure the free frames, the devices with all files, and every byte of every other address space are
as before. -/
theorem load_refused_iff (machine : Machine) (name : String) (args : List String) (held : List Nat)
    (hl : machine.pool.Ledger machine.memory.size held) :
    (∀ e, (∃ machine', load name args machine = .error (.refused e) machine') ↔
      Obstacle machine name args e) ∧
    ((∃ program machine', load name args machine = .ok program machine') ↔
      ∀ e, ¬ Obstacle machine name args e) ∧
    ∀ stop machine', load name args machine = .error stop machine' →
      (∃ e, stop = .refused e) ∧ machine'.devices = machine.devices ∧
      machine'.pool.queue.Perm machine.pool.queue ∧ machine'.pool.marks = machine.pool.marks ∧
      ∀ table : PageTable, (∀ f ∈ table.mapped, f ∈ held) → ∀ a,
        (⟨table, machine'.memory⟩ : UserMemory).byte? a =
          (⟨table, machine.memory⟩ : UserMemory).byte? a := by
  have hload : Ensures (load name args) machine _ _ := ensures_load hl (Nat.le_refl _)
  rcases hx : load name args machine with ⟨program, machine'⟩ | ⟨stop, machine'⟩
  · obtain ⟨-, hnone, -⟩ := hload.of_ok hx
    refine ⟨fun e => ⟨?_, fun he => absurd he (hnone e)⟩, ⟨fun _ => hnone, fun _ => ⟨_, _, rfl⟩⟩, ?_⟩
    · rintro ⟨_, h⟩
      cases h
    · intro _ _ h
      cases h
  · obtain ⟨⟨e, rfl, hobstacle⟩, hunloaded⟩ := hload.of_error hx
    refine ⟨fun e' => ⟨?_, ?_⟩, ⟨?_, fun hnone => absurd hobstacle (hnone e)⟩, ?_⟩
    · rintro ⟨_, h⟩
      cases h
      exact hobstacle
    · intro he'
      rw [hobstacle.unique he']
      exact ⟨_, rfl⟩
    · rintro ⟨_, _, h⟩
      cases h
    · intro _ _ h
      cases h
      refine ⟨⟨e, rfl⟩, hunloaded.devices, hunloaded.queue,
        hl.marks_eq hunloaded.ledger hunloaded.queue, ?_⟩
      intro table hheld a
      apply UserMemory.byte?_congr
      · rfl
      · intro f hf
        exact hunloaded.foreign f (hl.not_mem_queue (hheld f hf))

def refusal? {α σ : Type} : EStateM.Result (Stop LoadError) σ α → Option LoadError
  | .error (.refused e) _ => some e
  | _ => none

private theorem refusal?_eq_some_iff {α σ : Type} {r : EStateM.Result (Stop LoadError) σ α}
    {e : LoadError} : refusal? r = some e ↔ ∃ s, r = .error (.refused e) s := by
  constructor
  · intro h
    unfold refusal? at h
    split at h
    · cases h
      exact ⟨_, rfl⟩
    · cases h
  · rintro ⟨s, rfl⟩
    rfl

def crowdedMachine : Machine :=
  .build { physPages := 3, stackPages := 1 }
    { files := ({} : FileSystem).insert "a.coff" sampleImage }

theorem load_refused_iff_sample :
    crowdedMachine.pool.Ledger crowdedMachine.memory.size [] ∧
    Obstacle crowdedMachine "a.coff" ["a", "bc"] (.outOfMemory 4) ∧
    Obstacle crowdedMachine "b.coff" [] (.cannotOpen "b.coff") ∧
    sampleMachine.pool.Ledger sampleMachine.memory.size [] ∧
    ∀ e, ¬ Obstacle sampleMachine "a.coff" ["a", "bc"] e := by
  have hcrowded : crowdedMachine.pool.Ledger crowdedMachine.memory.size [] :=
    FramePool.Ledger.full crowdedMachine.memory.size
  have hsample : sampleMachine.pool.Ledger sampleMachine.memory.size [] :=
    FramePool.Ledger.full sampleMachine.memory.size
  have hmemory : refusal? (load "a.coff" ["a", "bc"] crowdedMachine) = some (.outOfMemory 4) := by
    decide +kernel
  have hopen : refusal? (load "b.coff" [] crowdedMachine) = some (.cannotOpen "b.coff") := by
    decide +kernel
  have hnone : refusal? (load "a.coff" ["a", "bc"] sampleMachine) = none := by decide +kernel
  refine ⟨hcrowded, ?_, ?_, hsample, ?_⟩
  · apply ((load_refused_iff crowdedMachine "a.coff" ["a", "bc"] [] hcrowded).1 _).1
    exact refusal?_eq_some_iff.1 hmemory
  · apply ((load_refused_iff crowdedMachine "b.coff" [] [] hcrowded).1 _).1
    exact refusal?_eq_some_iff.1 hopen
  · intro e he
    have hrefused := ((load_refused_iff sampleMachine "a.coff" ["a", "bc"] [] hsample).1 e).2 he
    rw [refusal?_eq_some_iff.2 hrefused] at hnone
    cases hnone

end PagedKernel.Loader

import PagedKernel.Proofs.Kernel.World
import PagedKernel.Proofs.Registers

/-!
# Isolation of processes

Whatever a process does, the others do not notice. Of its own memory a system call changes the
buffer of a read, or the status that a join stored.
-/

namespace PagedKernel.World

open Turn

variable {allowed : Move → Prop} {w w' : World} {before after : List Process} {p : Process}
variable {m : Move} {t : Turn}

/-- The bytes of its own memory that a process has a system call change, by the registers before the
call and after it. -/
def Requested (r r' : Registers) (a : Nat) : Prop :=
  CallNumber.decode r.request.number = .ok .read ∧
      InBuffer r.request.arg2 r.request.arg3.toInt a ∨
    CallNumber.decode r.request.number = .ok .join ∧ r'.get .v0 = 1 ∧
      InBuffer r.request.arg2 4 a

private theorem requested_of_touches {call : CallNumber} {result : Except Errno Nat} {r : Registers}
    {a : Nat} (hdecode : CallNumber.decode r.request.number = .ok call)
    (ha : call.Touches r.request result a) : Requested r (r.answer result) a := by
  cases call with
  | read => exact Or.inl ⟨hdecode, ha⟩
  | join =>
    obtain ⟨rfl, hin⟩ := ha
    exact Or.inr ⟨hdecode, Registers.get_v0_ok r 1, hin⟩
  | _ => exact ha.elim

/-- A system call that returns has changed no bytes but those that it was asked to. -/
theorem byte?_of_resumes {others : List Process} {t' : Turn} (h : Resumes others t t') {a : Nat}
    (ha : ¬ Requested t.self.registers t'.self.registers a) :
    t'.memory.byte? a = t.memory.byte? a := by
  obtain ⟨call, result, t₁, hdecode, -, hanswered, hsameprocs, hself⟩ := h
  have hmemory : t'.memory = t₁.memory := by
    simp only [Turn.memory, hself, hsameprocs.memory]
  rw [hmemory]
  apply hanswered.served.byte
  intro htouches
  apply ha
  rw [hself, hanswered.served.registers]
  exact requested_of_touches hdecode htouches

/-- A system call that does not return has changed no bytes at all. -/
theorem byte?_of_withdraws {others : List Process} {t' : Turn} {stop : Stop Errno}
    (h : Withdraws others t t' stop) (a : Nat) :
    (⟨t.self.table, t'.kernel.machine.memory⟩ : UserMemory).byte? a = t.memory.byte? a := by
  have hleft : Left others t t' →
      (⟨t.self.table, t'.kernel.machine.memory⟩ : UserMemory).byte? a = t.memory.byte? a := by
    intro hleft
    rw [hleft.memory]
    rfl
  have hserved : Served others untouched t t' →
      (⟨t.self.table, t'.kernel.machine.memory⟩ : UserMemory).byte? a = t.memory.byte? a := by
    intro hserved
    rw [← hserved.byte a id]
    apply UserMemory.byte?_congr
    · exact hserved.mapping.symm
    · intro f _
      rfl
  rcases h with ⟨-, -, h, -⟩ | ⟨call, -, hunanswered⟩
  · exact hleft h
  · cases hunanswered with
    | ended code hcall h => exact hleft h
    | waiting hcall hawaits h => exact hserved h
    | fault f hcall hdied h => exact hserved h

theorem ensures_call {others : List Process} (hs : t.Sound others) : Ensures Move.call.run t
    (fun _ t' => Resumes others t t') (fun stop t' => t' = t ∨ Withdraws others t t' stop) := by
  apply Move.ensures_call
  · intro _
    exact Or.inl rfl
  · apply (ensures_syscall hs).mono
    · intro _ t' h
      exact h
    · intro stop t' h
      exact Or.inr h

private theorem unchanged_of_spares {others running : List Process} {k : Kernel}
    (h : Spares others ⟨w.kernel, p⟩ t) (hmemory : k.machine.memory = t.kernel.machine.memory)
    (hready : k.ready = t.kernel.ready) (hrunning : ∀ q ∈ others, q ∈ running) :
    ∀ q ∈ others ++ w.kernel.ready,
      q ∈ processes ⟨k, running⟩ ∧ ∀ a, byte? ⟨k, running⟩ q a = w.byte? q a := by
  intro q hq
  constructor
  · refine List.mem_append.2 ((List.mem_append.1 hq).imp (hrunning q) fun hold => ?_)
    rw [hready]
    exact h.ready.subset hold
  · intro a
    simp only [byte?, hmemory]
    exact h.byte? hq a

/-- Whatever move a process makes, all others are still there with what they have, and each reads the
same byte at each address. -/
theorem Acts.unchanged (hw : w.kernel.Sound w.running) (h : w.Acts before p after m w') :
    ∀ q ∈ before ++ after ++ w.kernel.ready,
      q ∈ w'.processes ∧ ∀ a, w'.byte? q a = w.byte? q a := by
  have hrunning := h.running_eq
  have houtcome := h.moveOutcome hw
  generalize m.tells ⟨w.kernel, p⟩ = happened at houtcome
  cases houtcome with
  | goesOn hspares =>
    apply unchanged_of_spares hspares rfl rfl
    intro q hq
    exact List.perm_middle.mem_iff.2 (List.mem_cons_of_mem _ hq)
  | waits =>
    intro q hq
    exact ⟨(mem_processes_iff hrunning).2 (.inr hq), fun _ => rfl⟩
  | ends hspares =>
    have hgone := hspares.sound.bury
    exact unchanged_of_spares hspares (hgone _).memory (hgone _).ready fun q hq => hq

/-- Whatever move a process makes, all others are still there with all that they have: their page
tables, descriptors and children, and each reads the same byte at each address. If the move is a
system call, the bytes of the process itself are what they were, but for those that the call was to
fill; if the process ends by it, no byte has changed. -/
theorem Acts.isolated (hw : Reachable allowed w) (h : w.Acts before p after m w') :
    (∀ q ∈ before ++ after ++ w.kernel.ready,
      q ∈ w'.processes ∧ ∀ a, w'.byte? q a = w.byte? q a) ∧
    (m = .call →
      (∃ p', w'.running = before ++ p' :: after ∧ p'.pid = p.pid ∧
        ∀ a, ¬ Requested p.registers p'.registers a → w'.byte? p' a = w.byte? p a) ∨
      (w'.running = before ++ after ∧ ∀ a, w'.byte? p a = w.byte? p a)) := by
  refine ⟨h.unchanged hw.sound, ?_⟩
  have hs := sound_turn hw.sound h.running_eq
  cases h with
  | waits hrunning hrun => exact fun _ => Or.inl ⟨p, hrunning, rfl, fun a _ => rfl⟩
  | @goesOn t hrunning hrun =>
    have hspares := (Move.ensures_run hs m).of_ok hrun
    rintro rfl
    refine Or.inl ⟨t.self, rfl, hspares.pid, ?_⟩
    intro a ha
    exact byte?_of_resumes ((ensures_call hs).of_ok hrun) ha
  | @stops t stop hrunning hrun hstop =>
    have hspares := ((Move.ensures_run hs m).of_error hrun).1
    have hgone := hspares.sound.bury stop
    rintro rfl
    refine Or.inr ⟨rfl, ?_⟩
    intro a
    simp only [byte?, hgone.memory]
    rcases (ensures_call hs).of_error hrun with rfl | hwithdraws
    · rfl
    · exact byte?_of_withdraws hwithdraws a

theorem acts_isolated_sample : ∃ (w' : World) (p : Process),
    Reachable (fun _ => True) sampleWorld ∧ sampleWorld.Acts [] p [] .call w' ∧
    (∀ q ∈ [] ++ [] ++ sampleWorld.kernel.ready,
      q ∈ w'.processes ∧ ∀ a, w'.byte? q a = sampleWorld.byte? q a) ∧
    (Move.call = .call →
      (∃ p', w'.running = [] ++ p' :: [] ∧ p'.pid = p.pid ∧
        ∀ a, ¬ Requested p.registers p'.registers a →
          w'.byte? p' a = sampleWorld.byte? p a) ∨
      (w'.running = [] ++ [] ∧ ∀ a, w'.byte? p a = sampleWorld.byte? p a)) := by
  obtain ⟨p, hrunning⟩ := exists_sampleWorld
  have hsplit : sampleWorld.running = [] ++ p :: [] := hrunning
  obtain ⟨w', hacts⟩ := exists_acts hsplit .call
  have hreachable : Reachable (fun _ => True) sampleWorld := reachable_sampleWorld fun _ => trivial
  exact ⟨w', p, hreachable, hacts, hacts.isolated hreachable⟩

end PagedKernel.World

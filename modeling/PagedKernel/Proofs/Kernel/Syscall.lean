import PagedKernel.Proofs.Kernel.World
import PagedKernel.Proofs.Registers

/-!
# No system call breaks the kernel

Whatever a program leaves in its registers and in its memory, and whatever the files hold, a system
call is answered, or it ends the process, or it waits for a child that has not ended.
-/

namespace PagedKernel.World

open Turn

variable {w : World} {before after : List Process} {p : Process} {memory : Memory}

/-- What a call that was answered leaves in the registers. -/
structure Returned (r r' : Registers) (result : Except Errno Nat) : Prop where
  pc : r'.get .pc = r.get .nextPc
  nextPc : r'.get .nextPc = r.get .nextPc + 4
  prevPc : r'.get .prevPc = r.get .pc
  rest : ∀ i : Register, i ≠ .v0 → i ≠ .pc → i ≠ .nextPc → i ≠ .prevPc → r'.get i = r.get i
  refused : r'.get .v0 = -1 ↔ ∃ e, result = .error e
  value : ∀ n, result = .ok n → n < 0x80000000 ∧ (r'.get .v0).toInt = n

theorem returned_answer {r : Registers} {result : Except Errno Nat}
    (h : ∀ n, result = .ok n → n < 0x80000000) : Returned r (r.answer result) result where
  pc := Registers.get_answer r result .pc
  nextPc := Registers.get_answer r result .nextPc
  prevPc := Registers.get_answer r result .prevPc
  rest i hv hp hn hq := by
    rw [Registers.get_answer, if_neg hn, if_neg hp, if_neg hq, if_neg hv]
  refused := Registers.v0_eq_refusal_iff h
  value n hn := by
    subst hn
    exact ⟨h n rfl, Registers.toInt_v0 (h n rfl)⟩

def Returns (t t' : Turn) : Prop := ∃ call result t₁,
  CallNumber.decode t.self.registers.request.number = .ok call ∧
  attempt (serve call t.self.registers.request) t = .ok result t₁ ∧
  Returned t.self.registers t'.self.registers result

/-- The call has ended the process, for it was no call at all, an exit, or a halt of the root. -/
def Ends (t : Turn) (stop : Stop Errno) : Prop :=
  (∃ code, stop = .ended code) ∧
    ((∃ e, CallNumber.decode t.self.registers.request.number = .error e) ∨
      CallNumber.decode t.self.registers.request.number = .ok .exit ∨
      CallNumber.decode t.self.registers.request.number = .ok .halt ∧ t.self.pid = .root)

def Waits (others : List Process) (t : Turn) (stop : Stop Errno) : Prop :=
  stop = .waiting ∧ CallNumber.decode t.self.registers.request.number = .ok .join ∧
    t.Awaits others ⟨t.self.registers.request.arg1⟩

def turn (w : World) (p : Process) (registers : Registers) (memory : Memory) (devices : Devices) :
    Turn :=
  ⟨{ w.kernel with machine := { w.kernel.machine with memory, devices } }, { p with registers }⟩

private theorem sound_turn_of_size (h : w.kernel.Sound w.running)
    (hrunning : w.running = before ++ p :: after)
    (hsize : memory.size = w.kernel.machine.memory.size) (registers : Registers)
    (devices : Devices) : (w.turn p registers memory devices).Sound (before ++ after) := by
  have hs := sound_turn h hrunning
  have hledger := hs.held
  rw [← hsize] at hledger
  exact hs.replace rfl hs.inRange (fun e he hc => hs.younger _ Sound.self_mem e he hc) rfl hledger
    (Nat.le_refl _) fun _ he => he

/-- No system call breaks a rule of the kernel, while no program gives up by itself and there are
numbers left for new processes. Whatever the process has in its registers and its memory, and
whatever the files hold, the call returns, or it ends the process, or it waits. -/
theorem syscall_returns_or_ends (hw : Reachable Move.Tame w)
    (hrunning : w.running = before ++ p :: after) (hnumbers : w.kernel.nextOrdinal < 0x80000000)
    (hsize : memory.size = w.kernel.machine.memory.size) (registers : Registers)
    (devices : Devices) :
    Ensures syscall (w.turn p registers memory devices)
      (fun _ t' => Returns (w.turn p registers memory devices) t')
      (fun stop _ => Ends (w.turn p registers memory devices) stop ∨
        Waits (before ++ after) (w.turn p registers memory devices) stop) := by
  have hs := sound_turn_of_size hw.sound hrunning hsize registers devices
  apply (ensures_syscall hs).mono
  · rintro _ t' ⟨call, result, t₁, hdecode, hserve, hanswered, -, hself⟩
    refine ⟨call, result, t₁, hdecode, hserve, ?_⟩
    rw [hself]
    dsimp only
    rw [hanswered.served.registers]
    exact returned_answer (hanswered.value hnumbers)
  · rintro stop t' (⟨e, hdecode, -, hended⟩ | ⟨call, hdecode, hunanswered⟩)
    · exact Or.inl ⟨hended, Or.inl ⟨e, hdecode⟩⟩
    · cases hunanswered with
      | ended code hcall hleft =>
        refine Or.inl ⟨⟨code, rfl⟩, Or.inr ?_⟩
        rcases hcall with rfl | ⟨rfl, hroot⟩
        · exact Or.inl hdecode
        · exact Or.inr ⟨hdecode, hroot⟩
      | waiting hcall hawaits hserved =>
        subst hcall
        exact Or.inr ⟨rfl, hdecode, hawaits⟩
      | fault f hcall hdied hserved =>
        obtain ⟨e, he, hdied⟩ := hdied
        exact absurd hdied (hw.unfailed e he f)

theorem syscall_returns_or_ends_sample : ∃ p,
    Reachable Move.Tame sampleWorld ∧ sampleWorld.running = [] ++ p :: [] ∧
    sampleWorld.kernel.nextOrdinal < 0x80000000 ∧
    Ensures syscall
      (sampleWorld.turn p p.registers (Memory.zeroed 10) sampleWorld.kernel.machine.devices)
      (fun _ t' => Returns
        (sampleWorld.turn p p.registers (Memory.zeroed 10) sampleWorld.kernel.machine.devices) t')
      (fun stop _ =>
        Ends (sampleWorld.turn p p.registers (Memory.zeroed 10)
          sampleWorld.kernel.machine.devices) stop ∨
        Waits ([] ++ []) (sampleWorld.turn p p.registers (Memory.zeroed 10)
          sampleWorld.kernel.machine.devices) stop) := by
  obtain ⟨p, hrunning⟩ := exists_sampleWorld
  have hsplit : sampleWorld.running = [] ++ p :: [] := hrunning
  have hreachable : Reachable Move.Tame sampleWorld :=
    reachable_sampleWorld fun registers f hf => by cases hf
  have hnumbers : sampleWorld.kernel.nextOrdinal < 0x80000000 := by decide +kernel
  have hsize : (Memory.zeroed 10).size = sampleWorld.kernel.machine.memory.size := by
    decide +kernel
  exact ⟨p, hreachable, hsplit, hnumbers,
    syscall_returns_or_ends hreachable hsplit hnumbers hsize p.registers _⟩

end PagedKernel.World

import PagedKernel.Proofs.Registers
import PagedKernel.Proofs.User.Moves
import PagedKernel.User.Schedule

/-!
# Schedules as runs

Running processes one at a time is one of the ways in which they can take their moves. So all that
holds of a world that a kernel can get to, holds of every schedule.
-/

namespace PagedKernel

open World

namespace Turn

variable {allowed : Move → Prop} {others : List Process} {t : Turn}

def Finishes (allowed : Move → Prop) (others : List Process) (last : Call Unit) : Prop :=
  ∀ t : Turn, t.Sound others → Ensures last t (fun _ _ => False)
    (fun stop t' => Run allowed (t.world others) ⟨t'.bury stop, others⟩)

private theorem Plays.finishes {last : Call Unit} (h : Plays allowed others last)
    (hends : ∀ t : Turn, t.Sound others →
      Ensures last t (fun _ _ => False) (fun stop _ => stop ≠ .waiting)) :
    Finishes allowed others last := by
  intro t ht
  apply ensures_intro
  · intro _ t' hok
    exact (hends t ht).of_ok hok
  · intro stop t' herror
    exact Ensures.of_error (h t ht) herror ((hends t ht).of_error herror)

private theorem ensures_not_waiting {last : Call Unit} {code : Int32} {after : Turn → Prop}
    (h : Ensures last t (fun _ _ => False)
      (fun stop t' => Left others t t' ∧ stop = .ended code ∧ after t')) :
    Ensures last t (fun _ _ => False) (fun stop _ => stop ≠ .waiting) := by
  apply h.mono
  · exact fun _ _ h => h
  · rintro _ t' ⟨-, rfl, -⟩
    exact nofun

variable (hallowed : ∀ m : Move, m.Tame → allowed m)
include hallowed

private theorem finishes_exit : Finishes allowed others (exit none) := by
  apply (plays_exit hallowed).finishes
  intro t ht
  exact ensures_not_waiting (ensures_exit ht none)

private theorem finishes_exception (cause : Exception) :
    Finishes allowed others (exception cause) := by
  apply (plays_exception hallowed cause).finishes
  intro t ht
  exact ensures_not_waiting (ensures_exception ht cause)

/-- A program that exits does not wait. -/
theorem finishes_finish (status : Int32) :
    Finishes allowed others (Schedule.finish status) := by
  have hplays : Plays allowed others (Schedule.finish status) :=
    (plays_trap hallowed 1 [status] (by simp)).bind fun _ => plays_exit hallowed
  apply hplays.finishes
  intro t ht
  have htrap : Ensures (trap 1 [status]) t (fun _ t' => t'.Sound others)
      (fun stop _ => stop ≠ .waiting) := by
    have hexit : CallNumber.decode 1 = .ok .exit := by decide
    unfold trap
    rw [if_neg (by simp)]
    refine ensures_bind.2 (ensures_get.2 ?_)
    dsimp only
    split
    · exact nofun
    · refine ensures_bind.2 (ensures_modify.2 ?_)
      have hstated : Left others t { t with
          self.registers := t.self.registers.withRequest ⟨1, status, 0, 0, 0⟩ } :=
        left_of_sameProcesses ht (Kernel.SameProcesses.refl _) rfl rfl rfl rfl fun _ hc => hc
      apply (ensures_syscall hstated.sound).bind
      · intro _ t' h
        exact h.spares.sound
      · rintro _ t' h rfl
        rcases h with ⟨-, -, -, code, hcode⟩ | ⟨call, hdecode, hunanswered⟩
        · cases hcode
        · cases hunanswered with
          | waiting hjoin =>
            subst hjoin
            rw [Registers.request_withRequest, hexit] at hdecode
            cases hdecode
  apply htrap.bind
  · intro _ t' ht'
    exact ensures_not_waiting (ensures_exit ht' none)
  · intro stop t' h
    exact h

end Turn

namespace Schedule

open Turn

variable {allowed : Move → Prop} {s s' : Schedule}

def running (s : Schedule) : List Process := s.stack.map Activation.process

def world (s : Schedule) : World := ⟨s.kernel, s.running⟩

def Allows (allowed : Move → Prop) (programs : Assoc Int32 Program) : Prop :=
  ∀ {pc instructions status}, (pc, Program.script instructions status) ∈ programs →
    ∀ i ∈ instructions, i.action.Permitted allowed

/-- All moves are allowed that are tame, or that programs have still to make. -/
structure Permitted (allowed : Move → Prop) (s : Schedule) : Prop where
  tame : ∀ m : Move, m.Tame → allowed m
  programs : Allows allowed s.programs
  stack : ∀ a ∈ s.stack, ∀ i ∈ a.rest, i.action.Permitted allowed

private theorem Permitted.onStack (hs : s.Permitted allowed) {a : Activation} {below : List Activation}
    (hstack : s.stack = a :: below) : (∀ i ∈ a.rest, i.action.Permitted allowed) ∧
      ∀ b ∈ below, ∀ i ∈ b.rest, i.action.Permitted allowed := by
  have hstack' := hs.stack
  rw [hstack] at hstack'
  exact List.forall_mem_cons.1 hstack'

/-- A run of the world, after which programs make moves that are allowed, as before it. -/
def Follows (allowed : Move → Prop) (w : World) (s : Schedule) : Prop :=
  Run allowed w s.world ∧ s.Permitted allowed

theorem Follows.trans {w : World} (h : Follows allowed w s) (h' : Follows allowed s.world s') :
    Follows allowed w s' := ⟨h.1.trans h'.1, h'.2⟩

private theorem follows_endWith (hs : s.Permitted allowed) {p : Process}
    (hsound : s.kernel.Sound (p :: s.running)) {last : Call Unit}
    (hlast : Finishes allowed s.running last) :
    Follows allowed ⟨s.kernel, p :: s.running⟩ (s.endWith p last) := by
  have hends := hlast ⟨s.kernel, p⟩ hsound
  unfold endWith
  split
  · next t hok => exact (hends.of_ok hok).elim
  · next stop t herror => exact ⟨hends.of_error herror, hs.tame, hs.programs, hs.stack⟩

private theorem follows_start (hs : s.Permitted allowed) {p : Process}
    (hsound : s.kernel.Sound ({ p with phase := .running } :: s.running)) :
    Follows allowed ⟨s.kernel, { p with phase := .running } :: s.running⟩ (s.start p) := by
  unfold start
  dsimp only
  split
  · next rest status hfind =>
    have htop := hs.programs (Assoc.mem_of_find? hfind)
    exact ⟨.refl, hs.tame, hs.programs, List.forall_mem_cons.2 ⟨htop, hs.stack⟩⟩
  · exact follows_endWith hs hsound (finishes_exit hs.tame)
  · let pc := p.registers.get .pc
    let lost : Process :=
      { p with phase := .running, registers := p.registers.set .badVaddr pc }
    have hlost : Run allowed ⟨s.kernel, { p with phase := .running } :: s.running⟩
        ⟨s.kernel, lost :: s.running⟩ :=
      plays_registers hs.tame (·.set .badVaddr pc) ⟨s.kernel, _⟩ hsound
    obtain ⟨hrun, hpermitted⟩ :=
      follows_endWith hs (hlost.sound hsound) (finishes_exception hs.tame .illegalInstruction)
    exact ⟨hlost.trans hrun, hpermitted⟩

private theorem follows_startReady? (hs : s.Permitted allowed) (hsound : s.kernel.Sound s.running)
    {ordinal : Nat} (h : s.startReady? ordinal = some s') : Follows allowed s.world s' := by
  obtain ⟨⟨p, k⟩, htake, rfl⟩ := Option.map_eq_some_iff.1 h
  have hready : Permitted allowed { s with kernel := k } := ⟨hs.tame, hs.programs, hs.stack⟩
  obtain ⟨hrun, hpermitted⟩ := follows_start hready (hsound.start htake)
  exact ⟨.head (.started htake) hrun, hpermitted⟩

private theorem follows_startWith? (hs : s.Permitted allowed) (hsound : s.kernel.Sound s.running)
    {pid : Pid} (h : s.startWith? pid = some s') : Follows allowed s.world s' := by
  obtain ⟨ordinal, -, hready⟩ := Option.bind_eq_some_iff.1 h
  exact follows_startReady? hs hsound hready

private theorem follows_deliver (hs : s.Permitted allowed) {a : Activation} {below : List Activation}
    {i : Instruction} {rest : List Instruction} {reply : Reply} (hstack : s.stack = a :: below)
    (hrest : a.rest = i :: rest) : Follows allowed s.world (s.deliver a below i rest reply) := by
  have hworld : s.world = (s.deliver a below i rest reply).world := by
    simp only [world, running, hstack]
    rfl
  obtain ⟨htop, hbelow⟩ := hs.onStack hstack
  rw [hrest] at htop
  refine ⟨hworld ▸ .refl, hs.tame, hs.programs, List.forall_mem_cons.2 ⟨?_, hbelow⟩⟩
  exact (List.forall_mem_cons.1 htop).2

private theorem follows_perform (hs : s.Permitted allowed) (hsound : s.kernel.Sound s.running)
    {a : Activation} {below : List Activation} {i : Instruction} {rest : List Instruction}
    (hstack : s.stack = a :: below) (hrest : a.rest = i :: rest)
    (h : s.perform a below i = some s') : Follows allowed s.world s' := by
  obtain ⟨htop, hbelow⟩ := hs.onStack hstack
  have hi : i.action.Permitted allowed := by
    apply htop
    rw [hrest]
    exact List.mem_cons_self ..
  have hworld : s.world = Turn.world ⟨s.kernel, a.process⟩ (below.map Activation.process) := by
    simp only [world, running, hstack]
    rfl
  have hturn : Turn.Sound ⟨s.kernel, a.process⟩ (below.map Activation.process) := by
    rw [running, hstack] at hsound
    exact hsound
  have hplays := plays_perform a.vars a.argc a.argv hi _ hturn
  unfold perform at h
  split at h
  · cases h
  · next stop t hne herror =>
    cases h
    rw [hworld]
    exact ⟨Ensures.of_error hplays herror hne, hs.tame, hs.programs, hbelow⟩
  · next reply t hok =>
    have hrun := Ensures.of_ok hplays hok
    rw [← hworld] at hrun
    let resumed : Schedule := { s with
      kernel := t.kernel
      stack := { a with process := t.self, yielded := some reply } :: below }
    have hresumed : Follows allowed s.world resumed :=
      ⟨hrun, hs.tame, hs.programs, List.forall_mem_cons.2 ⟨htop, hbelow⟩⟩
    cases h
    cases hstarted : (created? a.vars i.action reply).bind resumed.startWith? with
    | none => exact hresumed
    | some started =>
      obtain ⟨pid, -, hready⟩ := Option.bind_eq_some_iff.1 hstarted
      exact hresumed.trans (follows_startWith? hresumed.2 (hresumed.1.sound hsound) hready)

/-- A step of the process on top is a run of the world. -/
theorem follows_step? (hs : s.Permitted allowed) (hsound : s.kernel.Sound s.running)
    (h : s.step? = some s') : Follows allowed s.world s' := by
  unfold step? at h
  split at h
  · cases h
  · next a below hstack =>
    obtain ⟨htop, hbelow⟩ := hs.onStack hstack
    split at h
    · next hrest =>
      cases h
      rw [running, hstack] at hsound
      have hrest : Permitted allowed { s with stack := below } := ⟨hs.tame, hs.programs, hbelow⟩
      rw [world, running, hstack]
      exact follows_endWith hrest hsound (finishes_finish hs.tame _)
    · next i rest hrest =>
      split at h
      · cases h
        exact follows_deliver hs hstack hrest
      · dsimp only at h
        split at h
        · next started hstarted =>
          cases h
          obtain ⟨⟨pid, reply⟩, -, hready⟩ := Option.bind_eq_some_iff.1 hstarted
          rw [running, hstack] at hsound
          have hwaiting :
              Permitted allowed { s with stack := { a with yielded := reply } :: below } :=
            ⟨hs.tame, hs.programs, List.forall_mem_cons.2 ⟨htop, hbelow⟩⟩
          rw [world, running, hstack]
          exact follows_startWith? hwaiting hsound hready
        · exact follows_perform hs hsound hstack hrest h

private theorem follows_advance? (hs : s.Permitted allowed) (hsound : s.kernel.Sound s.running)
    (h : s.advance? = some s') : Follows allowed s.world s' := by
  unfold advance? at h
  split at h
  · next stepped hstep =>
    cases h
    exact follows_step? hs hsound hstep
  · split at h
    · obtain ⟨ordinal, -, hready⟩ := Option.bind_eq_some_iff.1 h
      exact follows_startReady? hs hsound hready
    · cases h

theorem follows_runAll (hs : s.Permitted allowed) (hsound : s.kernel.Sound s.running) (fuel : Nat) :
    Follows allowed s.world (s.runAll fuel) := by
  induction fuel generalizing s with
  | zero => exact ⟨.refl, hs⟩
  | succ fuel ih =>
    unfold runAll
    split
    · next stepped hstep =>
      have hfollows := follows_advance? hs hsound hstep
      exact hfollows.trans (ih hfollows.2 (hfollows.1.sound hsound))
    · exact ⟨.refl, hs⟩

section

variable {programs : Assoc Int32 Program}

/-- On a new machine, all that programs come to is a world that the kernel can get to. -/
theorem reachable_runAll (hallowed : ∀ m : Move, m.Tame → allowed m)
    (hprograms : Allows allowed programs) (config : Config) (devices : Devices) (root : String)
    (args : List String) (fuel : Nat) :
    Reachable allowed ((boot config devices programs root args).2.runAll fuel).world := by
  have hnew : ∀ k : Kernel, Permitted allowed { kernel := k, programs } := fun k =>
    ⟨hallowed, hprograms, fun a ha => absurd ha List.not_mem_nil⟩
  have hboot : Reachable allowed (boot config devices programs root args).2.world ∧
      (boot config devices programs root args).2.Permitted allowed := by
    unfold boot
    split
    · next pid k hspawn => exact ⟨(Reachable.boot config devices).step (.spawned hspawn), hnew k⟩
    · next stop k hspawn => exact ⟨(Reachable.boot config devices).step (.notSpawned hspawn), hnew k⟩
  exact hboot.1.run (follows_runAll hboot.2 hboot.1.sound fuel).1

/-- As long as programs break no rule, no thread dies. -/
theorem unfailed_runAll (hprograms : ∀ {pc instructions status},
      (pc, Program.script instructions status) ∈ programs → ∀ i ∈ instructions, i.action.Tame)
    (config : Config) (devices : Devices) (root : String) (args : List String) (fuel : Nat) :
    ((boot config devices programs root args).2.runAll fuel).world.Unfailed := by
  have hallows : Allows Move.Tame programs := fun hmem i hi m hm => hm (hprograms hmem i hi)
  exact (reachable_runAll (fun _ hm => hm) hallows config devices root args fuel).unfailed

end

end Schedule

end PagedKernel

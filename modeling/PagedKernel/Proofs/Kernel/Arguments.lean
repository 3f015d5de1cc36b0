import PagedKernel.Proofs.Kernel.Chronicle
import PagedKernel.Proofs.Kernel.Isolation
import PagedKernel.Proofs.User.Arguments

/-!
# Arguments survive exec

A child is given what its parent passed. Until the child changes its memory it finds the strings
there, whatever other processes do in the meantime.
-/

namespace PagedKernel

open UserMemory

namespace Kernel

variable {k k' : Kernel} {running : List Process} {p : Process}

private theorem Grown.alike (h : Grown running k k') (hs : k.Sound running)
    (hp : p ∈ running ++ k.ready) :
    Alike ⟨p.table, k.machine.memory⟩ ⟨p.table, k'.machine.memory⟩ where
  mapping := rfl
  byte a := by
    apply byte?_congr
    · rfl
    · intro f hf
      exact h.foreign f (hs.not_free hp hf)

end Kernel

namespace Turn

open Kernel

variable {t t' : Turn} {others : List Process} {q : Process} {stop : Stop Errno}
variable {happened : List Happening}

private theorem Spares.alike (h : Spares others t t') (hq : q ∈ others ++ t.kernel.ready) :
    Alike ⟨q.table, t.kernel.machine.memory⟩ ⟨q.table, t'.kernel.machine.memory⟩ :=
  ⟨rfl, h.byte? hq⟩

private theorem GainsChild.given {child : Process} {q : CallRequest}
    (h : GainsChild others q t t' child) :
    ∃ args, t.memory.Passes q args ∧
      UserMemory.Given ⟨child.table, t'.kernel.machine.memory⟩ child.registers args := by
  obtain ⟨name, args, t₁, -, hpasses, hruns⟩ := h.passed
  have hmem : child ∈ t.self :: others ++ t'.kernel.ready := by
    rw [h.takesUp.ready]
    simp
  exact ⟨args, hpasses, hruns.given (h.grown.sound.framed hmem) hpasses.points.noZero⟩

private theorem Does.mapping (h : t.Does happened t') :
    t'.self.table.mapping = t.self.table.mapping := by
  cases h with
  | works hworks => exact hworks.mapping
  | begets hworks hchild hafter => exact hafter.mapping.trans hworks.mapping
  | unstarts hworks hafter => exact hafter.mapping.trans hworks.mapping
  | reaps hchild hrecord hworks => exact hworks.mapping
  | misses hchild hrecord hworks => exact hworks.mapping

/-- A call that the kernel answers leaves the answer in the registers, and a line in the log if it was
refused. -/
theorem exists_call_eq {t₁ : Turn} {call : CallNumber} {result : Except Errno Nat}
    (hon : t.kernel.machine.poweredOff = false)
    (hcall : CallNumber.decode t.self.registers.request.number = .ok call)
    (hserve : attempt (serve call t.self.registers.request) t = .ok result t₁) :
    ∃ log, Move.call.run t = .ok ⟨⟩
      ⟨{ t₁.kernel with machine := { t₁.kernel.machine with log } },
        { t₁.self with registers := t₁.self.registers.answer result }⟩ := by
  let events : List Event := match result with
    | .ok _ => []
    | .error e => [.callFailed t.self.registers.request.number e]
  refine ⟨events ++ t₁.kernel.machine.log, Ensures.eq_ok ?_⟩
  apply Move.ensures_call
  · intro hoff
    rw [hon] at hoff
    cases hoff
  · unfold syscall
    rw [ensures_bind, ensures_get]
    simp only [hcall]
    rw [ensures_bind]
    apply (ensures_of_ok hserve).2
    cases result <;> exact ⟨trivial, rfl⟩

end Turn

namespace World

open Turn Kernel

variable {allowed : Move → Prop} {w w' : World} {before after : List Process} {p p' child : Process}
variable {m : Move} {happened : List Happening} {ordinal : Nat} {q : CallRequest} {t t₁ : Turn}
    {n : Nat}
variable {start : UserMemory}

/-- A step in which a process changes no byte of its memory, should it be the one that moves. -/
structure Unwritten (ordinal : Nat) (w w' : World) : Prop where
  step : Step (fun _ => True) w w'
  own : ∀ before p after m, w.Acts before p after m w' → p.ordinal = ordinal →
    ∀ p' ∈ w'.running, p'.ordinal = ordinal → ∀ a, w'.byte? p' a = w.byte? p a

/-- When a process moves, whoever reads its own bytes as before keeps its memory. -/
theorem MoveOutcome.exists_alike (hrunning : w.running = before ++ p :: after)
    (h : w.MoveOutcome before p after m happened w')
    (hready : p' ∈ w'.kernel.ready → p' ∈ w.kernel.ready) (hp' : p' ∈ w'.processes)
    (hown : p.ordinal = p'.ordinal → p' ∈ w'.running → ∀ a, w'.byte? p' a = w.byte? p a) :
    ∃ q ∈ w.processes, q.ordinal = p'.ordinal ∧ Alike (w.memory q) (w'.memory p') := by
  have hothers : ∀ q ∈ before ++ after ++ w.kernel.ready, q ∈ w.processes :=
    fun q hq => (mem_processes_iff hrunning).2 (.inr hq)
  cases h with
  | @goesOn happened t hspares hdoes hnotes =>
    rcases (mem_processes_iff (w := ⟨t.kernel, _⟩) rfl).1 hp' with rfl | hother
    · have hself : p ∈ w.processes := (mem_processes_iff hrunning).2 (.inl rfl)
      have hrun : t.self ∈ before ++ t.self :: after :=
        List.mem_append_right _ (List.mem_cons_self ..)
      exact ⟨p, hself, hspares.ordinal.symm, hdoes.mapping, hown hspares.ordinal.symm hrun⟩
    · have hold := List.mem_append.2 ((List.mem_append.1 hother).imp_right hready)
      exact ⟨p', hothers p' hold, rfl, hspares.alike hold⟩
  | waits => exact ⟨p', hp', rfl, .refl _⟩
  | @ends happened t stop hspares hstop hceases hfault =>
    have hother : p' ∈ before ++ after ++ w.kernel.ready :=
      List.mem_append.2 ((List.mem_append.1 hp').imp_right hready)
    have halike := hspares.alike hother
    rw [← (hspares.sound.bury stop).memory] at halike
    exact ⟨p', hothers p' hother, rfl, halike⟩

private theorem Unwritten.exists_alike (h : Unwritten ordinal w w') (hs : w.kernel.Sound w.running)
    (hlt : ordinal < w.kernel.nextOrdinal) (hp' : p' ∈ w'.processes) (hself : p'.ordinal = ordinal) :
    ∃ q ∈ w.processes, q.ordinal = p'.ordinal ∧ Alike (w.memory q) (w'.memory p') := by
  subst hself
  have hready : p' ∈ w'.kernel.ready → p' ∈ w.kernel.ready := by
    intro hmem
    rcases (h.step.addsReadyLast hs).ready p' hmem with hold | hnew
    · exact hold
    · exact absurd hnew (Nat.not_le.2 hlt)
  have hold : ∀ running, p' ∈ running ++ w'.kernel.ready → p' ∈ running ++ w.kernel.ready := by
    intro running hmem
    exact List.mem_append.2 ((List.mem_append.1 hmem).imp_right hready)
  obtain ⟨hstep, hown⟩ := h
  cases hstep with
  | spawned hspawn =>
    have hgrown := ((ensures_spawn hs _ _).of_ok hspawn).1
    exact ⟨p', hold _ hp', rfl, hgrown.alike hs (hold _ hp')⟩
  | notSpawned hspawn =>
    have hgrown := ((ensures_spawn hs _ _).of_error hspawn).1
    exact ⟨p', hold _ hp', rfl, hgrown.alike hs (hold _ hp')⟩
  | started htake =>
    obtain ⟨found, hfind, heq⟩ := Option.map_eq_some_iff.1 htake
    cases heq
    rcases List.mem_cons.1 hp' with rfl | hother
    · exact ⟨_, List.mem_append_right _ (List.mem_of_find?_eq_some hfind), rfl, .refl _⟩
    · exact ⟨p', hold _ hother, rfl, .refl _⟩
  | changed devices => exact ⟨p', hp', rfl, .refl _⟩
  | acted hallowed hacts =>
    apply (hacts.moveOutcome hs).exists_alike hacts.running_eq hready hp'
    intro hself hrun
    exact hown _ _ _ _ hacts hself p' hrun rfl

/-- Since it was created a process has kept its memory, and until it is started it is what it was. -/
structure Intact (child : Process) (start : UserMemory) (w : World) : Prop where
  sound : w.kernel.Sound w.running
  numbered : child.ordinal < w.kernel.nextOrdinal
  waiting : ∀ p ∈ w.kernel.ready, p.ordinal = child.ordinal → p = child
  alike : ∀ p ∈ w.processes, p.ordinal = child.ordinal → Alike start (w.memory p)

private theorem Intact.step (hw : Intact child start w) (h : Unwritten child.ordinal w w') :
    Intact child start w' where
  sound := h.step.sound hw.sound
  numbered := Nat.lt_of_lt_of_le hw.numbered (h.step.addsReadyLast hw.sound).nextOrdinal
  waiting p hp hself := by
    rcases (h.step.addsReadyLast hw.sound).ready p hp with hold | hnew
    · exact hw.waiting p hold hself
    · rw [hself] at hnew
      exact absurd hnew (Nat.not_le.2 hw.numbered)
  alike p hp hself := by
    obtain ⟨q, hq, hsame, halike⟩ := h.exists_alike hw.sound hw.numbered hp hself
    exact (hw.alike q hq (hsame.trans hself)).trans halike

private theorem Intact.run (hw : Intact child start w)
    (h : Relation.ReflTransGen (Unwritten child.ordinal) w w') : Intact child start w' := by
  induction h with
  | refl => exact hw
  | tail _ hstep ih => exact ih.step hstep

/-- An exec of the process `p` has returned the number `n`, and the world goes on from there. The
strings behind the pointers of `p` are `args`. The child starts with their number and with its
pointers at the end of its stack, and as long as it changes no byte of its memory it finds `args`. -/
structure Equips (w : World) (before : List Process) (p : Process) (after : List Process) (n : Nat)
    (t : Turn) (args : List String) (child : Process) : Prop where
  passed : ∀ strings, (w.memory p).Passes p.registers.request strings ↔ strings = args
  answer : t.self.registers.get .v0 = Int32.ofNat n
  pid : child.pid = ⟨Int32.ofNat n⟩
  ready : t.kernel.ready = w.kernel.ready ++ [child]
  argc : child.registers.get .a0 = p.registers.request.arg2
  argv : child.registers.get .a1 = child.registers.get .sp
  found : ∀ w', Relation.ReflTransGen (Unwritten child.ordinal)
      ⟨t.kernel, before ++ t.self :: after⟩ w' →
    (∀ p' ∈ w'.kernel.ready, p'.ordinal = child.ordinal → p' = child) ∧
    ∀ p' ∈ w'.running, p'.ordinal = child.ordinal → ∀ vars, ∃ t',
      perform vars (child.registers.get .a0) (child.registers.get .a1).toUInt32 .arguments
        ⟨w'.kernel, p'⟩ = .ok (.texts args) t'

private theorem answer_of_resumes {others : List Process} (h : Resumes others ⟨w.kernel, p⟩ t)
    (hcall : CallNumber.decode p.registers.request.number = .ok .exec)
    (hexec : exec p.registers.request ⟨w.kernel, p⟩ = .ok n t₁) :
    t₁.kernel.SameProcesses t.kernel ∧
      t.self = { t₁.self with registers := t₁.self.registers.answer (.ok n) } := by
  obtain ⟨call, result, t₂, hdecode, hattempt, -, hsameprocs, hself⟩ := h
  rw [hcall, Except.ok.injEq] at hdecode
  subst hdecode
  have hreturns : attempt (exec p.registers.request) ⟨w.kernel, p⟩ = .ok (.ok n) t₁ := by
    rw [attempt, hexec]
  change attempt (exec p.registers.request) ⟨w.kernel, p⟩ = .ok result t₂ at hattempt
  rw [hreturns] at hattempt
  cases hattempt
  exact ⟨hsameprocs, hself⟩

private theorem intact_of_takesUp (hs : w.kernel.Sound w.running) (hs' : w'.kernel.Sound w'.running)
    (hnumbers : ∀ q ∈ w'.running, q.ordinal < w.kernel.nextOrdinal)
    (hchild : w.kernel.TakesUp t₁.kernel child) (hsameprocs : t₁.kernel.SameProcesses w'.kernel) :
    Intact child (w'.memory child) w' := by
  have hwaiting : ∀ q ∈ w'.kernel.ready, q.ordinal = child.ordinal → q = child := by
    intro q hq hself
    rw [hsameprocs.ready, hchild.ready] at hq
    rcases List.mem_append.1 hq with hold | hnew
    · have hlt := hs.numbered q (List.mem_append_right _ hold)
      rw [hself, hchild.ordinal] at hlt
      exact absurd hlt (Nat.lt_irrefl _)
    · exact List.mem_singleton.1 hnew
  refine ⟨hs', ?_, hwaiting, ?_⟩
  · rw [hsameprocs.nextOrdinal]
    exact hchild.ordinal_lt
  · intro q hq hself
    rcases List.mem_append.1 hq with hrun | hwait
    · have hlt := hnumbers q hrun
      rw [hself, hchild.ordinal] at hlt
      exact absurd hlt (Nat.lt_irrefl _)
    · rw [hwaiting q hwait hself]
      exact .refl _

/-- As long as the child changes no byte of its memory, it finds the arguments that it was given. -/
theorem Intact.exists_perform_eq {args : List String} (hw : Intact child start w)
    (hgiven : start.Given child.registers args) (hp : p ∈ w.running)
    (hself : p.ordinal = child.ordinal) (vars : Kept) :
    ∃ t', perform vars (child.registers.get .a0) (child.registers.get .a1).toUInt32
      .arguments ⟨w.kernel, p⟩ = .ok (.texts args) t' := by
  have hmem : p ∈ w.processes := List.mem_append_left _ hp
  have hframed : (Turn.memory ⟨w.kernel, p⟩).Framed := hw.sound.framed hmem
  have halike : Alike start (Turn.memory ⟨w.kernel, p⟩) := hw.alike p hmem hself
  obtain ⟨t', hfound, -⟩ := yields_arguments vars hframed (halike.given hgiven)
  exact ⟨t', hfound⟩

/-- Arguments survive exec. Whatever lies behind the pointers that a process passes, an exec that
returns a number has found strings there. They are what the child is given, and what it finds until it
changes its memory. -/
theorem Reachable.arguments_survive_exec (hw : Reachable allowed w)
    (hrunning : w.running = before ++ p :: after)
    (hcall : CallNumber.decode p.registers.request.number = .ok .exec)
    (hrun : Move.call.run ⟨w.kernel, p⟩ = .ok ⟨⟩ t)
    (hexec : exec p.registers.request ⟨w.kernel, p⟩ = .ok n t₁) :
    ∃ args child, w.Equips before p after n t args child := by
  have hs := sound_turn hw.sound hrunning
  have hresumes := (ensures_call hs).of_ok hrun
  have hspares := hresumes.spares
  obtain ⟨hsameprocs, hself⟩ := answer_of_resumes hresumes hcall hexec
  obtain ⟨hn, child, hgains⟩ := (ensures_exec_gainsChild hs _).of_ok hexec
  obtain ⟨args, hpasses, hgiven⟩ := hgains.given
  rw [← hsameprocs.memory] at hgiven
  have hpid : child.pid = ⟨Int32.ofNat n⟩ := by
    rw [hgains.takesUp.pid, hn, Pid.ofNat_toNat]
  let next : World := ⟨t.kernel, before ++ t.self :: after⟩
  have hintact : Intact child (next.memory child) next := by
    refine intact_of_takesUp hw.sound (sound_of_turn hspares.sound) ?_ hgains.takesUp hsameprocs
    intro q hq
    rcases List.mem_cons.1 (List.perm_middle.mem_iff.1 hq) with rfl | hother
    · rw [hspares.ordinal]
      exact hs.numbered p (List.mem_cons_self ..)
    · exact hs.numbered q (List.mem_cons_of_mem _ (List.mem_append_left _ hother))
  refine ⟨args, child, ?_, ?_, hpid, hsameprocs.ready.trans hgains.takesUp.ready, ?_, hgiven.stack, ?_⟩
  · intro strings
    constructor
    · intro h
      exact h.unique hpasses
    · rintro rfl
      exact hpasses
  · rw [hself]
    exact Registers.get_v0_ok t₁.self.registers n
  · apply Int32.toInt_inj.1
    rw [hgiven.count, hpasses.count]
  · intro w' hlater
    have hkept := hintact.run hlater
    refine ⟨hkept.waiting, ?_⟩
    intro p' hp' hsame vars
    exact hkept.exists_perform_eq hgiven hp' hsame vars

def samplePassed : Bytes :=
  wordBytes 8204 ++ (wordBytes 8205 ++ (wordBytes 8207 ++ ArgumentArea.terminated "hé"))

theorem points_samplePassed {m : UserMemory} (h : m.Holds 8192 samplePassed) :
    m.Points 8192 ["hé", "é", ""] ∧ m.HoldsString 8207 "" := by
  have hstring : ArgumentArea.terminated "hé" = [0x68, 0xC3, 0xA9, 0] := by decide +kernel
  have hend : ArgumentArea.terminated "é" = [0xC3, 0xA9, 0] := by decide +kernel
  have hempty : ArgumentArea.terminated "" = [0] := by decide +kernel
  obtain ⟨hfirst, h⟩ := holds_append.1 h
  obtain ⟨hsecond, h⟩ := holds_append.1 h
  obtain ⟨hthird, h⟩ := holds_append.1 h
  simp only [length_wordBytes] at hsecond hthird h
  have hwhole : m.HoldsString 8204 "hé" := ⟨h, by decide +kernel⟩
  rw [hstring] at h
  have hpart := (holds_cons.1 h).2
  have hlast := (holds_cons.1 (holds_cons.1 hpart).2).2
  rw [← hend] at hpart
  rw [← hempty] at hlast
  have hrest : m.HoldsString 8205 "é" := ⟨hpart, by decide +kernel⟩
  have hnone : m.HoldsString 8207 "" := ⟨hlast, by decide +kernel⟩
  refine ⟨points_cons.2 ⟨⟨8204, by decide, hfirst, hwhole⟩, ?_⟩, hnone⟩
  refine points_cons.2 ⟨⟨8205, by decide, hsecond, hrest⟩, ?_⟩
  exact points_cons.2 ⟨⟨8207, by decide, hthird, hnone⟩, points_nil⟩

def sampleStarted : List Happening × World :=
  story sampleRoot [.start 1,
    .move (.compute (Registers.cleared.withRequest ⟨2, 8207, 3, 8192, 0⟩))]

def sampleCaller : World := ((Cue.move (.store 8192 samplePassed)).play sampleStarted.2).2

theorem exists_sampleCaller : ∃ p, Reachable Move.Tame sampleCaller ∧
    sampleCaller.running = [p] ∧ (sampleCaller.memory p).Holds 8192 samplePassed := by
  have hstarted : Chronicle Move.Tame sampleStarted.1 sampleStarted.2 := by
    apply chronicle_story chronicle_sampleRoot
    simp [Move.Tame]
  have hreachable : Reachable Move.Tame sampleCaller := by
    apply Chronicle.reachable
    apply hstarted.play
    simp [Move.Tame]
  have hlength : sampleStarted.2.running.length = 1 := by decide +kernel
  obtain ⟨p, hp⟩ := List.length_eq_one_iff.1 hlength
  have hmem : p ∈ sampleStarted.2.running := hp ▸ List.mem_singleton_self p
  have hwritable : ∀ p ∈ sampleStarted.2.running, ∀ i < samplePassed.length,
      p.table.permits .write (8192 + i) = true := by decide +kernel
  have hs : Turn.Sound ⟨sampleStarted.2.kernel, p⟩ [] := by
    have hsound := hstarted.reachable.sound
    rwa [hp] at hsound
  obtain ⟨t, hstore, hholds⟩ := exists_storeBytes_eq hs.framed hs.nodup (hwritable p hmem)
  have hcaller : sampleCaller = ⟨t.kernel, [t.self]⟩ := by
    simp only [sampleCaller, Cue.play, hp, Move.run, hstore]
  refine ⟨t.self, hreachable, ?_, ?_⟩
  · rw [hcaller]
  · rw [hcaller]
    exact hholds

theorem arguments_survive_exec_sample : ∃ p t t₁ child, Reachable Move.Tame sampleCaller ∧
    sampleCaller.running = [] ++ p :: [] ∧
    CallNumber.decode p.registers.request.number = .ok .exec ∧
    Move.call.run ⟨sampleCaller.kernel, p⟩ = .ok ⟨⟩ t ∧
    exec p.registers.request ⟨sampleCaller.kernel, p⟩ = .ok 2 t₁ ∧
    sampleCaller.Equips [] p [] 2 t ["hé", "é", ""] child := by
  obtain ⟨p, hreachable, hp, hholds⟩ := exists_sampleCaller
  have hrunning : sampleCaller.running = [] ++ p :: [] := hp
  have hmem : p ∈ sampleCaller.running := hp ▸ List.mem_singleton_self p
  obtain ⟨hpoints, hname⟩ := points_samplePassed hholds
  have hrequests : ∀ p ∈ sampleCaller.running, p.registers.request = ⟨2, 8207, 3, 8192, 0⟩ := by
    decide +kernel
  have hsizes : ∀ p ∈ sampleCaller.running, p.table.size = 16384 := by decide +kernel
  have hrequest := hrequests p hmem
  have hsize := hsizes p hmem
  have hshort : ∀ s ∈ ["", "hé", "é", ""], Turn.Short ⟨sampleCaller.kernel, p⟩ s := by
    have hlengths : ∀ s ∈ ["", "hé", "é", ""], (Text.utf8 s).length ≤
        sampleCaller.kernel.machine.config.maxStringLength := by decide +kernel
    exact hlengths
  have hspawn : answer? (Kernel.spawn "" ["hé", "é", ""] sampleCaller.kernel) = some ⟨2⟩ := by
    decide +kernel
  have hframed : (Turn.memory ⟨sampleCaller.kernel, p⟩).Framed :=
    hreachable.sound.framed (List.mem_append_left _ hmem)
  have hpasses : (sampleCaller.memory p).Passes p.registers.request ["hé", "é", ""] := by
    rw [hrequest]
    exact ⟨by decide, hpoints⟩
  have hfound : Yields (execArguments p.registers.request) ⟨sampleCaller.kernel, p⟩
      ("", ["hé", "é", ""]) := by
    have hnameVa : p.table.pointer? p.registers.request.arg1 = some ⟨8207, by decide⟩ := by
      rw [PageTable.pointer?_eq_some_iff, hrequest, hsize]
      decide
    have hargv : p.table.pointer? p.registers.request.arg3 = some ⟨8192, by decide⟩ := by
      rw [PageTable.pointer?_eq_some_iff, hrequest, hsize]
      decide
    apply yields_execArguments hframed _ hnameVa hname hargv hpasses hshort
    change p.table.size ≤ 2 ^ 31
    rw [hsize]
    decide
  have hcall : CallNumber.decode p.registers.request.number = .ok .exec := by
    rw [hrequest]
    decide
  have hon : sampleCaller.kernel.machine.poweredOff = false := by decide +kernel
  obtain ⟨k, hchild⟩ := answer?_eq_some_iff.1 hspawn
  obtain ⟨t₁, hexec⟩ := exists_exec_eq hfound hchild
  have hserve : attempt (exec p.registers.request) ⟨sampleCaller.kernel, p⟩ = .ok (.ok 2) t₁ := by
    rw [attempt, hexec]
    rfl
  obtain ⟨log, hrun⟩ := exists_call_eq (t := ⟨sampleCaller.kernel, p⟩) hon hcall hserve
  obtain ⟨args, child, hequips⟩ := hreachable.arguments_survive_exec hrunning hcall hrun hexec
  have hargs : ["hé", "é", ""] = args := (hequips.passed _).1 hpasses
  exact ⟨p, _, t₁, child, hreachable, hrunning, hcall, hrun, hexec, hargs ▸ hequips⟩

end World

end PagedKernel

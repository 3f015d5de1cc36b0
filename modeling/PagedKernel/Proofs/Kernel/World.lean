import PagedKernel.Proofs.Kernel.Moves

/-!
# A kernel with its programs

The processes that have the processor take their moves in any order. Besides, the host creates
processes, lets those run that are ready, and puts what it likes on the devices.
-/

namespace PagedKernel

/-- A kernel with the processes that have been given the processor. -/
structure World where
  kernel : Kernel
  running : List Process

namespace World

def processes (w : World) : List Process := w.running ++ w.kernel.ready

def memory (w : World) (p : Process) : UserMemory := ⟨p.table, w.kernel.machine.memory⟩

def byte? (w : World) (p : Process) (a : Nat) : Option UInt8 :=
  (⟨p.table, w.kernel.machine.memory⟩ : UserMemory).byte? a

/-- A process moves, among those before and after it. One that has to wait makes its move another
time, and one that stops is gone. -/
inductive Acts (w : World) (before : List Process) (p : Process) (after : List Process) (m : Move) :
    World → Prop
  | goesOn {t : Turn} (hw : w.running = before ++ p :: after)
      (hrun : m.run ⟨w.kernel, p⟩ = .ok ⟨⟩ t) :
      Acts w before p after m ⟨t.kernel, before ++ t.self :: after⟩
  | waits {t : Turn} (hw : w.running = before ++ p :: after)
      (hrun : m.run ⟨w.kernel, p⟩ = .error .waiting t) : Acts w before p after m w
  | stops {t : Turn} {stop : Stop Errno} (hw : w.running = before ++ p :: after)
      (hrun : m.run ⟨w.kernel, p⟩ = .error stop t) (hstop : stop ≠ .waiting) :
      Acts w before p after m ⟨t.bury stop, before ++ after⟩

/-- One step, in which programs make allowed moves only. -/
inductive Step (allowed : Move → Prop) (w : World) : World → Prop
  | spawned {name : String} {args : List String} {pid : Pid} {k : Kernel}
      (hspawn : Kernel.spawn name args w.kernel = .ok pid k) : Step allowed w ⟨k, w.running⟩
  | notSpawned {name : String} {args : List String} {stop : Stop Errno} {k : Kernel}
      (hspawn : Kernel.spawn name args w.kernel = .error stop k) : Step allowed w ⟨k, w.running⟩
  | started {ordinal : Nat} {p : Process} {k : Kernel}
      (hready : w.kernel.takeReady? ordinal = some (p, k)) :
      Step allowed w ⟨k, { p with phase := .running } :: w.running⟩
  | acted {before after : List Process} {p : Process} {m : Move} {w' : World} (hallowed : allowed m)
      (hacts : w.Acts before p after m w') : Step allowed w w'
  | changed (devices : Devices) :
      Step allowed w ⟨{ w.kernel with machine := { w.kernel.machine with devices } }, w.running⟩

/-- The worlds that a kernel can get to from its start on a new machine. -/
inductive Reachable (allowed : Move → Prop) : World → Prop
  | boot (config : Config) (devices : Devices) : Reachable allowed ⟨.boot config devices, []⟩
  | step {w w' : World} (hw : Reachable allowed w) (hstep : Step allowed w w') :
      Reachable allowed w'

def Unfailed (w : World) : Prop := ∀ e ∈ w.kernel.records, ∀ f, e.2.outcome ≠ some (.died f)

variable {w : World} {before after : List Process} {p : Process}

theorem processes_perm (hrunning : w.running = before ++ p :: after) :
    w.processes.Perm (p :: (before ++ after ++ w.kernel.ready)) := by
  rw [processes, hrunning]
  exact List.perm_middle.append_right _

theorem mem_processes_iff {q : Process} (hrunning : w.running = before ++ p :: after) :
    q ∈ w.processes ↔ q = p ∨ q ∈ before ++ after ++ w.kernel.ready := by
  rw [(processes_perm hrunning).mem_iff, List.mem_cons]

theorem sound_turn (h : w.kernel.Sound w.running) (hrunning : w.running = before ++ p :: after) :
    Turn.Sound ⟨w.kernel, p⟩ (before ++ after) :=
  h.perm (processes_perm hrunning) rfl rfl rfl

theorem sound_of_turn {t : Turn} (h : t.Sound (before ++ after)) :
    t.kernel.Sound (before ++ t.self :: after) :=
  h.perm (List.perm_middle.symm.append_right t.kernel.ready) rfl rfl rfl

end World

namespace Kernel

variable {k k' : Kernel} {running : List Process} {p : Process} {ordinal : Nat}

theorem Sound.start (h : k.Sound running) (hready : k.takeReady? ordinal = some (p, k')) :
    k'.Sound ({ p with phase := .running } :: running) := by
  obtain ⟨found, hfind, heq⟩ := Option.map_eq_some_iff.1 hready
  cases heq
  obtain ⟨hself, first, last, hsplit, -⟩ := List.find?_eq_some_iff_append.1 hfind
  have hself : p.ordinal = ordinal := by simpa using hself
  let stay : Process → Bool := fun q => !decide (q.ordinal = ordinal)
  have hcases : ∀ q ∈ { p with phase := .running } :: running ++ k.ready.filter stay,
      q = { p with phase := .running } ∨ q ∈ running ++ k.ready := by
    intro q hq
    refine (List.mem_cons.1 hq).imp_right fun hrest => List.mem_append.2 ?_
    exact (List.mem_append.1 hrest).imp_right fun hready => (List.mem_filter.1 hready).1
  have hmem : p ∈ running ++ k.ready :=
    List.mem_append_right _ (List.mem_of_find?_eq_some hfind)
  refine ⟨?_, ?_, ?_, ?_, ?_⟩
  · have hstay : (k.ready.filter stay).Sublist (first ++ last) := by
      rw [hsplit, List.filter_append, List.filter_cons_of_neg (by simp [stay, hself])]
      exact List.filter_sublist.append List.filter_sublist
    have hperm : (running ++ k.ready).Perm (p :: (running ++ (first ++ last))) := by
      rw [hsplit, ← List.append_assoc, ← List.append_assoc]
      exact List.perm_middle
    refine (h.ledger.perm (heldBy_perm hperm)).sublist ?_
    exact ((hstay.append_left running).flatMap _).append_left p.table.mapped
  · intro q hq
    rcases hcases q hq with rfl | hold
    · exact h.descriptors p hmem
    · exact h.descriptors q hold
  · intro e he hnone
    obtain ⟨q, hq, hrecorded⟩ := h.awaited e he hnone
    by_cases hsame : q.ordinal = ordinal
    · exact ⟨_, List.mem_cons_self .., hself.trans (hsame.symm.trans hrecorded)⟩
    · refine ⟨q, List.mem_cons_of_mem _ ?_, hrecorded⟩
      refine List.mem_append.2 ((List.mem_append.1 hq).imp_right fun hready => ?_)
      exact List.mem_filter.2 ⟨hready, by simp [hsame]⟩
  · intro q hq
    rcases hcases q hq with rfl | hold
    · exact h.numbered p hmem
    · exact h.numbered q hold
  · intro q hq
    rcases hcases q hq with rfl | hold
    · exact h.younger p hmem
    · exact h.younger q hold

end Kernel

namespace World

variable {allowed : Move → Prop} {w w' : World} {before after : List Process} {p : Process}
variable {m : Move} {happened : List Happening}

/-- What a move of one process comes to: what is seen to happen, and the world after it. The process
goes on, has to wait, or is gone. -/
inductive MoveOutcome (w : World) (before : List Process) (p : Process) (after : List Process)
    (m : Move) :
    List Happening → World → Prop
  | goesOn {happened : List Happening} {t : Turn}
      (hspares : Turn.Spares (before ++ after) ⟨w.kernel, p⟩ t)
      (hdoes : Turn.Does ⟨w.kernel, p⟩ happened t)
      (hnotes : w.kernel.machine.poweredOff = true → Turn.WorksOnMemory ⟨w.kernel, p⟩ t) :
      MoveOutcome w before p after m happened ⟨t.kernel, before ++ t.self :: after⟩
  | waits : MoveOutcome w before p after m [] w
  | ends {happened : List Happening} {t : Turn} {stop : Stop Errno}
      (hspares : Turn.Spares (before ++ after) ⟨w.kernel, p⟩ t) (hstop : stop ≠ .waiting)
      (hceases : Turn.Ceases ⟨w.kernel, p⟩ stop happened t)
      (hfault : ∀ f, stop = .fault f → m.Tame →
        ∃ e ∈ w.kernel.records, e.2.outcome = some (.died f)) :
      MoveOutcome w before p after m happened ⟨t.bury stop, before ++ after⟩

theorem Acts.running_eq (h : w.Acts before p after m w') : w.running = before ++ p :: after := by
  cases h with
  | goesOn hrunning hrun => exact hrunning
  | waits hrunning hrun => exact hrunning
  | stops hrunning hrun hstop => exact hrunning

theorem Acts.mem_running (h : w.Acts before p after m w') : p ∈ w.running := by
  rw [h.running_eq]
  exact List.mem_append_right _ (List.mem_cons_self ..)

theorem Acts.moveOutcome (hw : w.kernel.Sound w.running) (h : w.Acts before p after m w') :
    w.MoveOutcome before p after m (m.tells ⟨w.kernel, p⟩) w' := by
  have hmove := Move.ensures_run_tells (sound_turn hw h.running_eq) m
  cases h with
  | goesOn hrunning hrun =>
    obtain ⟨hspares, hdoes, hnotes⟩ := hmove.of_ok hrun
    exact .goesOn hspares hdoes hnotes
  | waits hrunning hrun =>
    obtain ⟨-, -, hceases⟩ := hmove.of_error hrun
    generalize m.tells ⟨w.kernel, p⟩ = happened at hceases ⊢
    cases hceases
    exact .waits
  | stops hrunning hrun hstop =>
    obtain ⟨hspares, hfault, hceases⟩ := hmove.of_error hrun
    exact .ends hspares hstop hceases hfault

theorem MoveOutcome.sound (hw : w.kernel.Sound w.running)
    (h : w.MoveOutcome before p after m happened w') :
    w'.kernel.Sound w'.running := by
  cases h with
  | goesOn hspares => exact sound_of_turn hspares.sound
  | waits => exact hw
  | ends hspares => exact (hspares.sound.bury _).sound

theorem Step.sound (hw : w.kernel.Sound w.running) (h : Step allowed w w') :
    w'.kernel.Sound w'.running := by
  cases h with
  | spawned hspawn => exact ((Kernel.ensures_spawn hw _ _).of_ok hspawn).1.sound
  | notSpawned hspawn => exact ((Kernel.ensures_spawn hw _ _).of_error hspawn).1.sound
  | started hready => exact hw.start hready
  | acted hallowed hacts => exact (hacts.moveOutcome hw).sound hw
  | changed devices =>
    exact hw.unchanged rfl hw.ledger (Nat.le_refl _) fun _ he => he

theorem Reachable.sound (hw : Reachable allowed w) : w.kernel.Sound w.running := by
  induction hw with
  | boot config devices => exact Kernel.Sound.boot config devices
  | step hw hstep ih => exact hstep.sound ih

theorem MoveOutcome.addsReadyLast (h : w.MoveOutcome before p after m happened w') :
    w.kernel.AddsReadyLast w'.kernel := by
  cases h with
  | goesOn hspares hdoes => exact hdoes.addsReadyLast
  | waits => exact Kernel.addsReadyLast_of_eq rfl rfl
  | @ends happened t stop hspares hstop hceases =>
    have hburies := hspares.sound.buries stop
    exact (hceases.addsReadyLast hstop).trans
      (Kernel.addsReadyLast_of_eq hburies.nextOrdinal hburies.ready)

theorem Step.addsReadyLast (hs : w.kernel.Sound w.running) (h : Step allowed w w') :
    w.kernel.AddsReadyLast w'.kernel := by
  cases h with
  | spawned hspawn =>
    obtain ⟨-, -, p, hp⟩ := (Kernel.ensures_spawn hs _ _).of_ok hspawn
    exact hp.addsReadyLast
  | notSpawned hspawn =>
    obtain ⟨-, habides, -, hturnsDown⟩ := (Kernel.ensures_spawn hs _ _).of_error hspawn
    exact Kernel.addsReadyLast_of_ready_eq hturnsDown.le habides.ready
  | started hready =>
    obtain ⟨found, -, heq⟩ := Option.map_eq_some_iff.1 hready
    cases heq
    exact ⟨Nat.le_refl _, fun q hq => Or.inl (List.mem_filter.1 hq).1⟩
  | acted hallowed hacts => exact (hacts.moveOutcome hs).addsReadyLast
  | changed devices => exact Kernel.addsReadyLast_of_eq rfl rfl

private theorem MoveOutcome.unfailed (hf : w.Unfailed) (hm : m.Tame)
    (h : w.MoveOutcome before p after m happened w') : w'.Unfailed := by
  have hkept : ∀ {others : List Process} {t : Turn}, Turn.Spares others ⟨w.kernel, p⟩ t →
      ∀ e ∈ t.kernel.records, ∀ f, e.2.outcome ≠ some (.died f) := by
    intro others t hspares e he f hdied
    rcases hspares.records e he with hold | hnone
    · exact hf e hold f hdied
    · rw [hdied] at hnone
      cases hnone
  cases h with
  | goesOn hspares => exact hkept hspares
  | waits => exact hf
  | ends hspares hstop hceases hfault =>
    intro e he f hdied
    rcases Turn.mem_records_bury hspares.sound he with hold | hnew
    · exact hkept hspares e hold f hdied
    · obtain ⟨old, hold, hfailed⟩ := hfault f (hnew f hdied) hm
      exact hf old hold f hfailed

private theorem unfailed_of_grown {k : Kernel} (hf : w.Unfailed)
    (h : Kernel.Grown w.running w.kernel k) : Unfailed ⟨k, w.running⟩ := by
  intro e he f hdied
  rcases h.records e he with hold | hnone
  · exact hf e hold f hdied
  · rw [hdied] at hnone
    cases hnone

/-- While no program gives up, no one dies. -/
theorem Reachable.unfailed (hw : Reachable Move.Tame w) : w.Unfailed := by
  induction hw with
  | boot config devices =>
    intro e he
    cases he
  | step hw hstep ih =>
    have hsound := hw.sound
    cases hstep with
    | spawned hspawn =>
      exact unfailed_of_grown ih ((Kernel.ensures_spawn hsound _ _).of_ok hspawn).1
    | notSpawned hspawn =>
      exact unfailed_of_grown ih ((Kernel.ensures_spawn hsound _ _).of_error hspawn).1
    | started hready =>
      obtain ⟨found, hfind, heq⟩ := Option.map_eq_some_iff.1 hready
      cases heq
      exact ih
    | acted hallowed hacts => exact (hacts.moveOutcome hsound).unfailed ih hallowed
    | changed devices => exact ih

theorem Reachable.not_fault (hw : Reachable Move.Tame w) (hm : m.Tame) {stop : Stop Errno}
    (hfault : ∀ f, stop = .fault f → m.Tame →
      ∃ e ∈ w.kernel.records, e.2.outcome = some (.died f)) : ∀ f, stop ≠ .fault f := by
  intro f hf
  obtain ⟨e, he, hdied⟩ := hfault f hf hm
  exact hw.unfailed e he f hdied

theorem exists_acts (hrunning : w.running = before ++ p :: after) (m : Move) :
    ∃ w', w.Acts before p after m w' := by
  rcases hrun : m.run ⟨w.kernel, p⟩ with ⟨_, t⟩ | ⟨stop, t⟩
  · exact ⟨_, .goesOn hrunning hrun⟩
  · by_cases hstop : stop = .waiting
    · subst hstop
      exact ⟨w, .waits hrunning hrun⟩
    · exact ⟨_, .stops hrunning hrun hstop⟩

def tried (name : String) (args : List String) (k : Kernel) : Kernel :=
  match Kernel.spawn name args k with
  | .ok _ k => k
  | .error _ k => k

private theorem Reachable.tried (hw : Reachable allowed w) (name : String) (args : List String) :
    Reachable allowed ⟨World.tried name args w.kernel, w.running⟩ := by
  unfold World.tried
  split
  · next pid k hspawn => exact hw.step (.spawned hspawn)
  · next stop k hspawn => exact hw.step (.notSpawned hspawn)

def sampleKernel : Kernel :=
  tried "a.coff" ["a"] (tried "a.coff" [] (.boot { physPages := 10, stackPages := 1 }
    { files := ({} : FileSystem).insert "a.coff" Loader.sampleImage,
      console := { input := [1, 2, 3] } }))

def sampleWorld : World :=
  match sampleKernel.takeReady? 1 with
  | some (p, k) =>
    ⟨k, [{ p with phase := .running, registers := p.registers.withRequest ⟨6, 0, 12288, 3, 0⟩ }]⟩
  | none => ⟨sampleKernel, []⟩

theorem reachable_sampleWorld (hcompute : ∀ registers, allowed (.compute registers)) :
    Reachable allowed sampleWorld := by
  have hready : Reachable allowed ⟨sampleKernel, []⟩ :=
    ((Reachable.boot _ _).tried "a.coff" []).tried "a.coff" ["a"]
  unfold sampleWorld
  split
  · next p k htake =>
    let started : Process := { p with phase := .running }
    have hacts : Acts ⟨k, [started]⟩ [] started []
        (.compute (p.registers.withRequest ⟨6, 0, 12288, 3, 0⟩)) _ := .goesOn rfl rfl
    exact (hready.step (.started htake)).step (.acted (hcompute _) hacts)
  · exact hready

theorem exists_sampleWorld : ∃ p, sampleWorld.running = [p] := by
  have hlength : sampleWorld.running.length = 1 := by decide +kernel
  exact List.length_eq_one_iff.1 hlength

end World

end PagedKernel

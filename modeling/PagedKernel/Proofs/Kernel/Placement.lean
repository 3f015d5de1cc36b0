import PagedKernel.Proofs.Kernel.TwinTurns
import PagedKernel.Proofs.Kernel.World

/-!
# Where pages lie is not to be seen

A world is played by a list of deeds: programs make their moves, and the host creates processes, lets
them run and changes the devices. What is seen of it does not depend on the frames that pages lie in,
on the order of the free frames, or on what free frames hold.
-/

namespace PagedKernel

/-- Something that is done in a world, from outside or by the program of one process. -/
inductive Deed where
  | spawn (name : String) (args : List String)
  | start (ordinal : Nat)
  | move (ordinal : Nat) (m : Move)
  | change (devices : Devices)

/-- What is seen of a deed. -/
inductive Observation where
  | created (pid : Pid)
  | notCreated (stop : Stop Errno)
  | started
  /-- There is no such process. -/
  | absent
  /-- The program goes on, with the bytes that it loaded and with its registers, where the kernel
  leaves the answer to a call. -/
  | went (bytes : Bytes) (registers : Registers)
  | waits
  /-- The process is gone. The registers have the address that raised an exception. -/
  | stopped (stop : Stop Errno) (status : Option Int32) (registers : Registers)
  | changed
deriving DecidableEq

def Move.brings : Move → Call Bytes
  | load address length => Turn.loadBytes address length
  | m => do
    m.run
    return []

def Process.split? (ordinal : Nat) : List Process → Option (List Process × Process × List Process)
  | [] => none
  | p :: rest =>
    if p.ordinal = ordinal then some ([], p, rest)
    else (split? ordinal rest).map fun (before, q, after) => (p :: before, q, after)

namespace World

def play (w : World) : Deed → Observation × World
  | .spawn name args =>
    match Kernel.spawn name args w.kernel with
    | .ok pid k => (.created pid, ⟨k, w.running⟩)
    | .error stop k => (.notCreated stop, ⟨k, w.running⟩)
  | .start ordinal =>
    match w.kernel.takeReady? ordinal with
    | some (p, k) => (.started, ⟨k, { p with phase := .running } :: w.running⟩)
    | none => (.absent, w)
  | .move ordinal m =>
    match Process.split? ordinal w.running with
    | some (before, p, after) =>
      match m.brings ⟨w.kernel, p⟩ with
      | .ok bytes t => (.went bytes t.self.registers, ⟨t.kernel, before ++ t.self :: after⟩)
      | .error stop t =>
        if stop = .waiting then (.waits, w)
        else (.stopped stop t.self.status t.self.registers, ⟨t.bury stop, before ++ after⟩)
    | none => (.absent, w)
  | .change devices => (.changed, ⟨{ w.kernel with machine.devices := devices }, w.running⟩)

def plays (w : World) : List Deed → List Observation × World
  | [] => ([], w)
  | d :: rest =>
    let (observation, w) := w.play d
    let (observations, w) := w.plays rest
    (observation :: observations, w)

end World

namespace Move

variable {m : Move} {t u : Turn} {bytes : Bytes} {stop : Stop Errno}

private theorem run_eq (m : Move) (t : Turn) : m.run t = match m.brings t with
    | .ok _ u => .ok ⟨⟩ u
    | .error stop u => .error stop u := by
  have hplain : ∀ x : Call Unit, x t =
      match (EStateM.bind x (fun _ => pure []) t : EStateM.Result (Stop Errno) Turn Bytes) with
      | .ok _ u => .ok ⟨⟩ u
      | .error stop u => .error stop u := by
    intro x
    unfold EStateM.bind
    cases x t <;> rfl
  cases m with
  | load address length =>
    change EStateM.bind (Turn.loadBytes address length) (fun _ => pure ()) t =
      match Turn.loadBytes address length t with
      | .ok _ u => .ok ⟨⟩ u
      | .error stop u => .error stop u
    unfold EStateM.bind
    cases Turn.loadBytes address length t <;> rfl
  | compute registers => exact hplain _
  | call => exact hplain _
  | store address data => exact hplain _
  | raise cause => exact hplain _
  | leave => exact hplain _
  | die f => exact hplain _

end Move

private theorem Turn.Twins.brings {t t' : Turn} {others others' : List Process}
    (h : Turn.Twins others others' t t') (m : Move) :
    Agree (Turn.Twins others others') (m.brings t) (m.brings t') := by
  have hplain : Agree (Turn.Twins others others') ((do m.run; return ([] : Bytes) : Call Bytes) t)
      ((do m.run; return ([] : Bytes) : Call Bytes) t') := by
    apply (h.run m).bind
    · intro _ _ _ hu
      exact .ok hu
    · intro _ _ hu
      exact hu
  cases m with
  | load address length =>
    exact h.agree (alwaysSparesReady_loadBytes address length)
      (agree_loadBytes h.twin h.sound h.sound' address length)
  | compute registers => exact hplain
  | call => exact hplain
  | store address data => exact hplain
  | raise cause => exact hplain
  | leave => exact hplain
  | die f => exact hplain

private theorem Process.split?_eq_some {ordinal : Nat} {processes before after : List Process}
    {p : Process}
    (h : split? ordinal processes = some (before, p, after)) : processes = before ++ p :: after := by
  induction processes generalizing before with
  | nil => cases h
  | cons q rest ih =>
    unfold split? at h
    split at h
    · cases h
      rfl
    · obtain ⟨⟨before', p', after'⟩, hrest, heq⟩ := Option.map_eq_some_iff.1 h
      cases heq
      rw [ih hrest, List.cons_append]

namespace World

variable {allowed : Move → Prop} {w w' : World}

private theorem Reachable.play (hallowed : ∀ m, allowed m) (hw : Reachable allowed w) (d : Deed) :
    Reachable allowed (w.play d).2 := by
  cases d with
  | spawn name args =>
    unfold World.play
    dsimp only
    split
    · next hspawn => exact hw.step (.spawned hspawn)
    · next hspawn => exact hw.step (.notSpawned hspawn)
  | start ordinal =>
    unfold World.play
    dsimp only
    split
    · next hready => exact hw.step (.started hready)
    · exact hw
  | move ordinal m =>
    unfold World.play
    dsimp only
    split
    · next before p after hsplit =>
      have hrunning := Process.split?_eq_some hsplit
      have hrun := m.run_eq ⟨w.kernel, p⟩
      split
      · next hbrings =>
        rw [hbrings] at hrun
        exact hw.step (.acted (hallowed m) (.goesOn hrunning hrun))
      · next hbrings =>
        rw [hbrings] at hrun
        split
        · exact hw
        · next hstop => exact hw.step (.acted (hallowed m) (.stops hrunning hrun hstop))
    · exact hw
  | change devices => exact hw.step (.changed devices)

private theorem Reachable.plays (hallowed : ∀ m, allowed m) (hw : Reachable allowed w)
    (deeds : List Deed) :
    Reachable allowed (w.plays deeds).2 := by
  induction deeds generalizing w with
  | nil => exact hw
  | cons d rest ih => exact ih (hw.play hallowed d)

/-- Two sound worlds with the same processes in frames of their own. -/
structure Twins (w w' : World) : Prop where
  sound : w.kernel.Sound w.running
  sound' : w'.kernel.Sound w'.running
  kernels : Kernel.Twins w.running w'.running w.kernel w'.kernel

end World

section

variable {memory memory' : Memory} {processes processes' before before' after after' : List Process}
variable {p p' : Process} {ordinal : Nat}

private theorem Process.Twins.split? (h : Process.Twins memory memory' processes processes')
    (ordinal : Nat) :
    Process.split? ordinal processes = none ∧ Process.split? ordinal processes' = none ∨
    ∃ before p after before' p' after',
      Process.split? ordinal processes = some (before, p, after) ∧
      Process.split? ordinal processes' = some (before', p', after') ∧
      Process.Twins memory memory' before before' ∧ Process.Twin memory memory' p p' ∧
      Process.Twins memory memory' after after' := by
  induction h with
  | nil => exact .inl ⟨rfl, rfl⟩
  | @cons q q' rest rest' hq hrest ih =>
    unfold Process.split?
    rw [hq.ordinal]
    by_cases hself : q.ordinal = ordinal
    · rw [if_pos hself, if_pos hself]
      exact .inr ⟨_, _, _, _, _, _, rfl, rfl, .nil, hq, hrest⟩
    · rw [if_neg hself, if_neg hself]
      rcases ih with ⟨hnone, hnone'⟩ |
        ⟨before, p, after, before', p', after', hsome, hsome', hb, hp, ha⟩
      · exact .inl ⟨by rw [hnone]; rfl, by rw [hnone']; rfl⟩
      · exact .inr ⟨_, _, _, _, _, _, by rw [hsome]; rfl, by rw [hsome']; rfl, .cons hq hb, hp, ha⟩

private theorem Process.Twins.find? (h : Process.Twins memory memory' processes processes')
    (ordinal : Nat) :
    processes.find? (·.ordinal = ordinal) = none ∧ processes'.find? (·.ordinal = ordinal) = none ∨
    ∃ p p', processes.find? (·.ordinal = ordinal) = some p ∧ processes'.find?
      (·.ordinal = ordinal) = some p' ∧
      Process.Twin memory memory' p p' := by
  induction h with
  | nil => exact .inl ⟨rfl, rfl⟩
  | @cons q q' rest rest' hq hrest ih =>
    by_cases hself : q.ordinal = ordinal
    · exact .inr ⟨q, q', by simp [hself], by simp [hq.ordinal, hself], hq⟩
    · simpa [hq.ordinal, hself] using ih

private theorem Process.Twins.append_inv (h : Process.Twins memory memory' (before ++ after)
      (before' ++ after')) (hlength : before'.length = before.length) :
    Process.Twins memory memory' before before' ∧ Process.Twins memory memory' after after' := by
  have hbefore := List.forall₂_take_append _ _ _ h
  have hafter := List.forall₂_drop_append _ _ _ h
  rw [hlength, List.take_left] at hbefore
  rw [hlength, List.drop_left] at hafter
  exact ⟨hbefore, hafter⟩

end

namespace World

variable {w w' : World}

private theorem Twins.start (h : Twins w w') (ordinal : Nat) :
    (w'.play (.start ordinal)).1 = (w.play (.start ordinal)).1 ∧
      Twins (w.play (.start ordinal)).2 (w'.play (.start ordinal)).2 := by
  rcases h.kernels.ready.find? ordinal with ⟨hnone, hnone'⟩ | ⟨p, p', hsome, hsome', hp⟩
  · simp only [play, Kernel.takeReady?, hnone, hnone', Option.map_none]
    exact ⟨trivial, h⟩
  · have htake : ∀ {k : Kernel} {q : Process}, k.ready.find? (·.ordinal = ordinal) = some q →
        k.takeReady? ordinal =
          some (q, { k with ready := k.ready.filter fun p => !decide (p.ordinal = ordinal) }) := by
      intro k q hq
      rw [Kernel.takeReady?, hq, Option.map_some]
    simp only [play, htake hsome, htake hsome']
    refine ⟨trivial, h.sound.start (htake hsome), h.sound'.start (htake hsome'),
      { h.kernels.level with }, ?_, ?_⟩
    · refine .cons ⟨?_, hp.memory⟩ h.kernels.running
      simp only
      rw [hp.same]
    · apply List.rel_filter _ h.kernels.ready
      intro q q' hq
      dsimp only
      rw [hq.ordinal]

private theorem Twins.move (h : Twins w w') (ordinal : Nat) (m : Move) :
    (w'.play (.move ordinal m)).1 = (w.play (.move ordinal m)).1 ∧
      Twins (w.play (.move ordinal m)).2 (w'.play (.move ordinal m)).2 := by
  rcases h.kernels.running.split? ordinal with ⟨hnone, hnone'⟩ |
    ⟨before, p, after, before', p', after', hsome, hsome', hbefore, hp, hafter⟩
  · simp only [play, hnone, hnone']
    exact ⟨trivial, h⟩
  · have hrunning := Process.split?_eq_some hsome
    have hrunning' := Process.split?_eq_some hsome'
    have hothers := List.rel_append hbefore hafter
    have hturn : Turn.Twins (before ++ after) (before' ++ after') ⟨w.kernel, p⟩ ⟨w'.kernel, p'⟩ :=
      ⟨sound_turn h.sound hrunning, sound_turn h.sound' hrunning', h.kernels.level,
        .cons hp hothers, h.kernels.ready⟩
    have hlength : before'.length = before.length := hbefore.length_eq.symm
    have hbrings := hturn.brings m
    simp only [play, hsome, hsome']
    generalize m.brings ⟨w.kernel, p⟩ = r at hbrings
    generalize m.brings ⟨w'.kernel, p'⟩ = r' at hbrings
    cases hbrings with
    | @ok bytes t t' ht =>
      have hself := ht.twin.self
      obtain ⟨hb, ha⟩ : Process.Twins _ _ before before' ∧ Process.Twins _ _ after after' := by
        cases ht.kernels.running with
        | cons _ hrest => exact Process.Twins.append_inv hrest hlength
      refine ⟨?_, sound_of_turn ht.sound, sound_of_turn ht.sound', ht.kernels.level, ?_,
        ht.kernels.ready⟩
      · change Observation.went bytes t'.self.registers = .went bytes t.self.registers
        rw [hself.same]
      · exact List.rel_append hb (.cons hself ha)
    | @error stop t t' ht =>
      by_cases hstop : stop = .waiting
      · simp only [hstop, if_true]
        exact ⟨trivial, h⟩
      · simp only [hstop, if_false]
        refine ⟨?_, (ht.sound.bury stop).sound, (ht.sound'.bury stop).sound, ht.bury stop⟩
        rw [ht.twin.self.same]

/-- Whatever is done in both worlds, the same is seen of it. -/
theorem Twins.play (h : Twins w w') (d : Deed) :
    (w'.play d).1 = (w.play d).1 ∧ Twins (w.play d).2 (w'.play d).2 := by
  cases d with
  | spawn name args =>
    have hspawn := h.kernels.spawn h.sound h.sound' name args
    have hgrown := Kernel.ensures_spawn h.sound name args
    have hgrown' := Kernel.ensures_spawn h.sound' name args
    unfold Ensures at hgrown hgrown'
    simp only [World.play]
    generalize Kernel.spawn name args w.kernel = r at hspawn hgrown
    generalize Kernel.spawn name args w'.kernel = r' at hspawn hgrown'
    cases hspawn with
    | ok hk => exact ⟨rfl, hgrown.1.sound, hgrown'.1.sound, hk⟩
    | error hk => exact ⟨rfl, hgrown.1.sound, hgrown'.1.sound, hk⟩
  | start ordinal => exact h.start ordinal
  | move ordinal m => exact h.move ordinal m
  | change devices =>
    refine ⟨rfl, ?_, ?_, { h.kernels.level with devices := rfl }, h.kernels.running,
      h.kernels.ready⟩
    · exact h.sound.unchanged rfl h.sound.ledger (Nat.le_refl _) fun _ he => he
    · exact h.sound'.unchanged rfl h.sound'.ledger (Nat.le_refl _) fun _ he => he

private theorem Twins.plays (h : Twins w w') (deeds : List Deed) :
    (w'.plays deeds).1 = (w.plays deeds).1 ∧ Twins (w.plays deeds).2 (w'.plays deeds).2 := by
  induction deeds generalizing w w' with
  | nil => exact ⟨rfl, h⟩
  | cons d rest ih =>
    obtain ⟨hobserved, hnext⟩ := h.play d
    obtain ⟨hobservations, hlast⟩ := ih hnext
    refine ⟨?_, hlast⟩
    simp only [World.plays]
    rw [hobserved, hobservations]

end World

def PageTable.renamed (σ : Nat → Nat) (t : PageTable) : PageTable :=
  ⟨t.entries.map fun e => { e with frame := σ e.frame }⟩

def Process.renamed (σ : Nat → Nat) (p : Process) : Process := { p with table := p.table.renamed σ }

private theorem Process.twin_renamed {memory memory' : Memory} {p : Process} {σ : Nat → Nat}
    (hframes : ∀ f ∈ p.table.mapped, memory'.frame? (σ f) = memory.frame? f)
    (hframed : UserMemory.Framed ⟨p.table, memory⟩)
    (hframed' : UserMemory.Framed ⟨p.table.renamed σ, memory'⟩) (hnodup : p.table.mapped.Nodup)
    (hnodup' : (p.table.renamed σ).mapped.Nodup) : Process.Twin memory memory' p (p.renamed σ) := by
  refine ⟨rfl, ?_, ?_, hframed, hframed', hnodup, hnodup'⟩
  · simp [Process.renamed, PageTable.renamed, PageTable.faceless]
  · intro a
    simp only [UserMemory.byte?, Process.renamed, PageTable.renamed, List.getElem?_map]
    cases he : p.table.entries[a / pageSize]? with
    | none => rfl
    | some e =>
      have hmapped : e.frame ∈ p.table.mapped := List.mem_map_of_mem (List.mem_of_getElem? he)
      simp only [Option.map_some, Memory.at?, hframes e.frame hmapped]

/-- Where all pages are valid, twins hold the same in the frames behind their pages. -/
theorem Process.Twin.frames {memory memory' : Memory} {p : Process} {σ : Nat → Nat}
    (h : Process.Twin memory memory' p (p.renamed σ))
    (hvalid : ∀ e ∈ p.table.entries, e.flags.valid = true) :
    ∀ f ∈ p.table.mapped, memory'.frame? (σ f) = memory.frame? f := by
  intro f hf
  obtain ⟨e, he, rfl⟩ := List.mem_map.1 hf
  obtain ⟨i, hi⟩ := List.mem_iff_getElem?.1 he
  have hentry : (p.renamed σ).table.entries[i]? = some { e with frame := σ e.frame } := by
    simp [Process.renamed, PageTable.renamed, hi]
  have hmapped : σ e.frame ∈ (p.renamed σ).table.mapped :=
    List.mem_map.2 ⟨_, List.mem_of_getElem? hentry, rfl⟩
  obtain ⟨frame, hframe⟩ :=
    Option.isSome_iff_exists.1 ((Memory.frame?_isSome_iff _ _).2 (h.memory.framed _ hf))
  obtain ⟨frame', hframe'⟩ :=
    Option.isSome_iff_exists.1 ((Memory.frame?_isSome_iff _ _).2 (h.memory.framed' _ hmapped))
  rw [hframe, hframe', Option.some.injEq]
  apply Vector.ext
  intro j hj
  have hpage : (i * pageSize + j) / pageSize = i := by
    simp only [pageSize] at *
    omega
  have hoffset : (i * pageSize + j) % pageSize = j := by
    simp only [pageSize] at *
    omega
  have hbyte := h.memory.byte (i * pageSize + j)
  rw [UserMemory.byte?_of_entry (e := { e with frame := σ e.frame }) (hpage.symm ▸ hentry)
    (hvalid e he), UserMemory.byte?_of_entry (hpage.symm ▸ hi) (hvalid e he), hoffset] at hbyte
  simpa [Memory.at?, hframe, hframe', hj] using hbyte

namespace World

variable {w w' : World} {σ : Nat → Nat}

/-- Two worlds that are equal but for the numbers of their frames, the order of the free frames, and
what free frames hold. They have reported the same exceptions, and may have reported other things in
another order. -/
structure Renamed (σ : Nat → Nat) (w w' : World) : Prop where
  running : w'.running = w.running.map (·.renamed σ)
  ready : w'.kernel.ready = w.kernel.ready.map (·.renamed σ)
  frames : ∀ f ∈ heldBy w.processes,
    w'.kernel.machine.memory.frame? (σ f) = w.kernel.machine.memory.frame? f
  queue : w'.kernel.machine.pool.queue.Perm (w.kernel.machine.pool.queue.map σ)
  config : w'.kernel.machine.config = w.kernel.machine.config
  devices : w'.kernel.machine.devices = w.kernel.machine.devices
  power : w'.kernel.machine.power = w.kernel.machine.power
  exceptions : w'.kernel.machine.exceptions = w.kernel.machine.exceptions
  records : w'.kernel.records = w.kernel.records
  nextOrdinal : w'.kernel.nextOrdinal = w.kernel.nextOrdinal
  live : w'.kernel.live = w.kernel.live

private theorem Renamed.twins (h : Renamed σ w w') (hs : w.kernel.Sound w.running)
    (hs' : w'.kernel.Sound w'.running) : Twins w w' := by
  have hprocesses : ∀ {processes : List Process}, (∀ p ∈ processes, p ∈ w.running ++ w.kernel.ready) →
      (∀ p ∈ processes, p.renamed σ ∈ w'.running ++ w'.kernel.ready) →
      Process.Twins w.kernel.machine.memory w'.kernel.machine.memory processes
        (processes.map (·.renamed σ)) := by
    intro processes hmem hmem'
    have hheld := (List.nodup_flatMap.1 hs.ledger.held_nodup).1
    have hheld' := (List.nodup_flatMap.1 hs'.ledger.held_nodup).1
    rw [Process.Twins, List.forall₂_map_right_iff, List.forall₂_same]
    intro p hp
    apply Process.twin_renamed
    · intro f hf
      exact h.frames f (mem_heldBy (hmem p hp) hf)
    · exact hs.framed (hmem p hp)
    · exact hs'.framed (hmem' p hp)
    · exact hheld p (hmem p hp)
    · exact hheld' (p.renamed σ) (hmem' p hp)
  refine ⟨hs, hs', ⟨h.config, h.devices, h.power, h.exceptions, ?_, h.records, h.nextOrdinal, h.live⟩,
    ?_, ?_⟩
  · rw [FramePool.available, h.queue.length_eq, List.length_map]
    rfl
  · rw [h.running]
    apply hprocesses
    · intro p hp
      exact List.mem_append_left _ hp
    · intro p hp
      rw [h.running]
      exact List.mem_append_left _ (List.mem_map_of_mem hp)
  · rw [h.ready]
    apply hprocesses
    · intro p hp
      exact List.mem_append_right _ hp
    · intro p hp
      rw [h.ready]
      exact List.mem_append_right _ (List.mem_map_of_mem hp)

/-- Whatever programs and the host do from two worlds on that are equal but for their frames, the
same is seen of each deed, and the worlds come to be alike: in their files and what was printed, in
the exceptions that were reported, in the numbers of processes and the records of how they ended, in
the number of free frames, and in each process and the bytes that it sees. -/
theorem placement_unobservable (hw : Reachable (fun _ => True) w)
    (hw' : Reachable (fun _ => True) w') (h : Renamed σ w w') (deeds : List Deed) :
    (w'.plays deeds).1 = (w.plays deeds).1 ∧
    Kernel.Twins (w.plays deeds).2.running (w'.plays deeds).2.running (w.plays deeds).2.kernel
      (w'.plays deeds).2.kernel := by
  obtain ⟨hobservations, hlast⟩ := (h.twins hw.sound hw'.sound).plays deeds
  exact ⟨hobservations, hlast.kernels⟩

def sampleLeft (order : List Nat) : World :=
  (plays ⟨.boot { physPages := 12, stackPages := 1 }
      { files := ({} : FileSystem).insert "a.coff" Loader.sampleImage }, []⟩
    (.spawn "a.coff" [] :: .spawn "a.coff" [] :: .spawn "a.coff" [] ::
      order.map Deed.start ++ order.map fun ordinal => .move ordinal .leave)).2

theorem placement_unobservable_sample :
    let first := sampleLeft [1, 2, 3]
    let first' := sampleLeft [3, 1, 2]
    let w := (first.play (.spawn "a.coff" ["a"])).2
    let w' := (first'.play (.spawn "a.coff" ["a"])).2
    let σ : Nat → Nat := fun f => if f < 4 then f + 8 else if f < 8 then f else f - 8
    Reachable (fun _ => True) w ∧ Reachable (fun _ => True) w' ∧ Renamed σ w w' ∧
    heldBy w'.processes ≠ heldBy w.processes ∧
    (w'.plays [.start 4, .move 4 (.load 0 4), .move 4 (.store 0 [1])]).1 =
      (w.plays [.start 4, .move 4 (.load 0 4), .move 4 (.store 0 [1])]).1 := by
  intro first first' w w' σ
  have hfirst : Reachable (fun _ => True) first := (Reachable.boot _ _).plays (fun _ => trivial) _
  have hfirst' : Reachable (fun _ => True) first' := (Reachable.boot _ _).plays (fun _ => trivial) _
  have hw := hfirst.play (fun _ => trivial) (.spawn "a.coff" ["a"])
  have hw' := hfirst'.play (fun _ => trivial) (.spawn "a.coff" ["a"])
  have hempty : first.processes = [] := by decide +kernel
  have hbefore : Renamed id first first' := by
    refine ⟨?_, ?_, ?_, ?_, ?_, ?_, ?_, ?_, ?_, ?_, ?_⟩
    case refine_3 =>
      rw [hempty]
      exact nofun
    all_goals decide +kernel
  have htwins := ((hbefore.twins hfirst.sound hfirst'.sound).play (.spawn "a.coff" ["a"])).2
  have hready : w'.kernel.ready = w.kernel.ready.map (·.renamed σ) := by decide +kernel
  have hrenamed : Renamed σ w w' := by
    refine ⟨?_, hready, ?_, ?_, ?_, ?_, ?_, ?_, ?_, ?_, ?_⟩
    case refine_2 =>
      have hpages := htwins.kernels.ready
      rw [hready, Process.Twins, List.forall₂_map_right_iff, List.forall₂_same] at hpages
      have hvalid : ∀ p ∈ w.kernel.ready, ∀ e ∈ p.table.entries, e.flags.valid = true := by
        decide +kernel
      have hprocesses : w.processes = w.kernel.ready := by decide +kernel
      intro f hf
      rw [hprocesses] at hf
      obtain ⟨p, hp, hmapped⟩ := List.mem_flatMap.1 hf
      exact (hpages p hp).frames (hvalid p hp) f hmapped
    all_goals decide +kernel
  refine ⟨hw, hw', hrenamed, ?_, (placement_unobservable hw hw' hrenamed _).1⟩
  decide +kernel

end World

end PagedKernel

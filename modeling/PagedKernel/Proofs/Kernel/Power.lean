import PagedKernel.Proofs.Kernel.Counts
import PagedKernel.Proofs.Kernel.Serial
import PagedKernel.Proofs.Kernel.Syscall

/-!
# The power of the machine

The machine goes off when the root halts it, or with the last process that exits, and in no other
way. It never goes on again, and when it is off no process is served any more.
-/

namespace PagedKernel

/-- The files and the console are the same; files may have been closed. -/
structure Devices.Alike (d d' : Devices) : Prop where
  names : d'.files.names = d.files.names
  files : d'.files.files = d.files.files
  console : d'.console = d.console

namespace Devices.Alike

variable {d d' d'' : Devices}

theorem refl (d : Devices) : Alike d d := ⟨rfl, rfl, rfl⟩

theorem trans (h : Alike d d') (h' : Alike d' d'') : Alike d d'' :=
  ⟨h'.names.trans h.names, h'.files.trans h.files, h'.console.trans h.console⟩

end Devices.Alike

namespace Turn

variable {t t' : Turn} {others : List Process} {happened : List Happening} {stop : Stop Errno}

private theorem Does.power (h : t.Does happened t') :
    t'.kernel.machine.poweredOff = t.kernel.machine.poweredOff := by
  apply congrArg PowerSwitch.isOff
  cases h with
  | works hworks => exact hworks.power
  | begets hworks hchild hafter => rw [hafter.power, hchild.power, hworks.power]
  | unstarts hworks hafter => exact hafter.power.trans hworks.power
  | reaps hchild hrecord hworks => exact hworks.power
  | misses hchild hrecord hworks => exact hworks.power

private theorem Does.not_halted (h : t.Does happened t') (root : Process) :
    .halted root ∉ happened := by
  intro hmem
  have hleft : root ∈ stranded happened := List.mem_filterMap.2 ⟨_, hmem, rfl⟩
  rw [h.stranded_eq] at hleft
  cases hleft

private theorem Ceases.power_of_off {k : Kernel} (h : t.Ceases stop happened t')
    (hwaits : stop ≠ .waiting)
    (hburies : t'.Buries stop k) (hoff : t.kernel.machine.poweredOff = true) :
    k.machine.poweredOff = true := by
  cases h with
  | exits hexits => rw [hexits.power_buries hburies, hexits.power, hoff, Bool.true_or]
  | halts hhalts => rw [hhalts.power_buries hburies, hhalts.power]
  | cut => rw [hburies.power, hoff, Bool.true_or]
  | waits => exact absurd rfl hwaits
  | dies f hdoes => rw [hburies.power, hdoes.power, hoff, Bool.true_or]

end Turn

namespace World

open Turn Kernel

variable {allowed : Move → Prop} {history : List Happening} {w w' : World}
variable {before after : List Process} {p : Process} {m : Move} {t : Turn} {stop : Stop Errno}
variable {happened : List Happening}

theorem MoveOutcome.off (h : w.MoveOutcome before p after m happened w')
    (hoff : w.kernel.machine.poweredOff = true) : w'.kernel.machine.poweredOff = true := by
  cases h with
  | goesOn hspares hdoes => exact hdoes.power.trans hoff
  | waits => exact hoff
  | ends hspares hstop hceases =>
    exact hceases.power_of_off hstop (hspares.sound.buries _) hoff

private theorem Step.off (hw : w.kernel.Sound w.running) (hstep : Step allowed w w')
    (hoff : w.kernel.machine.poweredOff = true) : w'.kernel.machine.poweredOff = true := by
  cases hstep with
  | spawned hspawn =>
    obtain ⟨-, -, child, hchild⟩ := (Kernel.ensures_spawn hw _ _).of_ok hspawn
    rw [Machine.poweredOff, hchild.power]
    exact hoff
  | notSpawned hspawn =>
    obtain ⟨-, habides, -⟩ := (Kernel.ensures_spawn hw _ _).of_error hspawn
    rw [Machine.poweredOff, habides.power]
    exact hoff
  | started hready =>
    obtain ⟨found, hfind, heq⟩ := Option.map_eq_some_iff.1 hready
    cases heq
    exact hoff
  | acted hallowed hacts => exact (hacts.moveOutcome hw).off hoff
  | changed devices => exact hoff

/-- One step of the processes: one is given the processor, or one that has it moves. -/
inductive Proceeds (allowed : Move → Prop) (w : World) : World → Prop
  | started {ordinal : Nat} {p : Process} {k : Kernel}
      (hready : w.kernel.takeReady? ordinal = some (p, k)) :
      Proceeds allowed w ⟨k, { p with phase := .running } :: w.running⟩
  | acted {before after : List Process} {p : Process} {m : Move} {w' : World} (hallowed : allowed m)
      (hacts : w.Acts before p after m w') : Proceeds allowed w w'

private theorem Proceeds.step (h : Proceeds allowed w w') : Step allowed w w' := by
  cases h with
  | started hready => exact .started hready
  | acted hallowed hacts => exact .acted hallowed hacts

/-- The machine is off. No process is new, and the files and the console are what they were. -/
structure StaysOff (w w' : World) : Prop where
  off : w'.kernel.machine.poweredOff = true
  devices : w.kernel.machine.devices.Alike w'.kernel.machine.devices
  nextOrdinal : w'.kernel.nextOrdinal = w.kernel.nextOrdinal
  known : ∀ p ∈ w'.processes, ∃ q ∈ w.processes, q.ordinal = p.ordinal

theorem StaysOff.trans {w'' : World} (h : StaysOff w w') (h' : StaysOff w' w'') : StaysOff w w'' where
  off := h'.off
  devices := h.devices.trans h'.devices
  nextOrdinal := h'.nextOrdinal.trans h.nextOrdinal
  known p hp := by
    obtain ⟨q, hq, hpq⟩ := h'.known p hp
    obtain ⟨r, hr, hqr⟩ := h.known q hq
    exact ⟨r, hr, hqr.trans hpq⟩

private theorem toNat_live {k : Kernel} {family : List Process} (h : CountsMatch history k family)
    (hfew : family.length < 2 ^ 64) : k.live.toNat = family.length := by
  rw [h.counted, UInt64.toNat_ofNat', Nat.mod_eq_of_lt hfew]

/-- While nobody is left behind there are no more processes than frames. -/
theorem Chronicle.few (h : Chronicle allowed history w) (hleft : stranded history = []) :
    (w.unexited history).length < 2 ^ 64 := by
  have hfamily : w.unexited history = w.processes := by rw [unexited, hleft, List.nil_append]
  have hheld := length_le_heldBy h.countsMatch.pages
  have hbalanced : _ = _ := h.reachable.consistentWith.balanced
  have hsize : w.kernel.machine.memory.size ≤ PhysicalAddress.maxFrames :=
    w.kernel.machine.memory.size_le
  have hmax : PhysicalAddress.maxFrames < 2 ^ 64 := by decide
  rw [hfamily] at hheld ⊢
  omega

def RootHalted (history : List Happening) : Prop :=
  ∃ root, root.pid = .root ∧ .halted root ∈ history

private theorem rootHalted_append {history happened : List Happening} :
    RootHalted (history ++ happened) ↔ RootHalted history ∨ RootHalted happened := by
  simp only [RootHalted, List.mem_append, and_or_left, exists_or]

/-- Why the machine is off, if it is. -/
structure Switched (history : List Happening) (w : World) : Prop where
  few : (w.unexited history).length < 2 ^ 64
  alive : w.kernel.machine.poweredOff = false → stranded history = []
  off : w.kernel.machine.poweredOff = true ↔ RootHalted history ∨ w.unexited history = []

private theorem Switched.goesOn (h : Switched history w)
    (hrunning : w.running = before ++ p :: after) (hdoes : Does ⟨w.kernel, p⟩ happened t)
    (hnotes : w.kernel.machine.poweredOff = true → WorksOnMemory ⟨w.kernel, p⟩ t)
    (hfew : stranded (history ++ happened) = [] →
      (unexited ⟨t.kernel, before ++ t.self :: after⟩ (history ++ happened)).length < 2 ^ 64) :
    Switched (history ++ happened) ⟨t.kernel, before ++ t.self :: after⟩ := by
  have hleft : stranded (history ++ happened) = stranded history := by
    rw [stranded_append, hdoes.stranded_eq, List.append_nil]
  have hpower : t.kernel.machine.poweredOff = w.kernel.machine.poweredOff := hdoes.power
  have hbefore : w.unexited history ≠ [] := by
    simp [unexited, processes, hrunning]
  have hafter : unexited ⟨t.kernel, before ++ t.self :: after⟩ (history ++ happened) ≠ [] := by
    simp [unexited, processes]
  have hnone : ¬ RootHalted happened := by
    rintro ⟨root, _, hmem⟩
    exact hdoes.not_halted root hmem
  refine ⟨?_, ?_, ?_⟩
  · cases hoff : w.kernel.machine.poweredOff with
    | false => exact hfew (hleft.trans (h.alive hoff))
    | true =>
      have hready : t.kernel.ready = w.kernel.ready := (hnotes hoff).ready
      have hlength := h.few
      simp only [unexited, hleft, processes, hready, hrunning, List.length_append,
        List.length_cons] at hlength ⊢
      exact hlength
  · rw [hleft, hpower]
    exact h.alive
  · rw [hpower, h.off, rootHalted_append]
    simp [hbefore, hafter, hnone]

private theorem Switched.exits {status : Option Int32} (h : Switched history w)
    (hcounts : CountsMatch history w.kernel (w.unexited history))
    (hrunning : w.running = before ++ p :: after) (hrest : w'.running = before ++ after)
    (hexits : Exits status ⟨w.kernel, p⟩ t) (hburies : t.Buries stop w'.kernel) :
    Switched (history ++ [.exited p.ordinal status]) w' := by
  have hleft : stranded (history ++ [.exited p.ordinal status]) = stranded history := by
    rw [stranded_append]
    exact List.append_nil _
  have hready : w'.kernel.ready = w.kernel.ready := hburies.ready.trans hexits.ready
  have hlength : (w.unexited history).length =
      (w'.unexited (history ++ [.exited p.ordinal status])).length + 1 := by
    rw [(unexited_perm hrunning history).length_eq, unexited, hleft, processes, hrest, hready,
      List.length_cons, List.append_assoc (stranded history)]
  have hoff : w'.kernel.machine.poweredOff =
      (w.kernel.machine.poweredOff || w.kernel.live == 1) :=
    (hexits.power_buries hburies).trans hexits.power
  have hfew := h.few
  have hlast : (w.kernel.live == 1) = true ↔
      w'.unexited (history ++ [.exited p.ordinal status]) = [] := by
    have hone : (1 : UInt64).toNat = 1 := rfl
    rw [beq_iff_eq, ← UInt64.toNat_inj, toNat_live hcounts hfew, hone, hlength,
      ← List.length_eq_zero_iff]
    omega
  have hsome : w.unexited history ≠ [] := by
    rw [← List.length_pos_iff, hlength]
    omega
  refine ⟨by omega, fun hon => ?_, ?_⟩
  · rw [hoff, Bool.or_eq_false_iff] at hon
    exact hleft.trans (h.alive hon.1)
  · have hnone : ¬ RootHalted [.exited p.ordinal status] := by simp [RootHalted]
    rw [hoff, Bool.or_eq_true, h.off, hlast, rootHalted_append]
    simp [hsome, hnone]

private theorem Switched.strands {x : Happening} (h : Switched history w)
    (hrunning : w.running = before ++ p :: after) (hrest : w'.running = before ++ after)
    (hx : x.stranded? = some p) (hready : w'.kernel.ready = w.kernel.ready)
    (hoff : w'.kernel.machine.poweredOff = true) (hhalted : RootHalted (history ++ [x])) :
    Switched (history ++ [x]) w' := by
  have hleft : stranded (history ++ [x]) = stranded history ++ [p] := by
    simp [stranded, hx]
  have hlength : (w'.unexited (history ++ [x])).length = (w.unexited history).length := by
    rw [(unexited_perm hrunning history).length_eq, unexited, hleft, processes, hrest, hready]
    simp only [List.length_append, List.length_cons, List.length_nil]
    omega
  refine ⟨hlength ▸ h.few, fun hon => ?_, ?_⟩
  · rw [hoff] at hon
    cases hon
  · exact iff_of_true hoff (.inl hhalted)

private theorem Switched.ends (h : Switched history w)
    (hcounts : CountsMatch history w.kernel (w.unexited history))
    (hrunning : w.running = before ++ p :: after) (hrest : w'.running = before ++ after)
    (hceases : Ceases ⟨w.kernel, p⟩ stop happened t) (hwaits : stop ≠ .waiting)
    (hfault : ∀ f, stop ≠ .fault f) (hburies : t.Buries stop w'.kernel) :
    Switched (history ++ happened) w' := by
  cases hceases with
  | exits hexits => exact h.exits hcounts hrunning hrest hexits hburies
  | halts hhalts =>
    refine h.strands hrunning hrest rfl (hburies.ready.trans hhalts.ready) ?_ ?_
    · rw [hhalts.power_buries hburies, hhalts.power]
    · exact ⟨p, hhalts.root, List.mem_append_right _ (List.mem_singleton_self _)⟩
  | cut hoff =>
    have hsome : w.unexited history ≠ [] := by simp [unexited, processes, hrunning]
    refine h.strands hrunning hrest rfl hburies.ready ?_ ?_
    · rw [hburies.power, hoff, Bool.true_or]
    · exact rootHalted_append.2 (.inl ((h.off.1 hoff).resolve_right hsome))
  | waits => exact absurd rfl hwaits
  | dies f => exact absurd rfl (hfault f)

private theorem switched_root {config : Config} {devices : Devices} {name : String} {args : List String}
    {pid : Pid} {k : Kernel} (hspawn : Kernel.spawn name args (.boot config devices) = .ok pid k) :
    Switched [] ⟨k, []⟩ := by
  obtain ⟨-, -, root, hroot⟩ :=
    (Kernel.ensures_spawn (Kernel.Sound.boot config devices) name args).of_ok hspawn
  have hfamily : unexited ⟨k, []⟩ [] = [root] := hroot.ready
  have hon : k.machine.poweredOff = false := congrArg PowerSwitch.isOff hroot.power
  refine ⟨?_, fun _ => rfl, ?_⟩
  · rw [hfamily, List.length_singleton]
    decide
  · simp [hfamily, hon, RootHalted]

private theorem switched_started {ordinal : Nat} {k : Kernel} (hb : w.kernel.ConsistentWith w.processes)
    (h : Switched history w) (hready : w.kernel.takeReady? ordinal = some (p, k)) :
    Switched history ⟨k, { p with phase := .running } :: w.running⟩ := by
  obtain ⟨-, -, hk⟩ := processes_started hb.distinct hready
  have hlength : (unexited ⟨k, { p with phase := .running } :: w.running⟩ history).length =
      (w.unexited history).length := by
    have hmoved := (unexited_started hb hready history).length_eq
    simp only [unexited, processes, List.length_append, List.length_cons] at hmoved ⊢
    omega
  have hpower : k.machine.poweredOff = w.kernel.machine.poweredOff := by rw [hk]
  refine ⟨hlength ▸ h.few, ?_, ?_⟩
  · rw [hpower]
    exact h.alive
  · rw [hpower, h.off, ← List.length_eq_zero_iff, ← hlength, List.length_eq_zero_iff]

private theorem MoveOutcome.switched (hrunning : w.running = before ++ p :: after)
    (hw : Reachable Move.Tame w) (hcounts : CountsMatch history w.kernel (w.unexited history))
    (hm : m.Tame) (h : Switched history w) (houtcome : w.MoveOutcome before p after m happened w')
    (hfew : stranded (history ++ happened) = [] →
      (w'.unexited (history ++ happened)).length < 2 ^ 64) :
    Switched (history ++ happened) w' := by
  cases houtcome with
  | goesOn hspares hdoes hnotes => exact h.goesOn hrunning hdoes hnotes hfew
  | waits =>
    rw [List.append_nil]
    exact h
  | ends hspares hstop hceases hdied =>
    exact h.ends hcounts hrunning rfl hceases hstop (hw.not_fault hm hdied)
      (hspares.sound.buries _)

private theorem Chronicle.switched (h : Chronicle Move.Tame history w) : Switched history w := by
  induction h with
  | begins hspawn => exact switched_root hspawn
  | started h hready ih => exact switched_started h.reachable.consistentWith ih hready
  | acted h hallowed hacts ih =>
    exact
      (hacts.moveOutcome h.reachable.sound).switched hacts.running_eq h.reachable h.countsMatch hallowed
      ih (h.acted hallowed hacts).few
  | changed h devices ih => exact ⟨ih.few, ih.alive, ih.off⟩

end World

end PagedKernel

import PagedKernel.Proofs.Kernel.Consistency

/-!
# Processes that run one at a time

Of the processes that have been given the processor only the one on top moves, until it has ended.
When a machine is switched off in such a run, nobody has a file open: the root is at the bottom, and
a process that has not moved yet has opened none. So every file is closed by the process that opened
it.
-/

namespace PagedKernel

namespace World

variable {allowed : Move → Prop} {w w' : World}

/-- One step of processes that run one at a time. The process on top can have something typed. -/
inductive Serial (allowed : Move → Prop) (w : World) : World → Prop
  | started {ordinal : Nat} {p : Process} {k : Kernel}
      (hready : w.kernel.takeReady? ordinal = some (p, k)) :
      Serial allowed w ⟨k, { p with phase := .running } :: w.running⟩
  | acted {p : Process} {after : List Process} {m : Move} {w' : World} (hallowed : allowed m)
      (hacts : w.Acts [] p after m w') : Serial allowed w w'
  | fed (data : Bytes) : Serial allowed w
      ⟨{ w.kernel with
        machine.devices.console := w.kernel.machine.devices.console.feed data }, w.running⟩

private theorem Serial.step (h : Serial allowed w w') : Step allowed w w' := by
  cases h with
  | started hready => exact .started hready
  | acted hallowed hacts => exact .acted hallowed hacts
  | fed data =>
    exact .changed { w.kernel.machine.devices with
      console := w.kernel.machine.devices.console.feed data }

abbrev Run (allowed : Move → Prop) : World → World → Prop := Relation.ReflTransGen (Serial allowed)

theorem Run.sound (h : Run allowed w w') (hw : w.kernel.Sound w.running) :
    w'.kernel.Sound w'.running := by
  induction h with
  | refl => exact hw
  | tail _ hstep ih => exact hstep.step.sound ih

theorem Reachable.run (hw : Reachable allowed w) (h : Run allowed w w') : Reachable allowed w' := by
  induction h with
  | refl => exact hw
  | tail _ hstep ih => exact ih.step hstep.step

def openFiles (processes : List Process) : Nat :=
  (processes.map (·.descriptors.fileCount)).sum

@[simp] theorem openFiles_nil : openFiles [] = 0 := rfl

@[simp] theorem openFiles_cons (p : Process) (rest : List Process) :
    openFiles (p :: rest) = p.descriptors.fileCount + openFiles rest := List.sum_cons

/-- What holds while processes run one at a time, on a file system of which others have `base` files
open. The root is the process with the ordinal 1. -/
structure Accounts (base : Nat) (w : World) : Prop where
  handles : w.kernel.machine.openHandles = base + openFiles w.running
  fresh : ∀ p ∈ w.kernel.ready, p.descriptors.fileCount = 0
  closed : w.kernel.machine.poweredOff = true → ∀ p ∈ w.running, p.descriptors.fileCount = 0
  counted : w.kernel.machine.poweredOff = false →
    w.kernel.live = UInt64.ofNat w.processes.length
  pages : ∀ p ∈ w.processes, p.table.mapped ≠ []
  begun : 1 < w.kernel.nextOrdinal
  rootFirst : ∀ p ∈ w.kernel.ready, p.ordinal = 1 → w.running = [] ∧ w.kernel.ready = [p]
  rootLast : w.running.Pairwise fun p _ => p.ordinal ≠ 1

theorem length_le_heldBy {processes : List Process} (h : ∀ p ∈ processes, p.table.mapped ≠ []) :
    processes.length ≤ (heldBy processes).length := by
  induction processes with
  | nil => exact Nat.le_refl _
  | cons p rest ih =>
    obtain ⟨hp, hrest⟩ := List.forall_mem_cons.1 h
    have hpos := List.length_pos_iff.2 hp
    have hle := ih hrest
    rw [heldBy_cons, List.length_append, List.length_cons]
    omega

/-- There are no more processes than frames, and so they can be counted. -/
theorem Accounts.length_lt {base : Nat} (h : Accounts base w)
    (hb : w.kernel.ConsistentWith w.processes) : w.processes.length < 2 ^ 64 := by
  have hheld := length_le_heldBy h.pages
  have hbalanced : _ = _ := hb.balanced
  have hsize : w.kernel.machine.memory.size ≤ PhysicalAddress.maxFrames :=
    w.kernel.machine.memory.size_le
  have hmax : PhysicalAddress.maxFrames < 2 ^ 64 := by decide
  omega

end World

namespace Turn

open World

variable {t t' t'' : Turn} {others : List Process} {happened : List Happening} {base : Nat}

def world (t : Turn) (others : List Process) : World := ⟨t.kernel, t.self :: others⟩

theorem Works.handles (hworks : Works t t') (hexact : t.self.descriptors.FreeExact)
    (h : t.kernel.machine.openHandles = base + openFiles (t.self :: others)) :
    t'.kernel.machine.openHandles = base + openFiles (t'.self :: others) := by
  have hbalanced := hworks.filesKept.balanced hexact (base + openFiles others)
  simp only [openFiles_cons, Machine.openHandles, Desk.Balanced, desk] at *
  omega

/-- A process that releases what it has closes its files, each of them once. -/
theorem Releases.handles {k : Kernel} {stop : Stop Errno} (hreleases : Releases t t')
    (hburies : t'.Buries stop k) (hexact : t.self.descriptors.FreeExact)
    (h : t.kernel.machine.openHandles = base + openFiles (t.self :: others)) :
    k.machine.openHandles = base + openFiles others := by
  obtain ⟨-, -, -, hhandles⟩ := Desk.closeAll_freeExact (s := t.desk) hexact
  have hdevices : k.machine.devices = t.desk.closeAll.2.devices :=
    hburies.devices.trans (congrArg Desk.devices hreleases.desk)
  rw [openFiles_cons, Machine.openHandles] at h
  rw [Machine.openHandles, hdevices, hhandles]
  simp only [Turn.desk]
  omega

private theorem Works.accounts (hworks : Works t t') (h : Accounts base (t.world others))
    (hexact : t.self.descriptors.FreeExact)
    (hoff : t.kernel.machine.poweredOff = true → t'.desk = t.desk) :
    Accounts base (t'.world others) where
  handles := hworks.handles hexact h.handles
  fresh := by
    rw [world, hworks.ready]
    exact h.fresh
  closed := by
    intro hout
    have hbefore : t.kernel.machine.poweredOff = true := by
      rw [← hout, world, Machine.poweredOff, Machine.poweredOff, hworks.power]
    obtain ⟨hself, hothers⟩ := List.forall_mem_cons.1 (h.closed hbefore)
    refine List.forall_mem_cons.2 ⟨?_, hothers⟩
    have hdescriptors : t'.self.descriptors = t.self.descriptors :=
      congrArg Desk.descriptors (hoff hbefore)
    rw [hdescriptors]
    exact hself
  counted := by
    have hcounted := h.counted
    simp only [world, processes, Machine.poweredOff, hworks.power, hworks.live,
      hworks.ready] at hcounted ⊢
    exact hcounted
  pages := by
    obtain ⟨hself, hothers⟩ := List.forall_mem_cons.1 h.pages
    rw [processes, world, hworks.ready]
    refine List.forall_mem_cons.2 ⟨?_, hothers⟩
    rw [PageTable.mapped_congr hworks.mapping]
    exact hself
  begun := by
    rw [world, hworks.nextOrdinal]
    exact h.begun
  rootFirst p hp hroot := by
    rw [world, hworks.ready] at hp
    cases (h.rootFirst p hp hroot).1
  rootLast := by
    obtain ⟨hself, hothers⟩ := List.pairwise_cons.1 h.rootLast
    refine List.pairwise_cons.2 ⟨?_, hothers⟩
    rw [hworks.ordinal]
    exact hself

private theorem accounts_takesUp {k : Kernel} {child : Process} (hchild : t.kernel.TakesUp k child)
    (h : Accounts base (t.world others)) (children : List Pid) :
    Accounts base ⟨k, { t.self with children } :: others⟩ where
  handles := by
    have hbefore := h.handles
    rw [Machine.openHandles, hchild.devices]
    exact hbefore
  fresh := by
    rw [hchild.ready]
    refine List.forall_mem_append.2 ⟨h.fresh, List.forall_mem_singleton.2 ?_⟩
    rw [hchild.descriptors, DescriptorTable.fileCount_create]
  closed := by
    rw [Machine.poweredOff, hchild.power]
    exact fun hoff => List.forall_mem_cons.2 (List.forall_mem_cons.1 (h.closed hoff))
  counted := by
    have hcounted := h.counted
    simp only [world, processes, Machine.poweredOff, hchild.power, hchild.live, hchild.ready,
      List.length_append, List.length_cons, List.length_nil] at hcounted ⊢
    intro hon
    rw [hcounted hon]
    exact (UInt64.ofNat_add (others.length + 1 + t.kernel.ready.length) 1).symm
  pages := by
    rw [processes, hchild.ready, ← List.append_assoc]
    refine List.forall_mem_append.2 ⟨?_, List.forall_mem_singleton.2 hchild.pages⟩
    exact List.forall_mem_cons.2 (List.forall_mem_cons.1 h.pages)
  begun := hchild.lt h.begun
  rootFirst p hp hroot := by
    rw [hchild.ready] at hp
    rcases List.mem_append.1 hp with hold | hnew
    · cases (h.rootFirst p hold hroot).1
    · have hbegun : 1 < t.kernel.nextOrdinal := h.begun
      rw [List.mem_singleton.1 hnew, hchild.ordinal] at hroot
      exact absurd hroot (Nat.ne_of_gt hbegun)
  rootLast := List.pairwise_cons.2 (List.pairwise_cons.1 h.rootLast)

private theorem accounts_forget (h : Accounts base (t.world others)) (child : Pid) :
    Accounts base ((t.forget child).world others) where
  handles := h.handles
  fresh := h.fresh
  closed hoff := List.forall_mem_cons.2 (List.forall_mem_cons.1 (h.closed hoff))
  counted := h.counted
  pages := List.forall_mem_cons.2 (List.forall_mem_cons.1 h.pages)
  begun := h.begun
  rootFirst p hp hroot := nomatch (h.rootFirst p hp hroot).1
  rootLast := List.pairwise_cons.2 (List.pairwise_cons.1 h.rootLast)

private theorem accounts_reap (h : Accounts base (t.world others)) (child : Pid) :
    Accounts base ((t.reap child).world others) :=
  { accounts_forget h child with }

private theorem Does.accounts (hdoes : t.Does happened t') (h : Accounts base (t.world others))
    (hexact : t.self.descriptors.FreeExact) (hon : t.kernel.machine.poweredOff = false) :
    Accounts base (t'.world others) := by
  have hnever : ∀ {t₁ t₂ : Turn}, t₁.kernel.machine.poweredOff = t.kernel.machine.poweredOff →
      t₁.kernel.machine.poweredOff = true → t₂.desk = t₁.desk := by
    intro t₁ t₂ hsame hoff
    rw [hsame, hon] at hoff
    cases hoff
  cases hdoes with
  | works hworks => exact hworks.accounts h hexact (hnever rfl)
  | @begets t₁ t' k child hworks hchild hafter =>
    have hbirth := accounts_takesUp hchild (hworks.accounts h hexact (hnever rfl))
      (child.pid.insert t₁.self.children)
    refine hafter.accounts hbirth (hworks.filesKept.freeExact hexact) (hnever ?_)
    exact congrArg PowerSwitch.isOff (hchild.power.trans hworks.power)
  | @unstarts t₁ t' hworks hafter =>
    have hworked := hworks.accounts h hexact (hnever rfl)
    have hpassed : Accounts base (t₁.passOver.world others) :=
      { hworked with begun := Nat.lt_succ_of_lt hworked.begun }
    refine hafter.accounts hpassed (hworks.filesKept.freeExact hexact) (hnever ?_)
    exact congrArg PowerSwitch.isOff hworks.power
  | @reaps t' child record hchild hrecord hworks =>
    exact hworks.accounts (accounts_reap h child) hexact (hnever rfl)
  | @misses t' child hchild hrecord hworks =>
    exact hworks.accounts (accounts_forget h child) hexact (hnever rfl)

private theorem Releases.accounts {k : Kernel} {stop : Stop Errno} (hreleases : Releases t t')
    (hburies : t'.Buries stop k) (h : Accounts base (t.world others))
    (hexact : t.self.descriptors.FreeExact)
    (hclosed : k.machine.poweredOff = true → ∀ p ∈ others, p.descriptors.fileCount = 0)
    (hcounted : k.machine.poweredOff = false →
      k.live = UInt64.ofNat (others.length + t.kernel.ready.length)) :
    Accounts base ⟨k, others⟩ where
  handles := hreleases.handles hburies hexact h.handles
  fresh := by
    rw [hburies.ready, hreleases.ready]
    exact h.fresh
  closed := hclosed
  counted := by
    rw [processes, hburies.ready, hreleases.ready, List.length_append]
    exact hcounted
  pages := by
    rw [processes, hburies.ready, hreleases.ready]
    exact (List.forall_mem_cons.1 h.pages).2
  begun := by
    rw [hburies.nextOrdinal, hreleases.nextOrdinal]
    exact h.begun
  rootFirst p hp hroot := by
    rw [hburies.ready, hreleases.ready] at hp
    cases (h.rootFirst p hp hroot).1
  rootLast := (List.pairwise_cons.1 h.rootLast).2

private theorem Exits.accounts {k : Kernel} {stop : Stop Errno} {status : Option Int32}
    (hexits : Exits status t t') (hburies : t'.Buries stop k)
    (h : Accounts base (t.world others)) (hexact : t.self.descriptors.FreeExact)
    (hlt : (t.world others).processes.length < 2 ^ 64) : Accounts base ⟨k, others⟩ := by
  have hlength : (t.world others).processes.length = others.length + t.kernel.ready.length + 1 := by
    simp only [world, processes, List.length_append, List.length_cons]
    omega
  have hoff : k.machine.poweredOff = (t.kernel.machine.poweredOff || t.kernel.live == 1) :=
    (hexits.power_buries hburies).trans hexits.power
  refine hexits.toReleases.accounts hburies h hexact ?_ ?_
  · intro hout
    cases hbefore : t.kernel.machine.poweredOff with
    | true => exact (List.forall_mem_cons.1 (h.closed hbefore)).2
    | false =>
      -- the last one that was counted has switched the machine off, so there is no other
      rw [hoff, hbefore, Bool.false_or, beq_iff_eq, show t.kernel.live = _ from h.counted hbefore]
        at hout
      have hone := congrArg UInt64.toNat hout
      rw [UInt64.toNat_ofNat', Nat.mod_eq_of_lt hlt, hlength] at hone
      have hnone : others.length = 0 := by
        have h1 : (1 : UInt64).toNat = 1 := rfl
        omega
      rw [List.length_eq_zero_iff.1 hnone]
      exact List.forall_mem_nil _
  · intro hon
    rw [hoff, Bool.or_eq_false_iff] at hon
    rw [hburies.live, hexits.live, show t.kernel.live = _ from h.counted hon.1, hlength,
      UInt64.ofNat_add]
    exact UInt64.add_sub_cancel _ 1

/-- The root is the last one that is left when it has the processor, and no other has its number. -/
theorem Halts.accounts {k : Kernel} {stop : Stop Errno} (hhalts : Halts t t')
    (hburies : t'.Buries stop k) (h : Accounts base (t.world others))
    (hroot : t.self.pid = .root → t.self.ordinal = 1) (hexact : t.self.descriptors.FreeExact) :
    Accounts base ⟨k, others⟩ := by
  have halone : others = [] := by
    cases others with
    | nil => rfl
    | cons p rest =>
      exact absurd (hroot hhalts.root) ((List.pairwise_cons.1 h.rootLast).1 p (List.mem_cons_self ..))
  refine hhalts.toReleases.accounts hburies h hexact ?_ ?_
  · rw [halone]
    exact nofun
  · intro hon
    rw [hhalts.power_buries hburies, hhalts.power] at hon
    cases hon

private theorem accounts_cut {k : Kernel} {stop : Stop Errno} (hburies : t.Buries stop k)
    (h : Accounts base (t.world others)) (hoff : t.kernel.machine.poweredOff = true) :
    Accounts base ⟨k, others⟩ where
  handles := by
    have hself := (List.forall_mem_cons.1 (h.closed hoff)).1
    have hbefore := h.handles
    rw [Machine.openHandles, hburies.devices]
    simp only [world, openFiles_cons, Machine.openHandles] at hbefore ⊢
    omega
  fresh := by
    rw [hburies.ready]
    exact h.fresh
  closed _ := (List.forall_mem_cons.1 (h.closed hoff)).2
  counted hon := by
    rw [hburies.power, hoff] at hon
    cases hon
  pages := by
    rw [processes, hburies.ready]
    exact (List.forall_mem_cons.1 h.pages).2
  begun := by
    rw [hburies.nextOrdinal]
    exact h.begun
  rootFirst p hp hroot := by
    rw [hburies.ready] at hp
    cases (h.rootFirst p hp hroot).1
  rootLast := (List.pairwise_cons.1 h.rootLast).2

private theorem Ceases.accounts {k : Kernel} {stop : Stop Errno} (hceases : t.Ceases stop happened t')
    (hwaits : stop ≠ .waiting) (hfault : ∀ f, stop ≠ .fault f) (hburies : t'.Buries stop k)
    (h : Accounts base (t.world others)) (hroot : t.self.pid = .root → t.self.ordinal = 1)
    (hexact : t.self.descriptors.FreeExact)
    (hlt : (t.world others).processes.length < 2 ^ 64) : Accounts base ⟨k, others⟩ := by
  cases hceases with
  | exits hexits => exact hexits.accounts hburies h hexact hlt
  | halts hhalts => exact hhalts.accounts hburies h hroot hexact
  | cut hoff => exact accounts_cut hburies h hoff
  | waits => exact absurd rfl hwaits
  | dies f hdoes => exact absurd rfl (hfault f)

end Turn

namespace World

open Turn

variable {w w' : World} {base : Nat} {p : Process} {after : List Process} {m : Move}
variable {happened : List Happening}

private theorem MoveOutcome.accounts (hrunning : w.running = p :: after) (hw : Reachable Move.Tame w)
    (h : Accounts base w) (hfew : w.kernel.nextOrdinal ≤ 2 ^ 32) (hm : m.Tame)
    (houtcome : w.MoveOutcome [] p after m happened w') :
    Accounts base w' := by
  have hconsistent := hw.consistentWith
  have hlt := h.length_lt hconsistent
  obtain ⟨k, running⟩ := w
  cases hrunning
  have hexact := (hconsistent.intact p (List.mem_cons_self ..)).freeExact
  have hroot : p.pid = .root → p.ordinal = 1 := by
    obtain ⟨hnth, hless⟩ := hconsistent.numbered p (List.mem_cons_self ..)
    rw [hnth]
    exact (Pid.nth_eq_root (Nat.le_of_lt (Nat.lt_of_lt_of_le hless hfew))).1
  cases houtcome with
  | goesOn hspares hdoes hnotes =>
    cases hpower : k.machine.poweredOff with
    | true =>
      have hnoted := hnotes hpower
      exact hnoted.accounts h hexact fun _ => hnoted.desk
    | false => exact hdoes.accounts h hexact hpower
  | waits => exact h
  | ends hspares hstop hceases hdied =>
    exact hceases.accounts hstop (hw.not_fault hm hdied) (hspares.sound.buries _) h hroot hexact hlt

private theorem accounts_started {ordinal : Nat} {k : Kernel} (hb : w.kernel.ConsistentWith w.processes)
    (h : Accounts base w) (hready : w.kernel.takeReady? ordinal = some (p, k)) :
    Accounts base ⟨k, { p with phase := .running } :: w.running⟩ := by
  obtain ⟨hperm, -, hk⟩ := processes_started hb.distinct hready
  have hmem : p ∈ w.kernel.ready := hperm.mem_iff.2 (List.mem_cons_self ..)
  have hrest : ∀ q ∈ k.ready, q ∈ w.kernel.ready :=
    fun q hq => hperm.mem_iff.2 (List.mem_cons_of_mem p hq)
  have hlength : w.kernel.ready.length = k.ready.length + 1 := hperm.length_eq
  have hfiles : p.descriptors.fileCount = 0 := h.fresh p hmem
  rw [hk]
  refine ⟨?_, fun q hq => h.fresh q (hrest q hq), ?_, ?_, ?_, h.begun, ?_, ?_⟩
  · rw [openFiles_cons, hfiles, Nat.zero_add]
    exact h.handles
  · exact fun hoff => List.forall_mem_cons.2 ⟨hfiles, h.closed hoff⟩
  · intro hon
    rw [show w.kernel.live = _ from h.counted hon]
    congr 1
    simp only [processes, hlength, List.length_append, List.length_cons]
    omega
  · refine List.forall_mem_cons.2 ⟨h.pages p (List.mem_append_right _ hmem), ?_⟩
    refine List.forall_mem_append.2 ⟨fun q hq => h.pages q (List.mem_append_left _ hq), ?_⟩
    exact fun q hq => h.pages q (List.mem_append_right _ (hrest q hq))
  · -- the root was the only one that was ready, and it has been started
    intro q hq hroot
    obtain ⟨-, hone⟩ := h.rootFirst q (hrest q hq) hroot
    have hpos := List.length_pos_of_mem hq
    simp only [hone, List.length_cons, List.length_nil] at hlength hpos
    omega
  · refine List.pairwise_cons.2 ⟨fun q hq hroot => ?_, h.rootLast⟩
    rw [(h.rootFirst p hmem hroot).1] at hq
    cases hq

private theorem Serial.accounts (hw : Reachable Move.Tame w) (h : Accounts base w)
    (hfew : w.kernel.nextOrdinal ≤ 2 ^ 32) (hstep : Serial Move.Tame w w') : Accounts base w' := by
  cases hstep with
  | started hready => exact accounts_started hw.consistentWith h hready
  | acted hallowed hacts =>
    exact (hacts.moveOutcome hw.sound).accounts hacts.running_eq hw h hfew hallowed
  | fed data => exact { h with }

theorem Run.accounts (hw : Reachable Move.Tame w) (h : Accounts base w)
    (hrun : Run Move.Tame w w') (hfew : w'.kernel.nextOrdinal ≤ 2 ^ 32) : Accounts base w' := by
  induction hrun with
  | refl => exact h
  | tail hbefore hstep ih =>
    have hreachable := hw.run hbefore
    have hearlier := Nat.le_trans (hstep.step.addsReadyLast hreachable.sound).nextOrdinal hfew
    exact hstep.accounts hreachable (ih hearlier) hearlier

theorem accounts_root {config : Config} {devices : Devices} {name : String} {args : List String}
    {pid : Pid} {k : Kernel} (hspawn : Kernel.spawn name args (.boot config devices) = .ok pid k) :
    Accounts devices.files.openHandles ⟨k, []⟩ := by
  have hsound := Kernel.Sound.boot config devices
  obtain ⟨-, -, root, hroot⟩ := (Kernel.ensures_spawn hsound name args).of_ok hspawn
  have hready : k.ready = [root] := hroot.ready
  have hcreated : root.descriptors.fileCount = 0 := by
    rw [hroot.descriptors, DescriptorTable.fileCount_create]
  refine ⟨?_, ?_, fun _ => nofun, ?_, ?_, ?_, ?_, List.Pairwise.nil⟩
  · rw [Machine.openHandles, hroot.devices]
    rfl
  · rw [hready]
    exact List.forall_mem_singleton.2 hcreated
  · intro _
    rw [hroot.live, processes, hready]
    rfl
  · rw [processes, hready]
    exact List.forall_mem_singleton.2 hroot.pages
  · rw [hroot.nextOrdinal]
    exact Nat.lt_succ_self 1
  · intro p hp _
    rw [hready] at hp
    rw [hready, List.mem_singleton.1 hp]
    exact ⟨rfl, rfl⟩

end World

end PagedKernel

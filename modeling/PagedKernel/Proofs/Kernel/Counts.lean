import PagedKernel.Proofs.Kernel.HistoryMatches

/-!
# How many processes there are

Ordinals are given in the order in which processes are created, and none is left out: one that no
process has was given to a process whose thread the host refused. Each process exits once at most, and
the kernel counts those that have not.
-/

namespace PagedKernel

namespace Happening

def born? : Happening → Option Nat
  | created _ child => some child
  | reaped .. | unstarted _ | exited .. | halted _ | lost _ => none

/-- The ordinal that is given at a happening, whether a process comes to have it or not. -/
def ordinal? : Happening → Option Nat
  | created _ ordinal | unstarted ordinal => some ordinal
  | reaped .. | exited .. | halted _ | lost _ => none

def departed? : Happening → Option Nat
  | exited ordinal _ => some ordinal
  | created .. | reaped .. | unstarted _ | halted _ | lost _ => none

end Happening

def spawned (history : List Happening) : List Nat := 1 :: history.filterMap Happening.born?

/-- All ordinals that were ever given, the root's first. -/
def ordinals (history : List Happening) : List Nat := 1 :: history.filterMap Happening.ordinal?

def departed (history : List Happening) : List Nat := history.filterMap Happening.departed?

private theorem spawned_append (history happened : List Happening) :
    spawned (history ++ happened) = spawned history ++ happened.filterMap Happening.born? := by
  simp [spawned]

private theorem ordinals_append (history happened : List Happening) :
    ordinals (history ++ happened) = ordinals history ++ happened.filterMap Happening.ordinal? := by
  simp [ordinals]

private theorem departed_append (history happened : List Happening) :
    departed (history ++ happened) = departed history ++ departed happened := by
  simp [departed]

private theorem spawned_created (history : List Happening) (parent child : Nat) :
    spawned (history ++ [.created parent child]) = spawned history ++ [child] :=
  spawned_append ..

private theorem spawned_sublist (history : List Happening) :
    (spawned history).Sublist (ordinals history) := by
  refine List.Sublist.cons_cons 1 ?_
  induction history with
  | nil => exact .slnil
  | cons x history ih =>
    cases x with
    | created parent child => exact ih.cons_cons child
    | unstarted ordinal => exact ih.cons ordinal
    | reaped | exited | halted | lost => exact ih

/-- While the host refuses no thread, every ordinal that is given is that of a process. -/
theorem spawned_eq_ordinals {history : List Happening} (h : ∀ n, .unstarted n ∉ history) :
    spawned history = ordinals history := by
  refine congrArg (1 :: ·) (List.filterMap_congr fun x hx => ?_)
  cases x with
  | unstarted n => exact absurd hx (h n)
  | created | reaped | exited | halted | lost => rfl

section

variable {x : Happening} (history : List Happening)

private theorem spawned_of_none (h : x.born? = none) : spawned (history ++ [x]) = spawned history := by
  simp [spawned_append, h]

private theorem ordinals_of_none (h : x.ordinal? = none) :
    ordinals (history ++ [x]) = ordinals history := by
  simp [ordinals_append, h]

private theorem departed_of_none (h : x.departed? = none) :
    departed (history ++ [x]) = departed history := by
  simp [departed, h]

end

namespace Kernel

/-- What a kernel counts, against a history and the processes that have not exited. -/
structure CountsMatch (history : List Happening) (k : Kernel) (family : List Process) : Prop where
  numbered : ordinals history = List.range' 1 (ordinals history).length
  next : k.nextOrdinal = (ordinals history).length + 1
  everyone : (departed history ++ family.map (·.ordinal)).Perm (spawned history)
  named : ∀ p ∈ family, p.pid = .nth p.ordinal
  counted : k.live = UInt64.ofNat family.length
  pages : ∀ p ∈ family, p.table.mapped ≠ []

variable {history : List Happening} {k k' : Kernel} {family family' rest : List Process}
variable {p p' child : Process}

private theorem CountsMatch.perm (h : CountsMatch history k family) (hp : family.Perm family') :
    CountsMatch history k family' where
  numbered := h.numbered
  next := h.next
  everyone := ((hp.map _).symm.append_left _).trans h.everyone
  named q hq := h.named q (hp.mem_iff.2 hq)
  counted := hp.length_eq ▸ h.counted
  pages q hq := h.pages q (hp.mem_iff.2 hq)

theorem CountsMatch.congr (h : CountsMatch history k family) (hnext : k'.nextOrdinal = k.nextOrdinal)
    (hlive : k'.live = k.live) : CountsMatch history k' family :=
  { h with next := hnext.trans h.next, counted := hlive.trans h.counted }

private theorem CountsMatch.replace (h : CountsMatch history k (p :: rest)) (hpid : p'.pid = p.pid)
    (hself : p'.ordinal = p.ordinal)
    (hmapped : p'.table.mapped = p.table.mapped) : CountsMatch history k (p' :: rest) where
  numbered := h.numbered
  next := h.next
  everyone := by
    rw [List.map_cons, hself, ← List.map_cons]
    exact h.everyone
  named := by
    obtain ⟨hp, hothers⟩ := List.forall_mem_cons.1 h.named
    rw [← hpid, ← hself] at hp
    exact List.forall_mem_cons.2 ⟨hp, hothers⟩
  counted := h.counted
  pages := by
    obtain ⟨hself, hothers⟩ := List.forall_mem_cons.1 h.pages
    exact List.forall_mem_cons.2 ⟨hmapped ▸ hself, hothers⟩

private theorem CountsMatch.append {x : Happening} (h : CountsMatch history k family)
    (hborn : x.born? = none)
    (hordinal : x.ordinal? = none) (hdeparted : x.departed? = none) :
    CountsMatch (history ++ [x]) k family where
  numbered := by
    rw [ordinals_of_none history hordinal]
    exact h.numbered
  next := by
    rw [ordinals_of_none history hordinal]
    exact h.next
  everyone := by
    rw [spawned_of_none history hborn, departed_of_none history hdeparted]
    exact h.everyone
  named := h.named
  counted := h.counted
  pages := h.pages

private theorem CountsMatch.ordinals_next (h : CountsMatch history k family) (x : Happening)
    (hx : x.ordinal? = some k.nextOrdinal) :
    ordinals (history ++ [x]) = ordinals history ++ [k.nextOrdinal] ∧
      ordinals (history ++ [x]) =
        List.range' 1 (ordinals (history ++ [x])).length := by
  have hmore : ordinals (history ++ [x]) =
      ordinals history ++ [k.nextOrdinal] := by
    simp [ordinals_append, hx]
  refine ⟨hmore, ?_⟩
  rw [hmore, List.length_append, List.length_singleton, List.range'_1_concat, ← h.numbered, h.next,
    Nat.add_comm]

private theorem CountsMatch.unstarts (h : CountsMatch history k family)
    (hnext : k'.nextOrdinal = k.nextOrdinal + 1)
    (hlive : k'.live = k.live) : CountsMatch (history ++ [.unstarted k.nextOrdinal]) k' family where
  numbered := (h.ordinals_next (.unstarted k.nextOrdinal) rfl).2
  next := by
    rw [hnext, (h.ordinals_next (.unstarted k.nextOrdinal) rfl).1, List.length_append, h.next]
    rfl
  everyone := by
    rw [spawned_of_none history rfl, departed_of_none history rfl]
    exact h.everyone
  named := h.named
  counted := hlive.trans h.counted
  pages := h.pages

private theorem CountsMatch.takesUp (h : CountsMatch history k (p :: rest))
    (hchild : TakesUp k k' child)
    (children : List Pid) : CountsMatch (history ++ [.created p.ordinal child.ordinal]) k'
      ({ p with children } :: child :: rest) where
  numbered := (h.ordinals_next (.created p.ordinal child.ordinal) (congrArg some hchild.ordinal)).2
  next := by
    have hmore := (h.ordinals_next (.created p.ordinal child.ordinal)
      (congrArg some hchild.ordinal)).1
    rw [hchild.nextOrdinal, hmore, List.length_append, h.next]
    rfl
  everyone := by
    rw [spawned_created, departed_of_none history rfl]
    refine List.Perm.trans ?_ (h.everyone.append_right _)
    rw [List.append_assoc]
    exact (((List.perm_append_singleton child.ordinal
      (rest.map (·.ordinal))).symm).cons p.ordinal).append_left _
  named := by
    obtain ⟨hself, hothers⟩ := List.forall_mem_cons.1 h.named
    exact List.forall_mem_cons.2 ⟨hself, List.forall_mem_cons.2 ⟨hchild.named, hothers⟩⟩
  counted := by
    rw [hchild.live, h.counted]
    exact (UInt64.ofNat_add (rest.length + 1) 1).symm
  pages := by
    obtain ⟨hself, hothers⟩ := List.forall_mem_cons.1 h.pages
    exact List.forall_mem_cons.2 ⟨hself, List.forall_mem_cons.2 ⟨hchild.pages, hothers⟩⟩

private theorem CountsMatch.exits (h : CountsMatch history k (p :: rest))
    (hnext : k'.nextOrdinal = k.nextOrdinal)
    (hlive : k'.live = k.live - 1) (status : Option Int32) :
    CountsMatch (history ++ [.exited p.ordinal status]) k' rest where
  numbered := by
    rw [ordinals_of_none history rfl]
    exact h.numbered
  next := by
    rw [hnext, ordinals_of_none history rfl]
    exact h.next
  everyone := by
    rw [spawned_of_none history rfl, departed_append, List.append_assoc]
    exact h.everyone
  named := (List.forall_mem_cons.1 h.named).2
  counted := by
    rw [hlive, h.counted, List.length_cons, UInt64.ofNat_add]
    exact UInt64.add_sub_cancel _ 1
  pages := (List.forall_mem_cons.1 h.pages).2

theorem CountsMatch.nodup (h : CountsMatch history k family) :
    (departed history ++ family.map (·.ordinal)).Nodup := by
  rw [h.everyone.nodup_iff]
  apply (spawned_sublist history).nodup
  rw [h.numbered]
  exact List.nodup_range'

theorem CountsMatch.mem_spawned (h : CountsMatch history k family) (hp : p ∈ family) :
    p.ordinal ∈ spawned history :=
  h.everyone.mem_iff.1 (List.mem_append_right _ (List.mem_map_of_mem hp))

end Kernel

namespace Turn

open Kernel

variable {history happened : List Happening} {t t' : Turn} {others : List Process}
variable {stop : Stop Errno}

private theorem Works.countsMatch (hworks : Works t t')
    (h : CountsMatch history t.kernel (t.self :: others)) :
    CountsMatch history t'.kernel (t'.self :: others) :=
  (h.replace hworks.pid hworks.ordinal
  (PageTable.mapped_congr hworks.mapping)).congr hworks.nextOrdinal hworks.live

private theorem Does.countsMatch (hdoes : t.Does happened t')
    (h : CountsMatch history t.kernel (t.self :: (others ++ t.kernel.ready))) :
    CountsMatch (history ++ happened) t'.kernel (t'.self :: (others ++ t'.kernel.ready)) := by
  cases hdoes with
  | works hworks =>
    rw [hworks.ready, List.append_nil]
    exact hworks.countsMatch h
  | @begets t₁ t' k child hworks hchild hafter =>
    rw [hworks.ready_begets hchild hafter, ← List.append_assoc, ← hworks.ordinal]
    exact (hafter.countsMatch ((hworks.countsMatch h).takesUp hchild _)).perm
      ((List.perm_append_singleton ..).symm.cons _)
  | unstarts hworks hafter =>
    rw [hworks.ready_passOver hafter]
    exact hafter.countsMatch ((hworks.countsMatch h).unstarts rfl rfl)
  | @reaps t' child record hchild hrecord hworks =>
    rw [hworks.ready]
    have hreap : CountsMatch history (t.reap child).kernel
        ((t.reap child).self :: (others ++ t.kernel.ready)) := by
      have hself : CountsMatch history t.kernel ((t.reap child).self :: _) := h.replace rfl rfl rfl
      exact hself.congr rfl rfl
    exact hworks.countsMatch (hreap.append rfl rfl rfl)
  | @misses t' child hchild hrecord hworks =>
    rw [hworks.ready, List.append_nil]
    exact hworks.countsMatch (t := t.forget child) (h.replace rfl rfl rfl)

private theorem Ceases.countsMatch (hceases : t.Ceases stop happened t') (hwaits : stop ≠ .waiting)
    {k : Kernel}
    (hburies : t'.Buries stop k)
    (h : CountsMatch history t.kernel (t.self :: (others ++ t.kernel.ready))) :
    CountsMatch (history ++ happened) k (stranded happened ++ (others ++ k.ready)) := by
  cases hceases with
  | @exits t' status hexits =>
    rw [hburies.ready, hexits.ready]
    exact h.exits (hburies.nextOrdinal.trans hexits.nextOrdinal) (hburies.live.trans hexits.live) status
  | halts hhalts =>
    rw [hburies.ready, hhalts.ready]
    exact (h.append rfl rfl rfl).congr
      (hburies.nextOrdinal.trans hhalts.nextOrdinal) (hburies.live.trans hhalts.live)
  | cut hoff =>
    rw [hburies.ready]
    exact (h.append rfl rfl rfl).congr hburies.nextOrdinal hburies.live
  | waits => exact absurd rfl hwaits
  | dies f hdoes =>
    rw [hburies.ready, stranded_append, hdoes.stranded_eq, List.nil_append, ← List.append_assoc]
    exact ((hdoes.countsMatch h).append rfl rfl rfl).congr hburies.nextOrdinal hburies.live

end Turn

namespace World

open Turn Kernel

variable {allowed : Move → Prop} {history : List Happening} {w w' : World}
variable {before after : List Process} {p : Process} {m : Move} {happened : List Happening}

private theorem MoveOutcome.countsMatch (hrunning : w.running = before ++ p :: after)
    (h : CountsMatch history w.kernel (w.unexited history))
    (houtcome : w.MoveOutcome before p after m happened w') :
    CountsMatch (history ++ happened) w'.kernel (w'.unexited (history ++ happened)) := by
  have hcounts := h.perm (unexited_perm hrunning history)
  cases houtcome with
  | goesOn hspares hdoes =>
    exact (hdoes.countsMatch hcounts).perm (unexited_goesOn hdoes before after history)
  | waits =>
    rw [List.append_nil]
    exact h
  | ends hspares hstop hceases =>
    exact (hceases.countsMatch hstop (hspares.sound.buries _) hcounts).perm (unexited_ends ..)

private theorem countsMatch_root {config : Config} {devices : Devices} {name : String}
    {args : List String}
    {pid : Pid} {k : Kernel} (hspawn : Kernel.spawn name args (.boot config devices) = .ok pid k) :
    CountsMatch [] k (unexited ⟨k, []⟩ []) := by
  obtain ⟨-, -, root, hroot⟩ :=
    (Kernel.ensures_spawn (Kernel.Sound.boot config devices) name args).of_ok hspawn
  have hfamily : unexited ⟨k, []⟩ [] = [root] := hroot.ready
  have hself : root.ordinal = 1 := hroot.ordinal
  rw [hfamily]
  refine ⟨by decide, hroot.nextOrdinal, ?_, List.forall_mem_singleton.2 hroot.named, hroot.live,
    List.forall_mem_singleton.2 hroot.pages⟩
  rw [List.map_singleton, hself]
  exact .refl _

private theorem countsMatch_started {ordinal : Nat} {k : Kernel}
    (hb : w.kernel.ConsistentWith w.processes)
    (h : CountsMatch history w.kernel (w.unexited history))
    (hready : w.kernel.takeReady? ordinal = some (p, k)) :
    CountsMatch history k (unexited ⟨k, { p with phase := .running } :: w.running⟩ history) := by
  obtain ⟨-, -, hk⟩ := processes_started hb.distinct hready
  have hmoved : CountsMatch history w.kernel ({ p with phase := .running } :: _) :=
    (h.perm (unexited_started hb hready history)).replace rfl rfl rfl
  rw [hk]
  exact (hmoved.perm List.perm_middle.symm).congr rfl rfl

theorem Chronicle.countsMatch (h : Chronicle allowed history w) :
    CountsMatch history w.kernel (w.unexited history) := by
  induction h with
  | begins hspawn => exact countsMatch_root hspawn
  | started h hready ih => exact countsMatch_started h.reachable.consistentWith ih hready
  | acted h hallowed hacts ih =>
    exact (hacts.moveOutcome h.reachable.sound).countsMatch hacts.running_eq ih
  | changed h devices ih => exact ih.congr rfl rfl

end World

end PagedKernel

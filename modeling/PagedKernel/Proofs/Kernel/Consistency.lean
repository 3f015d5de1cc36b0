import PagedKernel.Proofs.Kernel.World

/-!
# The processes that a kernel accounts for

No frame is lost: each stands in the queue or belongs to a process that has not ended. Processes that
have not ended have numbers of their own, and no record says of any of them how it ended.
-/

namespace PagedKernel

/-- A process with all its pages, whose free descriptors are those without a file. -/
structure Process.Intact (p : Process) : Prop where
  valid : p.table.AllValid
  freeExact : p.descriptors.FreeExact

namespace Kernel

variable {k k' : Kernel} {members members' : List Process} {p p' : Process}

/-- Frames, ordinals and records of a kernel agree with the processes that have not ended. -/
structure ConsistentWith (k : Kernel) (members : List Process) : Prop where
  balanced : k.machine.pool.Balanced k.machine.memory.size (heldBy members)
  distinct : (members.map (·.ordinal)).Nodup
  numbered : ∀ p ∈ members, p.pid = .nth p.ordinal ∧ p.ordinal < k.nextOrdinal
  intact : ∀ p ∈ members, p.Intact
  recorded : ∀ e ∈ k.records, e.2.ordinal < k.nextOrdinal
  unsettled : ∀ p ∈ members, ∀ e ∈ k.records, e.2.ordinal = p.ordinal → e.2.outcome = none

private theorem ConsistentWith.boot (config : Config) (devices : Devices) :
    (boot config devices).ConsistentWith [] where
  balanced := FramePool.Balanced.full _
  distinct := List.nodup_nil
  numbered := nofun
  intact := nofun
  recorded := nofun
  unsettled := nofun

private theorem ConsistentWith.perm (h : k.ConsistentWith members) (hp : members.Perm members') :
    k.ConsistentWith members' where
  balanced := by
    have hlength := (heldBy_perm hp).length_eq
    rw [FramePool.Balanced, ← hlength]
    exact h.balanced
  distinct := (hp.map _).nodup_iff.1 h.distinct
  numbered q hq := h.numbered q (hp.mem_iff.2 hq)
  intact q hq := h.intact q (hp.mem_iff.2 hq)
  recorded := h.recorded
  unsettled q hq := h.unsettled q (hp.mem_iff.2 hq)

theorem ConsistentWith.congr (h : k.ConsistentWith members)
    (havailable : k'.machine.pool.available = k.machine.pool.available)
    (hsize : k'.machine.memory.size = k.machine.memory.size)
    (hnext : k.nextOrdinal ≤ k'.nextOrdinal)
    (hrecords : ∀ e ∈ k'.records, e ∈ k.records) : k'.ConsistentWith members where
  balanced := by
    rw [FramePool.Balanced, havailable, hsize]
    exact h.balanced
  distinct := h.distinct
  numbered q hq := (h.numbered q hq).imp_right fun hlt => Nat.lt_of_lt_of_le hlt hnext
  intact := h.intact
  recorded e he := Nat.lt_of_lt_of_le (h.recorded e (hrecords e he)) hnext
  unsettled q hq e he := h.unsettled q hq e (hrecords e he)

private theorem ConsistentWith.replace (h : k.ConsistentWith (p :: members)) (hpid : p'.pid = p.pid)
    (hself : p'.ordinal = p.ordinal) (hp : p'.Intact)
    (hframes : k'.machine.pool.available + p'.table.mapped.length =
      k.machine.pool.available + p.table.mapped.length)
    (hsize : k'.machine.memory.size = k.machine.memory.size)
    (hnext : k.nextOrdinal ≤ k'.nextOrdinal)
    (hrecords : ∀ e ∈ k'.records, e ∈ k.records) : k'.ConsistentWith (p' :: members) where
  balanced := by
    have hbalanced := h.balanced
    simp only [FramePool.Balanced, heldBy_cons, List.length_append] at hbalanced ⊢
    omega
  distinct := by
    rw [List.map_cons, hself]
    exact h.distinct
  numbered := by
    obtain ⟨hold, hothers⟩ := List.forall_mem_cons.1 h.numbered
    rw [← hpid, ← hself] at hold
    have hlater : ∀ {n : Nat}, n < k.nextOrdinal → n < k'.nextOrdinal :=
      fun hlt => Nat.lt_of_lt_of_le hlt hnext
    exact List.forall_mem_cons.2
      ⟨hold.imp_right hlater, fun q hq => (hothers q hq).imp_right hlater⟩
  intact := List.forall_mem_cons.2 ⟨hp, (List.forall_mem_cons.1 h.intact).2⟩
  recorded e he := Nat.lt_of_lt_of_le (h.recorded e (hrecords e he)) hnext
  unsettled := by
    have hunsettled := List.forall_mem_cons.1 h.unsettled
    refine List.forall_mem_cons.2 ⟨fun e he => ?_, fun q hq e he => ?_⟩
    · rw [hself]
      exact hunsettled.1 e (hrecords e he)
    · exact hunsettled.2 q hq e (hrecords e he)

private theorem ConsistentWith.takesUp (h : k.ConsistentWith members) (htakes : TakesUp k k' p) :
    k'.ConsistentWith (p :: members) where
  balanced := by
    have hbalanced := h.balanced
    have hqueue := congrArg List.length htakes.queue
    simp only [FramePool.Balanced, FramePool.available, heldBy_cons, List.length_append,
      htakes.size] at hbalanced hqueue ⊢
    omega
  distinct := by
    rw [List.map_cons, List.nodup_cons]
    refine ⟨fun hmem => ?_, h.distinct⟩
    obtain ⟨q, hq, hself⟩ := List.mem_map.1 hmem
    have hlt := (h.numbered q hq).2
    rw [hself, htakes.ordinal] at hlt
    exact Nat.lt_irrefl _ hlt
  numbered := List.forall_mem_cons.2
    ⟨⟨htakes.named, htakes.ordinal_lt⟩, fun q hq => (h.numbered q hq).imp_right htakes.lt⟩
  intact := by
    refine List.forall_mem_cons.2 ⟨⟨htakes.valid, ?_⟩, h.intact⟩
    rw [htakes.descriptors]
    exact DescriptorTable.freeExact_create _
  recorded e he := by
    rcases htakes.mem_records he with ⟨-, hself, -⟩ | ⟨-, hold⟩
    · rw [hself]
      exact htakes.ordinal_lt
    · exact htakes.lt (h.recorded e hold)
  unsettled := by
    refine List.forall_mem_cons.2 ⟨fun e he hself => ?_, fun q hq e he hself => ?_⟩
    · rcases htakes.mem_records he with ⟨-, -, hnone⟩ | ⟨-, hold⟩
      · exact hnone
      · have hlt := h.recorded e hold
        rw [hself, htakes.ordinal] at hlt
        exact absurd hlt (Nat.lt_irrefl _)
    · rcases htakes.mem_records he with ⟨-, -, hnone⟩ | ⟨-, hold⟩
      · exact hnone
      · exact h.unsettled q hq e hold hself

end Kernel

namespace Turn

variable {t t' : Turn} {others : List Process} {happened : List Happening} {stop : Stop Errno}

private theorem Works.consistentWith (hworks : Works t t')
    (h : t.kernel.ConsistentWith (t.self :: others)) :
    t'.kernel.ConsistentWith (t'.self :: others) := by
  obtain ⟨hvalid, hexact⟩ := h.intact _ (List.mem_cons_self ..)
  have hmapped := PageTable.mapped_congr hworks.mapping
  have havailable := hworks.queue.length_eq
  refine h.replace hworks.pid hworks.ordinal
    ⟨hvalid.congr hworks.mapping, hworks.filesKept.freeExact hexact⟩ ?_ hworks.size
    (Nat.le_of_eq hworks.nextOrdinal.symm) ?_
  · rw [hmapped, FramePool.available, havailable, FramePool.available]
  · rw [hworks.records]
    exact fun _ he => he

private theorem consistentWith_forget (h : t.kernel.ConsistentWith (t.self :: others)) (child : Pid) :
    (t.forget child).kernel.ConsistentWith ((t.forget child).self :: others) := by
  obtain ⟨hvalid, hexact⟩ := h.intact _ (List.mem_cons_self ..)
  exact h.replace rfl rfl ⟨hvalid, hexact⟩ rfl rfl (Nat.le_refl _) fun _ he => he

private theorem consistentWith_reap (h : t.kernel.ConsistentWith (t.self :: others)) (child : Pid) :
    (t.reap child).kernel.ConsistentWith ((t.reap child).self :: others) :=
  (consistentWith_forget h child).congr rfl rfl (Nat.le_refl _) fun _ he => (List.mem_filter.1 he).1

private theorem Does.consistentWith (hdoes : t.Does happened t')
    (h : t.kernel.ConsistentWith (t.self :: (others ++ t.kernel.ready))) :
    t'.kernel.ConsistentWith (t'.self :: (others ++ t'.kernel.ready)) := by
  cases hdoes with
  | works hworks =>
    rw [hworks.ready]
    exact hworks.consistentWith h
  | @begets t₁ t' k child hworks hchild hafter =>
    have htaken := (hworks.consistentWith h).takesUp hchild
    have hparent : k.ConsistentWith ({ t₁.self with children := child.pid.insert t₁.self.children } ::
        (child :: (others ++ t.kernel.ready))) := by
      obtain ⟨hvalid, hexact⟩ := htaken.intact _ (List.mem_cons_of_mem _ (List.mem_cons_self ..))
      exact (htaken.perm (.swap ..)).replace rfl rfl ⟨hvalid, hexact⟩ rfl rfl (Nat.le_refl _)
        fun _ he => he
    rw [hworks.ready_begets hchild hafter, ← List.append_assoc]
    exact (hafter.consistentWith hparent).perm ((List.perm_append_singleton ..).symm.cons _)
  | unstarts hworks hafter =>
    rw [hworks.ready_passOver hafter]
    exact hafter.consistentWith ((hworks.consistentWith h).congr rfl rfl (Nat.le_succ _) fun _ he => he)
  | reaps hchild hrecord hworks =>
    rw [hworks.ready]
    exact hworks.consistentWith (consistentWith_reap h _)
  | misses hchild hrecord hworks =>
    rw [hworks.ready]
    exact hworks.consistentWith (consistentWith_forget h _)

private theorem Releases.consistentWith (hreleases : Releases t t')
    (h : t.kernel.ConsistentWith (t.self :: others))
    (hrecords : ∀ e ∈ t'.kernel.records, e ∈ t.kernel.records) :
    t'.kernel.ConsistentWith (t'.self :: others) := by
  obtain ⟨hvalid, hexact⟩ := h.intact _ (List.mem_cons_self ..)
  have hexact' : t'.self.descriptors.FreeExact := by
    have hdesk : t'.self.descriptors = t.desk.closeAll.2.descriptors :=
      congrArg Desk.descriptors hreleases.desk
    rw [hdesk]
    exact Desk.filesKept_closeAll.freeExact hexact
  refine h.replace hreleases.pid hreleases.ordinal ⟨?_, hexact'⟩ ?_ hreleases.size
    (Nat.le_of_eq hreleases.nextOrdinal.symm) hrecords
  · rw [hreleases.table]
    exact PageTable.AllValid.empty
  · rw [hreleases.table, FramePool.available, hreleases.queue, hvalid.frames_eq]
    simp [FramePool.available, PageTable.mapped]

/-- When a process is buried, the kernel is consistent with the others. -/
theorem Buries.consistentWith {k : Kernel} (hburies : t.Buries stop k)
    (h : t.kernel.ConsistentWith (t.self :: others)) : k.ConsistentWith others where
  balanced := by
    have hvalid := (h.intact _ (List.mem_cons_self ..)).valid
    have hbalanced := h.balanced
    have hqueue := congrArg List.length hburies.queue
    simp only [FramePool.Balanced, FramePool.available, heldBy_cons, List.length_append,
      hburies.memory, hvalid.frames_eq] at hbalanced hqueue ⊢
    omega
  distinct := (List.nodup_cons.1 h.distinct).2
  numbered := by
    rw [hburies.nextOrdinal]
    exact (List.forall_mem_cons.1 h.numbered).2
  intact := (List.forall_mem_cons.1 h.intact).2
  recorded e he := by
    rw [hburies.records] at he
    obtain ⟨old, hold, rfl⟩ := List.mem_map.1 he
    rw [Record.ordinal_settle, hburies.nextOrdinal]
    exact h.recorded old hold
  unsettled q hq e he hself := by
    rw [hburies.records] at he
    rcases mem_settle he with ⟨hgone, -⟩ | ⟨-, hold⟩
    · exact absurd (List.mem_map.2 ⟨q, hq, hself.symm.trans hgone⟩) (List.nodup_cons.1 h.distinct).1
    · exact h.unsettled q (List.mem_cons_of_mem _ hq) e hold hself

private theorem Ceases.consistentWith (hceases : t.Ceases stop happened t') (hwaits : stop ≠ .waiting)
    {k : Kernel}
    (hburies : t'.Buries stop k) (h : t.kernel.ConsistentWith (t.self :: (others ++ t.kernel.ready))) :
    k.ConsistentWith (others ++ k.ready) := by
  cases hceases with
  | exits hexits =>
    rw [hburies.ready, hexits.ready]
    refine hburies.consistentWith (hexits.consistentWith h ?_)
    rw [hexits.records]
    exact fun _ he => Assoc.mem_of_mem_foldl_erase he
  | halts hhalts =>
    rw [hburies.ready, hhalts.ready]
    refine hburies.consistentWith (hhalts.consistentWith h ?_)
    rw [hhalts.records]
    exact fun _ he => he
  | cut hoff =>
    rw [hburies.ready]
    exact hburies.consistentWith h
  | waits => exact absurd rfl hwaits
  | dies f hdoes =>
    rw [hburies.ready]
    exact hburies.consistentWith (hdoes.consistentWith h)

end Turn

namespace Kernel

variable {k k' : Kernel} {running : List Process} {p : Process} {ordinal : Nat}

private theorem takeReady?_perm (h : k.takeReady? ordinal = some (p, k'))
    (hdistinct : (k.ready.map (·.ordinal)).Nodup) :
    k.ready.Perm (p :: k'.ready) ∧ k' = { k with ready := k'.ready } := by
  obtain ⟨found, hfind, heq⟩ := Option.map_eq_some_iff.1 h
  cases heq
  obtain ⟨hself, first, last, hsplit, -⟩ := List.find?_eq_some_iff_append.1 hfind
  have hself : p.ordinal = ordinal := by simpa using hself
  have hperm : k.ready.Perm (p :: (first ++ last)) := hsplit ▸ List.perm_middle
  have hothers : ordinal ∉ (first ++ last).map (·.ordinal) := by
    rw [(hperm.map _).nodup_iff, List.map_cons, List.nodup_cons, hself] at hdistinct
    exact hdistinct.1
  have hstay : ∀ q ∈ first ++ last, (!decide (q.ordinal = ordinal)) = true := by
    intro q hq
    have hne : q.ordinal ≠ ordinal := fun heq => hothers (heq ▸ List.mem_map_of_mem hq)
    simp [hne]
  have hfilter : k.ready.filter (fun q => !decide (q.ordinal = ordinal)) = first ++ last := by
    rw [hsplit, List.filter_append, List.filter_cons_of_neg (by simp [hself]),
      ← List.filter_append, List.filter_eq_self.2 hstay]
  rw [hfilter]
  exact ⟨hperm, rfl⟩

end Kernel

namespace World

open Turn

variable {allowed : Move → Prop} {w w' : World} {before after : List Process} {p : Process}
variable {m : Move} {happened : List Happening}

theorem processes_started {ordinal : Nat} {k : Kernel}
    (hdistinct : (w.processes.map (·.ordinal)).Nodup)
    (hready : w.kernel.takeReady? ordinal = some (p, k)) :
    w.kernel.ready.Perm (p :: k.ready) ∧ w.processes.Perm (p :: (w.running ++ k.ready)) ∧
      k = { w.kernel with ready := k.ready } := by
  rw [processes, List.map_append] at hdistinct
  obtain ⟨hperm, hk⟩ := Kernel.takeReady?_perm hready (List.nodup_append.1 hdistinct).2.1
  exact ⟨hperm, (hperm.append_left w.running).trans List.perm_middle, hk⟩

private theorem consistentWith_started {ordinal : Nat} {k : Kernel}
    (hb : w.kernel.ConsistentWith w.processes)
    (hready : w.kernel.takeReady? ordinal = some (p, k)) :
    k.ConsistentWith (processes ⟨k, { p with phase := .running } :: w.running⟩) := by
  obtain ⟨-, hperm, hk⟩ := processes_started hb.distinct hready
  have hmoved := hb.perm hperm
  obtain ⟨hvalid, hexact⟩ := hmoved.intact _ (List.mem_cons_self ..)
  rw [hk]
  exact hmoved.replace rfl rfl ⟨hvalid, hexact⟩ rfl rfl (Nat.le_refl _) fun _ he => he

private theorem MoveOutcome.consistentWith (hrunning : w.running = before ++ p :: after)
    (hb : w.kernel.ConsistentWith w.processes) (h : w.MoveOutcome before p after m happened w') :
    w'.kernel.ConsistentWith w'.processes := by
  have hconsistent := hb.perm (processes_perm hrunning)
  cases h with
  | @goesOn _ t hspares hdoes =>
    exact (hdoes.consistentWith hconsistent).perm (processes_perm (w := ⟨t.kernel, _⟩) rfl).symm
  | waits => exact hb
  | ends hspares hstop hceases =>
    exact hceases.consistentWith hstop (hspares.sound.buries _) hconsistent

private theorem Step.consistentWith (hw : w.kernel.Sound w.running)
    (hb : w.kernel.ConsistentWith w.processes)
    (h : Step allowed w w') : w'.kernel.ConsistentWith w'.processes := by
  cases h with
  | spawned hspawn =>
    obtain ⟨-, -, child, hchild⟩ := (Kernel.ensures_spawn hw _ _).of_ok hspawn
    rw [processes, hchild.ready, ← List.append_assoc]
    exact (hb.takesUp hchild).perm (List.perm_append_singleton ..).symm
  | notSpawned hspawn =>
    obtain ⟨-, habides, -, hturnsDown⟩ := (Kernel.ensures_spawn hw _ _).of_error hspawn
    rw [processes, habides.ready]
    refine hb.congr habides.queue.length_eq habides.size hturnsDown.le ?_
    rw [habides.records]
    exact fun _ he => he
  | started hready => exact consistentWith_started hb hready
  | acted hallowed hacts => exact (hacts.moveOutcome hw).consistentWith hacts.running_eq hb
  | changed devices => exact hb.congr rfl rfl (Nat.le_refl _) fun _ he => he

theorem Reachable.consistentWith (hw : Reachable allowed w) : w.kernel.ConsistentWith w.processes := by
  induction hw with
  | boot config devices => exact Kernel.ConsistentWith.boot config devices
  | step hw hstep ih => exact hstep.consistentWith hw.sound ih

end World

end PagedKernel

import PagedKernel.Proofs.Kernel.Chronicle

/-!
# What a history says of the kernel

A process has the children that it created and has not joined. How a process ended that has exited is
in its record, and while the machine is on there is no other way to end. A child is created once, and
joined once at most, by the process that created it.
-/

namespace PagedKernel

/-- The happening can come after those of the past. -/
def Happening.Follows (past : List Happening) : Happening → Prop
  | created _ child => ∀ p, created p child ∉ past
  | reaped parent child => created parent child ∈ past ∧ ∀ p, reaped p child ∉ past
  | unstarted _ | exited .. | halted _ | lost _ => True

/-- Children are created before they are reaped, and each once at most. -/
def Orderly (history : List Happening) : Prop :=
  ∀ past x rest, history = past ++ x :: rest → x.Follows past

variable {history : List Happening} {x : Happening}

private theorem Orderly.nil : Orderly [] := by
  intro past x rest h
  cases (List.append_eq_nil_iff.1 h.symm).2

private theorem Orderly.append (h : Orderly history) (hx : x.Follows history) :
    Orderly (history ++ [x]) := by
  intro past y rest heq
  rcases List.eq_nil_or_concat rest with rfl | ⟨rest, z, rfl⟩
  · obtain ⟨rfl, hlast⟩ := List.append_inj' heq rfl
    cases hlast
    exact hx
  · rw [List.concat_eq_append, ← List.cons_append, ← List.append_assoc] at heq
    exact h past y rest (List.append_inj' heq rfl).1

theorem Orderly.created_of_reaped (h : Orderly history) {parent child : Nat}
    (hreaped : .reaped parent child ∈ history) : .created parent child ∈ history := by
  obtain ⟨past, rest, rfl⟩ := List.append_of_mem hreaped
  exact List.mem_append_left _ (h past _ rest rfl).1

theorem Orderly.parent_unique (h : Orderly history) {a b child : Nat}
    (ha : .created a child ∈ history) (hb : .created b child ∈ history) : a = b := by
  obtain ⟨past, rest, rfl⟩ := List.append_of_mem ha
  rcases List.mem_append.1 hb with hpast | hlater
  · exact absurd hpast (h past _ rest rfl b)
  · rcases List.mem_cons.1 hlater with heq | hrest
    · cases heq
      rfl
    · obtain ⟨middle, last, rfl⟩ := List.append_of_mem hrest
      have hfollows := h (past ++ .created a child :: middle) (.created b child) last (by simp)
      exact absurd (List.mem_append_right _ (List.mem_cons_self ..)) (hfollows a)

/-- A child is not reaped another time. -/
theorem Orderly.reaped_once {past rest : List Happening} {parent child : Nat}
    (h : Orderly (past ++ .reaped parent child :: rest)) (a : Nat) :
    .reaped a child ∉ past ∧ .reaped a child ∉ rest := by
  refine ⟨(h past _ rest rfl).2 a, fun hrest => ?_⟩
  obtain ⟨middle, last, rfl⟩ := List.append_of_mem hrest
  have hfollows := h (past ++ .reaped parent child :: middle) (.reaped a child) last (by simp)
  exact absurd (List.mem_append_right _ (List.mem_cons_self ..)) (hfollows.2 parent)

namespace Happening

open Kernel

variable {k k' : Kernel} {members members' rest : List Process} {p child : Process}

/-- What is so from a happening on, of the kernel and the processes that have not ended: a child that
was reaped is nobody's child, and the record of a process that exited says how. -/
def Lasts (k : Kernel) (members : List Process) : Happening → Prop
  | created _ child => child < k.nextOrdinal
  | reaped _ child => child < k.nextOrdinal ∧ ∀ p ∈ members, .nth child ∉ p.children
  | exited ordinal status => ordinal < k.nextOrdinal ∧ (∀ p ∈ members, p.ordinal ≠ ordinal) ∧
      ∀ e ∈ k.records, e.2.ordinal = ordinal → e.2.outcome = some (.ended status)
  | unstarted _ | halted _ | lost _ => True

theorem Lasts.mono (h : x.Lasts k members) (hnext : k.nextOrdinal ≤ k'.nextOrdinal)
    (hrecords : ∀ e ∈ k'.records, e ∈ k.records)
    (hmembers : ∀ p' ∈ members', ∃ p ∈ members,
      p'.ordinal = p.ordinal ∧ ∀ c ∈ p'.children, c ∈ p.children) :
    x.Lasts k' members' := by
  cases x with
  | created _ c => exact Nat.lt_of_lt_of_le h hnext
  | reaped _ c =>
    obtain ⟨hlt, hall⟩ := h
    refine ⟨Nat.lt_of_lt_of_le hlt hnext, fun p' hp' hc => ?_⟩
    obtain ⟨p, hp, -, hchildren⟩ := hmembers p' hp'
    exact hall p hp (hchildren _ hc)
  | exited c s =>
    obtain ⟨hlt, hall, htold⟩ := h
    refine ⟨Nat.lt_of_lt_of_le hlt hnext, fun p' hp' => ?_, fun e he => htold e (hrecords e he)⟩
    obtain ⟨p, hp, hself, -⟩ := hmembers p' hp'
    rw [hself]
    exact hall p hp
  | unstarted | halted | lost => trivial

private theorem Lasts.takesUp (h : x.Lasts k (p :: rest)) (hchild : TakesUp k k' child)
    (hfew : k'.nextOrdinal ≤ 2 ^ 31) :
    x.Lasts k' ({ p with children := child.pid.insert p.children } :: child :: rest) := by
  have hfresh : ∀ {n}, n < k.nextOrdinal → n ≠ child.ordinal := by
    rintro n hlt rfl
    rw [hchild.ordinal] at hlt
    exact Nat.lt_irrefl _ hlt
  cases x with
  | created _ c => exact hchild.lt h
  | reaped _ c =>
    obtain ⟨hlt, hall⟩ := h
    obtain ⟨hself, hothers⟩ := List.forall_mem_cons.1 hall
    have hbound := Nat.lt_of_lt_of_le hchild.ordinal_lt hfew
    refine ⟨hchild.lt hlt, List.forall_mem_cons.2 ⟨?_, List.forall_mem_cons.2 ⟨?_, hothers⟩⟩⟩
    · rw [Pid.mem_insert, not_or, hchild.named,
        Pid.nth_inj (Nat.lt_of_lt_of_le (hchild.lt hlt) hfew) hbound]
      exact ⟨hfresh hlt, hself⟩
    · rw [hchild.children]
      exact List.not_mem_nil
  | exited c s =>
    obtain ⟨hlt, hall, htold⟩ := h
    obtain ⟨hself, hothers⟩ := List.forall_mem_cons.1 hall
    have hnew : child.ordinal ≠ c := (hfresh hlt).symm
    refine ⟨hchild.lt hlt, List.forall_mem_cons.2 ⟨hself, List.forall_mem_cons.2 ⟨hnew, hothers⟩⟩,
      fun e he hc => ?_⟩
    rcases hchild.mem_records he with ⟨-, hordinal, -⟩ | ⟨-, hold⟩
    · exact absurd (hordinal.symm.trans hc) hnew
    · exact htold e hold hc
  | unstarted | halted | lost => trivial

private theorem Lasts.settles (h : x.Lasts k (p :: rest)) {records : Assoc Pid Record}
    {outcome : Outcome}
    (hrecords : ∀ e ∈ records, e ∈ k.records) (hnext : k'.nextOrdinal = k.nextOrdinal)
    (hsettled : k'.records =
      records.mapValues (.settle p.ordinal outcome)) :
    x.Lasts k' rest := by
  cases x with
  | created _ c =>
    rw [Lasts, hnext]
    exact h
  | reaped _ c =>
    rw [Lasts, hnext]
    exact ⟨h.1, (List.forall_mem_cons.1 h.2).2⟩
  | exited c s =>
    obtain ⟨hlt, hall, htold⟩ := h
    obtain ⟨hself, hothers⟩ := List.forall_mem_cons.1 hall
    rw [Lasts, hnext, hsettled]
    refine ⟨hlt, hothers, fun e he hc => ?_⟩
    rcases Turn.mem_settle he with ⟨hordinal, -⟩ | ⟨-, hold⟩
    · exact absurd (hordinal.symm.trans hc) hself
    · exact htold e (hrecords e hold) hc
  | unstarted | halted | lost => trivial

end Happening

namespace Kernel

/-- A history agrees with the kernel and the processes that have not ended. -/
structure HistoryMatches (history : List Happening) (k : Kernel) (members : List Process) : Prop where
  orderly : Orderly history
  lasting : ∀ x ∈ history, x.Lasts k members
  born : ∀ p ∈ members, ∀ e ∈ k.records, e.1 ∈ p.children → .created p.ordinal e.2.ordinal ∈ history
  settled : k.machine.poweredOff = false → ∀ e ∈ k.records, ∀ o, e.2.outcome = some o →
    ∃ s, o = .ended s ∧ .exited e.2.ordinal s ∈ history

variable {k k' : Kernel} {members members' rest : List Process} {p child : Process} {c : Pid}

theorem HistoryMatches.mono (h : HistoryMatches history k members)
    (hnext : k.nextOrdinal ≤ k'.nextOrdinal)
    (hpower : k'.machine.poweredOff = false → k.machine.poweredOff = false)
    (hrecords : ∀ e ∈ k'.records, e ∈ k.records)
    (hmembers : ∀ p' ∈ members', ∃ p ∈ members,
      p'.ordinal = p.ordinal ∧ ∀ c ∈ p'.children, c ∈ p.children) :
    HistoryMatches history k' members' where
  orderly := h.orderly
  lasting x hx := (h.lasting x hx).mono hnext hrecords hmembers
  born p' hp' e he hc := by
    obtain ⟨p, hp, hself, hchildren⟩ := hmembers p' hp'
    rw [hself]
    exact h.born p hp e (hrecords e he) (hchildren _ hc)
  settled hon e he := h.settled (hpower hon) e (hrecords e he)

private theorem HistoryMatches.perm (h : HistoryMatches history k members)
    (hp : members.Perm members') :
    HistoryMatches history k members' :=
  h.mono (Nat.le_refl _) (fun hon => hon) (fun _ he => he)
    fun q hq => ⟨q, hp.mem_iff.2 hq, rfl, fun _ hc => hc⟩

private theorem HistoryMatches.replace {p' : Process} (h : HistoryMatches history k (p :: rest))
    (hself : p'.ordinal = p.ordinal) (hchildren : ∀ c ∈ p'.children, c ∈ p.children) :
    HistoryMatches history k (p' :: rest) := by
  apply h.mono (Nat.le_refl _) (fun hon => hon) (fun _ he => he)
  refine List.forall_mem_cons.2 ⟨⟨p, List.mem_cons_self .., hself, hchildren⟩, ?_⟩
  exact fun q hq => ⟨q, List.mem_cons_of_mem _ hq, rfl, fun _ hc => hc⟩

theorem HistoryMatches.congr (h : HistoryMatches history k members)
    (hnext : k'.nextOrdinal = k.nextOrdinal)
    (hpower : k'.machine.poweredOff = false → k.machine.poweredOff = false)
    (hrecords : ∀ e ∈ k'.records, e ∈ k.records) : HistoryMatches history k' members :=
  h.mono (Nat.le_of_eq hnext.symm) hpower hrecords
    fun q hq => ⟨q, hq, rfl, fun _ hc => hc⟩

private theorem HistoryMatches.append (h : HistoryMatches history k members)
    (hfollows : x.Follows history)
    (hlasts : x.Lasts k members) : HistoryMatches (history ++ [x]) k members where
  orderly := h.orderly.append hfollows
  lasting := List.forall_mem_append.2 ⟨h.lasting, List.forall_mem_singleton.2 hlasts⟩
  born p hp e he hc := List.mem_append_left _ (h.born p hp e he hc)
  settled hon e he o ho := by
    obtain ⟨s, hs, hexited⟩ := h.settled hon e he o ho
    exact ⟨s, hs, List.mem_append_left _ hexited⟩

private theorem HistoryMatches.takesUp (h : HistoryMatches history k (p :: rest))
    (hchild : TakesUp k k' child)
    (hfew : k'.nextOrdinal ≤ 2 ^ 31) (hnew : ∀ q ∈ rest, child.pid ∉ q.children) :
    HistoryMatches (history ++ [.created p.ordinal child.ordinal]) k'
      ({ p with children := child.pid.insert p.children } :: child :: rest) where
  orderly := by
    refine h.orderly.append fun a hcreated => ?_
    have hlt : child.ordinal < k.nextOrdinal := h.lasting _ hcreated
    rw [hchild.ordinal] at hlt
    exact Nat.lt_irrefl _ hlt
  lasting := by
    refine List.forall_mem_append.2 ⟨fun y hy => (h.lasting y hy).takesUp hchild hfew, ?_⟩
    exact List.forall_mem_singleton.2 hchild.ordinal_lt
  born := by
    obtain ⟨hself, hothers⟩ := List.forall_mem_cons.1 h.born
    refine List.forall_mem_cons.2 ⟨fun e he hc => ?_,
      List.forall_mem_cons.2 ⟨?_, fun q hq e he hc => List.mem_append_left _ ?_⟩⟩
    · rcases hchild.mem_records he with ⟨-, hordinal, -⟩ | ⟨hne, hold⟩
      · rw [hordinal]
        exact List.mem_append_right _ (List.mem_singleton.2 rfl)
      · exact List.mem_append_left _ (hself e hold ((Pid.mem_insert.1 hc).resolve_left hne))
    · rw [hchild.children]
      exact nofun
    · rcases hchild.mem_records he with ⟨hpid, -⟩ | ⟨-, hold⟩
      · exact absurd (hpid ▸ hc) (hnew q hq)
      · exact hothers q hq e hold hc
  settled hon e he o ho := by
    have hbefore : k.machine.poweredOff = false := by
      rwa [Machine.poweredOff, ← hchild.power]
    rcases hchild.mem_records he with ⟨-, -, hnone⟩ | ⟨-, hold⟩
    · rw [hnone] at ho
      cases ho
    · obtain ⟨s, hs, hexited⟩ := h.settled hbefore e hold o ho
      exact ⟨s, hs, List.mem_append_left _ hexited⟩

private theorem HistoryMatches.reap (h : HistoryMatches history k (p :: rest)) {record : Record}
    (hc : c ∈ p.children)
    (hrecord : k.records.find? c = some record) (hnth : c = .nth record.ordinal)
    (honce : p.children.Nodup) (hothers : ∀ q ∈ rest, c ∉ q.children) :
    HistoryMatches (history ++ [.reaped p.ordinal record.ordinal])
      { k with records := k.records.erase c }
      ({ p with children := p.children.erase c } :: rest) := by
  have hcreated : .created p.ordinal record.ordinal ∈ history :=
    h.born p (List.mem_cons_self ..) (c, record) (Assoc.mem_of_find? hrecord) hc
  have hfewer : HistoryMatches history k ({ p with children := p.children.erase c } :: rest) :=
    h.replace rfl fun d hd => List.mem_of_mem_erase hd
  have hpast : HistoryMatches history { k with records := k.records.erase c }
      ({ p with children := p.children.erase c } :: rest) :=
    hfewer.congr rfl (fun hon => hon) fun e he => (List.mem_filter.1 he).1
  refine hpast.append ⟨hcreated, fun a hreaped => ?_⟩ ⟨hpast.lasting _ hcreated, ?_⟩
  · exact (h.lasting _ hreaped).2 p (List.mem_cons_self ..) (hnth ▸ hc)
  · rw [← hnth]
    exact List.forall_mem_cons.2 ⟨honce.not_mem_erase, hothers⟩

private theorem HistoryMatches.exits (h : HistoryMatches history k (p :: rest)) {status : Option Int32}
    (hlt : p.ordinal < k.nextOrdinal) (hothers : ∀ q ∈ rest, q.ordinal ≠ p.ordinal)
    {records : Assoc Pid Record} (hrecords : ∀ e ∈ records, e ∈ k.records)
    (hsettled : k'.records = records.mapValues (.settle p.ordinal (.ended status)))
    (hnext : k'.nextOrdinal = k.nextOrdinal)
    (hpower : k'.machine.poweredOff = false → k.machine.poweredOff = false) :
    HistoryMatches (history ++ [.exited p.ordinal status]) k' rest where
  orderly := h.orderly.append trivial
  lasting := by
    refine List.forall_mem_append.2
      ⟨fun y hy => (h.lasting y hy).settles hrecords hnext hsettled, ?_⟩
    rw [List.forall_mem_singleton, Happening.Lasts, hnext, hsettled]
    refine ⟨hlt, hothers, fun e he hself => ?_⟩
    rcases Turn.mem_settle he with ⟨-, hentered⟩ | ⟨hne, -⟩
    · exact hentered
    · exact absurd hself hne
  born q hq e he hc := by
    rw [hsettled] at he
    obtain ⟨old, hold, rfl⟩ := List.mem_map.1 he
    rw [Record.ordinal_settle]
    exact List.mem_append_left _
      (h.born q (List.mem_cons_of_mem _ hq) old (hrecords old hold) hc)
  settled hon e he o ho := by
    rw [hsettled] at he
    rcases Turn.mem_settle he with ⟨hself, hentered⟩ | ⟨-, hmem⟩
    · rw [hentered] at ho
      cases ho
      exact ⟨status, rfl, List.mem_append_right _ (List.mem_singleton.2 (hself ▸ rfl))⟩
    · obtain ⟨s, hs, hexited⟩ := h.settled (hpower hon) e (hrecords e hmem) o ho
      exact ⟨s, hs, List.mem_append_left _ hexited⟩

private theorem HistoryMatches.strands (h : HistoryMatches history k (p :: rest)) {outcome : Outcome}
    (hx : x.stranded?.isSome)
    (hsettled : k'.records = k.records.mapValues (.settle p.ordinal outcome))
    (hnext : k'.nextOrdinal = k.nextOrdinal) (hoff : k'.machine.poweredOff = true) :
    HistoryMatches (history ++ [x]) k' rest := by
  have hpast : HistoryMatches history k' rest := by
    refine ⟨h.orderly, ?_, fun q hq e he hc => ?_, fun hon => ?_⟩
    · exact fun y hy => (h.lasting y hy).settles (fun _ he => he) hnext hsettled
    · rw [hsettled] at he
      obtain ⟨old, hold, rfl⟩ := List.mem_map.1 he
      rw [Record.ordinal_settle]
      exact h.born q (List.mem_cons_of_mem _ hq) old hold hc
    · rw [hoff] at hon
      cases hon
  cases x with
  | halted | lost => exact hpast.append trivial trivial
  | created | reaped | unstarted | exited => cases hx

end Kernel

namespace Turn

open Kernel

variable {t t' : Turn} {others gone : List Process} {happened : List Happening} {stop : Stop Errno}

private theorem Works.historyMatches (hworks : Works t t')
    (h : HistoryMatches history t.kernel (t.self :: others)) :
    HistoryMatches history t'.kernel (t'.self :: others) := by
  refine (h.replace hworks.ordinal ?_).congr hworks.nextOrdinal ?_ ?_
  · rw [hworks.children]
    exact fun _ hc => hc
  · rw [Machine.poweredOff, hworks.power]
    exact fun hon => hon
  · rw [hworks.records]
    exact fun _ he => he

private theorem Does.historyMatches (hdoes : t.Does happened t') (hfew : t'.kernel.nextOrdinal ≤ 2 ^ 31)
    (hmatch : t.kernel.RecordsMatch (t.self :: (gone ++ others ++ t.kernel.ready)))
    (h : HistoryMatches history t.kernel (t.self :: (others ++ t.kernel.ready))) :
    HistoryMatches (history ++ happened) t'.kernel (t'.self :: (others ++ t'.kernel.ready)) := by
  cases hdoes with
  | works hworks =>
    rw [hworks.ready, List.append_nil]
    exact hworks.historyMatches h
  | @begets t₁ t' k child hworks hchild hafter =>
    rw [hafter.nextOrdinal] at hfew
    have hnew : ∀ q ∈ others ++ t.kernel.ready, child.pid ∉ q.children := by
      intro q hq hc
      have hmem : q ∈ t₁.self :: (gone ++ others ++ t.kernel.ready) := by
        rw [List.append_assoc]
        exact List.mem_cons_of_mem _ (List.mem_append_right _ hq)
      have hworked := hworks.recordsMatch hmatch
      apply (hworked.keys_takesUp hchild hfew).1
      exact hworked.mem_keys.2 (Or.inr (mem_offspring.2 ⟨q, hmem, hc⟩))
    rw [hworks.ready_begets hchild hafter, ← List.append_assoc, ← hworks.ordinal]
    exact (hafter.historyMatches ((hworks.historyMatches h).takesUp hchild hfew hnew)).perm
      ((List.perm_append_singleton ..).symm.cons _)
  | @unstarts t₁ t' hworks hafter =>
    rw [hworks.ready_passOver hafter]
    have hpassed :=
      (hworks.historyMatches h).append (x := .unstarted t₁.kernel.nextOrdinal) trivial trivial
    refine hafter.historyMatches (hpassed.mono (Nat.le_succ _) (fun hon => hon) (fun _ he => he) ?_)
    exact fun q hq => ⟨q, hq, rfl, fun _ hc => hc⟩
  | reaps hchild hrecord hworks =>
    rw [hworks.ready]
    obtain ⟨honce, hapart⟩ := hmatch.apart
    obtain ⟨hnth, -⟩ := hmatch.keyed _ (Assoc.mem_of_find? hrecord)
    refine hworks.historyMatches (h.reap hchild hrecord hnth honce fun q hq => hapart q ?_ _ hchild)
    rw [List.append_assoc]
    exact List.mem_append_right _ hq
  | misses hchild hrecord hworks =>
    rw [hworks.ready, List.append_nil]
    exact hworks.historyMatches (h.replace rfl fun _ hc => List.mem_of_mem_erase hc)

theorem Does.phase (hdoes : t.Does happened t') : t'.self.phase = t.self.phase := by
  cases hdoes with
  | works hworks => exact hworks.phase
  | begets hworks hchild hafter => exact hafter.phase.trans hworks.phase
  | unstarts hworks hafter => exact hafter.phase.trans hworks.phase
  | reaps hchild hrecord hworks => exact hworks.phase
  | misses hchild hrecord hworks => exact hworks.phase

/-- What is told of a process that does not go on is kept in mind. If it has not exited, the machine
is off from then on. -/
theorem Ceases.historyMatches (hceases : t.Ceases stop happened t') (hwaits : stop ≠ .waiting)
    {k : Kernel}
    (hburies : t'.Buries stop k) (hphase : t.self.phase = .running)
    (hfew : k.nextOrdinal ≤ 2 ^ 31)
    (hmatch : t.kernel.RecordsMatch (t.self :: (gone ++ others ++ t.kernel.ready)))
    (h : HistoryMatches history t.kernel (t.self :: (others ++ t.kernel.ready))) :
    HistoryMatches (history ++ happened) k (others ++ k.ready) := by
  have hrecords := hburies.records
  cases hceases with
  | @exits t' status hexits =>
    rw [hburies.ready, hexits.ready]
    rw [hexits.ordinal, show t'.outcome _ = .ended t'.self.status from rfl, hexits.status] at hrecords
    have hothers : ∀ q ∈ others ++ t.kernel.ready, q.ordinal ≠ t.self.ordinal := by
      intro q hq heq
      apply (List.nodup_cons.1 hmatch.unlike).1
      show t.self.ordinal ∈ _
      rw [← heq, List.append_assoc]
      exact List.mem_map_of_mem (List.mem_append_right _ hq)
    refine h.exits (hmatch.numbered _ (List.mem_cons_self ..)).2 hothers ?_ hrecords
      (hburies.nextOrdinal.trans hexits.nextOrdinal) ?_
    · rw [hexits.records]
      exact fun _ he => Assoc.mem_of_mem_foldl_erase he
    · intro hon
      rw [hexits.power_buries hburies, hexits.power, Bool.or_eq_false_iff] at hon
      exact hon.1
  | halts hhalts =>
    rw [hburies.ready, hhalts.ready]
    rw [hhalts.ordinal, hhalts.records] at hrecords
    refine h.strands rfl hrecords (hburies.nextOrdinal.trans hhalts.nextOrdinal) ?_
    rw [hhalts.power_buries hburies, hhalts.power]
  | cut hoff =>
    rw [hburies.ready]
    refine h.strands rfl hrecords hburies.nextOrdinal ?_
    rw [hburies.power, hoff, Bool.true_or]
  | waits => exact absurd rfl hwaits
  | dies f hdoes =>
    rw [hburies.ready, ← List.append_assoc]
    rw [hburies.nextOrdinal] at hfew
    refine (hdoes.historyMatches hfew hmatch h).strands rfl hrecords hburies.nextOrdinal ?_
    rw [hburies.power, hdoes.phase, hphase]
    exact Bool.or_true _

end Turn

namespace World

variable {allowed : Move → Prop} {w w' : World} {before after : List Process} {p : Process}
variable {m : Move}

private theorem MoveOutcome.phases (hrunning : w.running = before ++ p :: after)
    (h : ∀ q ∈ w.running, q.phase = .running) (houtcome : w.MoveOutcome before p after m happened w') :
    ∀ q ∈ w'.running, q.phase = .running := by
  have hrest : p.phase = .running ∧ ∀ q ∈ before ++ after, q.phase = .running := by
    rw [hrunning] at h
    exact List.forall_mem_cons.1 fun q hq => h q (List.perm_middle.mem_iff.2 hq)
  obtain ⟨hself, hothers⟩ := hrest
  cases houtcome with
  | goesOn hspares hdoes =>
    intro q hq
    rcases List.mem_cons.1 (List.perm_middle.mem_iff.1 hq) with rfl | hother
    · exact hdoes.phase.trans hself
    · exact hothers q hother
  | waits => exact h
  | ends => exact hothers

theorem Chronicle.phases (h : Chronicle allowed history w) :
    ∀ p ∈ w.running, p.phase = .running := by
  induction h with
  | begins hspawn => exact nofun
  | started h hready ih => exact List.forall_mem_cons.2 ⟨rfl, ih⟩
  | acted h hallowed hacts ih =>
    exact (hacts.moveOutcome h.reachable.sound).phases hacts.running_eq ih
  | changed h devices ih => exact ih

private theorem MoveOutcome.historyMatches (hrunning : w.running = before ++ p :: after)
    (hphase : p.phase = .running)
    (hmatch : w.kernel.RecordsMatch (w.unexited history))
    (h : w.kernel.HistoryMatches history w.processes)
    (houtcome : w.MoveOutcome before p after m happened w') (hfew : w'.kernel.nextOrdinal ≤ 2 ^ 31) :
    w'.kernel.HistoryMatches (history ++ happened) w'.processes := by
  have hfamily := hmatch.perm (unexited_perm hrunning history)
  have hmatches := h.perm (processes_perm hrunning)
  cases houtcome with
  | @goesOn _ t hspares hdoes =>
    exact (hdoes.historyMatches hfew hfamily hmatches).perm
      (processes_perm (w := ⟨t.kernel, before ++ t.self :: after⟩) rfl).symm
  | waits =>
    rw [List.append_nil]
    exact h
  | ends hspares hstop hceases =>
    exact hceases.historyMatches hstop (hspares.sound.buries _) hphase hfew hfamily hmatches

private theorem historyMatches_root {config : Config} {devices : Devices} {name : String}
    {args : List String}
    {pid : Pid} {k : Kernel} (hspawn : Kernel.spawn name args (.boot config devices) = .ok pid k) :
    k.HistoryMatches [] (processes ⟨k, []⟩) := by
  obtain ⟨-, -, root, hroot⟩ :=
    (Kernel.ensures_spawn (Kernel.Sound.boot config devices) name args).of_ok hspawn
  have hprocesses : processes ⟨k, []⟩ = [root] := hroot.ready
  obtain ⟨thread, hrecords⟩ := hroot.records
  rw [hprocesses]
  refine ⟨Orderly.nil, nofun, ?_, ?_⟩
  · rw [List.forall_mem_singleton, hroot.children]
    exact nofun
  · intro _ e he o ho
    rw [hrecords] at he
    cases List.mem_singleton.1 he
    cases ho

private theorem historyMatches_started {ordinal : Nat} {k : Kernel}
    (hb : w.kernel.ConsistentWith w.processes)
    (h : w.kernel.HistoryMatches history w.processes)
    (hready : w.kernel.takeReady? ordinal = some (p, k)) :
    k.HistoryMatches history (processes ⟨k, { p with phase := .running } :: w.running⟩) := by
  obtain ⟨-, hperm, hk⟩ := processes_started hb.distinct hready
  have hmoved : w.kernel.HistoryMatches history
    ({ p with phase := .running } :: (w.running ++ k.ready)) :=
    (h.perm hperm).replace rfl fun _ hc => hc
  rw [hk]
  exact hmoved.congr rfl (fun hon => hon) fun _ he => he

theorem Chronicle.historyMatches (h : Chronicle allowed history w)
    (hfew : w.kernel.nextOrdinal ≤ 2 ^ 31) :
    w.kernel.HistoryMatches history w.processes := by
  induction h with
  | begins hspawn => exact historyMatches_root hspawn
  | @started history w ordinal p k h hready ih =>
    obtain ⟨-, -, hk⟩ := processes_started h.reachable.consistentWith.distinct hready
    have hsame : k.nextOrdinal = w.kernel.nextOrdinal := by rw [hk]
    exact historyMatches_started h.reachable.consistentWith (ih (hsame ▸ hfew)) hready
  | acted h hallowed hacts ih =>
    have houtcome := hacts.moveOutcome h.reachable.sound
    have hbefore := Nat.le_trans houtcome.addsReadyLast.nextOrdinal hfew
    exact houtcome.historyMatches hacts.running_eq (h.phases _ hacts.mem_running)
      (h.recordsMatch hbefore)
      (ih hbefore) hfew
  | changed h devices ih => exact (ih hfew).congr rfl (fun hon => hon) fun _ he => he

end World

end PagedKernel

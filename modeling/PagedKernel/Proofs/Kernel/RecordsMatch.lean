import PagedKernel.Proofs.Kernel.World

/-!
# Parents and children

The kernel has one record for each child that its parent can still wait for, and one for the root. So
a process that waits for a child finds the record of the child, and one that exits takes with it the
records of its own children and of no one else's.
-/

namespace PagedKernel

def Happening.stranded? : Happening → Option Process
  | halted p | lost p => some p
  | created .. | reaped .. | unstarted _ | exited .. => none

/-- The processes that are left behind without having exited: the root that switched the machine off,
and those whose threads are gone. -/
def stranded (history : List Happening) : List Process := history.filterMap Happening.stranded?

def offspring (family : List Process) : List Pid := family.flatMap (·.children)

@[simp] theorem offspring_cons (p : Process) (rest : List Process) :
    offspring (p :: rest) = p.children ++ offspring rest := List.flatMap_cons

theorem mem_offspring {family : List Process} {child : Pid} :
    child ∈ offspring family ↔ ∃ p ∈ family, child ∈ p.children := List.mem_flatMap

namespace Kernel

/-- The records are those of the root and of the children of the processes that have not exited, the
`family`. -/
structure RecordsMatch (k : Kernel) (family : List Process) : Prop where
  recorded : k.records.keys.Perm (.root :: offspring family)
  once : k.records.keys.Nodup
  keyed : ∀ e ∈ k.records, e.1 = .nth e.2.ordinal ∧ e.2.ordinal < k.nextOrdinal
  unlike : (family.map (·.ordinal)).Nodup
  numbered : ∀ p ∈ family, p.pid = .nth p.ordinal ∧ p.ordinal < k.nextOrdinal
  younger : ∀ p ∈ family, ∀ e ∈ k.records, e.1 ∈ p.children → p.ordinal < e.2.ordinal

variable {k k' : Kernel} {family family' rest : List Process} {p p' child : Process} {c : Pid}

private theorem RecordsMatch.distinct (h : k.RecordsMatch family) :
    (Pid.root :: offspring family).Nodup :=
  h.recorded.nodup_iff.1 h.once

theorem RecordsMatch.apart (h : k.RecordsMatch (p :: rest)) :
    p.children.Nodup ∧ ∀ q ∈ rest, ∀ c ∈ p.children, c ∉ q.children := by
  obtain ⟨-, hdistinct⟩ := List.nodup_cons.1 h.distinct
  rw [offspring_cons] at hdistinct
  obtain ⟨honce, -, hapart⟩ := List.nodup_append.1 hdistinct
  exact ⟨honce, fun q hq c hc hother => hapart c hc c (mem_offspring.2 ⟨q, hq, hother⟩) rfl⟩

theorem RecordsMatch.mem_keys (h : k.RecordsMatch family) :
    c ∈ k.records.keys ↔ c = .root ∨ c ∈ offspring family := by
  rw [h.recorded.mem_iff, List.mem_cons]

theorem RecordsMatch.find?_isSome (h : k.RecordsMatch family) (hp : p ∈ family) (hc : c ∈ p.children) :
    (k.records.find? c).isSome := by
  rw [Assoc.find?_isSome_iff, h.mem_keys]
  exact Or.inr (mem_offspring.2 ⟨p, hp, hc⟩)

theorem RecordsMatch.exists_record (h : k.RecordsMatch family) (hp : p ∈ family) (hc : c ∈ p.children) :
    ∃ record, k.records.find? c = some record ∧ c = .nth record.ordinal ∧
      p.ordinal < record.ordinal ∧ record.ordinal < k.nextOrdinal := by
  obtain ⟨record, hrecord⟩ := Option.isSome_iff_exists.1 (h.find?_isSome hp hc)
  have hmem := Assoc.mem_of_find? hrecord
  obtain ⟨hnth, hlt⟩ := h.keyed _ hmem
  exact ⟨record, hrecord, hnth, h.younger p hp _ hmem hc, hlt⟩

/-- The next number was not given before, and is greater than all that were. -/
theorem RecordsMatch.key_lt (h : k.RecordsMatch family) (hfew : k.nextOrdinal < 2 ^ 31)
    (hc : c ∈ k.records.keys) :
    c.number < k.nextPid.number := by
  obtain ⟨e, he, rfl⟩ := List.mem_map.1 hc
  obtain ⟨hnth, hlt⟩ := h.keyed e he
  rw [hnth]
  exact Pid.nth_lt_nth hlt hfew

theorem RecordsMatch.perm (h : k.RecordsMatch family) (hp : family.Perm family') :
    k.RecordsMatch family' where
  recorded := h.recorded.trans ((hp.flatMap_right _).cons _)
  once := h.once
  keyed := h.keyed
  unlike := (hp.map _).nodup_iff.1 h.unlike
  numbered q hq := h.numbered q (hp.mem_iff.2 hq)
  younger q hq := h.younger q (hp.mem_iff.2 hq)

theorem RecordsMatch.congr (h : k.RecordsMatch family) (hrecords : k'.records = k.records)
    (hnext : k.nextOrdinal ≤ k'.nextOrdinal) : k'.RecordsMatch family where
  recorded := hrecords ▸ h.recorded
  once := hrecords ▸ h.once
  keyed e he := (h.keyed e (hrecords ▸ he)).imp_right fun hlt => Nat.lt_of_lt_of_le hlt hnext
  unlike := h.unlike
  numbered p hp := (h.numbered p hp).imp_right fun hlt => Nat.lt_of_lt_of_le hlt hnext
  younger p hp e he := h.younger p hp e (hrecords ▸ he)

private theorem RecordsMatch.settles (h : k.RecordsMatch family) {ordinal : Nat} {outcome : Outcome}
    (hrecords : k'.records = k.records.mapValues (.settle ordinal outcome))
    (hnext : k'.nextOrdinal = k.nextOrdinal) : k'.RecordsMatch family where
  recorded := by
    rw [hrecords, Assoc.keys_mapValues]
    exact h.recorded
  once := by
    rw [hrecords, Assoc.keys_mapValues]
    exact h.once
  keyed e he := by
    rw [hrecords] at he
    obtain ⟨old, hold, rfl⟩ := List.mem_map.1 he
    rw [Record.ordinal_settle, hnext]
    exact h.keyed old hold
  unlike := h.unlike
  numbered := hnext ▸ h.numbered
  younger p hp e he hc := by
    rw [hrecords] at he
    obtain ⟨old, hold, rfl⟩ := List.mem_map.1 he
    rw [Record.ordinal_settle]
    exact h.younger p hp old hold hc

theorem RecordsMatch.replace (h : k.RecordsMatch (p :: rest)) (hpid : p'.pid = p.pid)
    (hself : p'.ordinal = p.ordinal) (hchildren : p'.children = p.children) :
    k.RecordsMatch (p' :: rest) where
  recorded := by
    rw [offspring_cons, hchildren, ← offspring_cons]
    exact h.recorded
  once := h.once
  keyed := h.keyed
  unlike := by
    rw [List.map_cons, hself]
    exact h.unlike
  numbered := by
    obtain ⟨hp, hrest⟩ := List.forall_mem_cons.1 h.numbered
    rw [← hpid, ← hself] at hp
    exact List.forall_mem_cons.2 ⟨hp, hrest⟩
  younger := by
    obtain ⟨hp, hrest⟩ := List.forall_mem_cons.1 h.younger
    rw [← hself, ← hchildren] at hp
    exact List.forall_mem_cons.2 ⟨hp, hrest⟩

theorem RecordsMatch.keys_takesUp (h : k.RecordsMatch family) (hchild : TakesUp k k' child)
    (hfew : k'.nextOrdinal ≤ 2 ^ 31) :
    child.pid ∉ k.records.keys ∧ k'.records.keys = k.records.keys ++ [child.pid] := by
  have hnew : child.pid ∉ k.records.keys := by
    rw [hchild.pid]
    rw [hchild.nextOrdinal] at hfew
    exact fun hmem => Int32.lt_irrefl (h.key_lt hfew hmem)
  have hkept : k.records.keys.filter (· ≠ child.pid) = k.records.keys := by
    apply List.filter_eq_self.2
    intro c hc
    have hne : c ≠ child.pid := fun heq => hnew (heq ▸ hc)
    simpa using hne
  obtain ⟨name, hrecords⟩ := hchild.records
  refine ⟨hnew, ?_⟩
  rw [hrecords, ← hchild.pid, Assoc.keys_insert, hkept]

private theorem RecordsMatch.insert_takesUp (h : k.RecordsMatch family) (hp : p ∈ family)
    (hchild : TakesUp k k' child)
    (hfew : k'.nextOrdinal ≤ 2 ^ 31) : child.pid.insert p.children = p.children ++ [child.pid] := by
  apply Pid.insert_eq_append
  intro c hc
  rw [hchild.pid]
  rw [hchild.nextOrdinal] at hfew
  exact h.key_lt hfew (h.mem_keys.2 (Or.inr (mem_offspring.2 ⟨p, hp, hc⟩)))

private theorem RecordsMatch.takesUp (h : k.RecordsMatch (p :: rest)) (hchild : TakesUp k k' child)
    (hfew : k'.nextOrdinal ≤ 2 ^ 31) :
    k'.RecordsMatch ({ p with children := child.pid.insert p.children } :: child :: rest) where
  recorded := by
    rw [h.insert_takesUp (List.mem_cons_self ..) hchild hfew, (h.keys_takesUp hchild hfew).2]
    refine (h.recorded.append_right _).trans ?_
    simp only [offspring_cons, hchild.children, List.nil_append, List.cons_append,
      List.append_assoc]
    exact (List.perm_append_comm.append_left _).cons _
  once := by
    obtain ⟨hnew, hkeys⟩ := h.keys_takesUp hchild hfew
    rw [hkeys, (List.perm_append_singleton ..).nodup_iff]
    exact List.nodup_cons.2 ⟨hnew, h.once⟩
  keyed e he := by
    rcases hchild.mem_records he with ⟨hpid, hself, -⟩ | ⟨-, hold⟩
    · rw [hself, hpid]
      exact ⟨hchild.named, hchild.ordinal_lt⟩
    · exact (h.keyed e hold).imp_right hchild.lt
  unlike := by
    have hnew : child.ordinal ∉ (p :: rest).map (·.ordinal) := by
      intro hmem
      obtain ⟨q, hq, heq⟩ := List.mem_map.1 hmem
      have hlt := (h.numbered q hq).2
      rw [heq, hchild.ordinal] at hlt
      exact Nat.lt_irrefl _ hlt
    exact (List.Perm.swap ..).nodup_iff.1 (List.nodup_cons.2 ⟨hnew, h.unlike⟩)
  numbered := by
    obtain ⟨hself, hothers⟩ := List.forall_mem_cons.1 h.numbered
    refine List.forall_mem_cons.2 ⟨hself.imp_right hchild.lt,
      List.forall_mem_cons.2 ⟨⟨hchild.named, hchild.ordinal_lt⟩, fun q hq => ?_⟩⟩
    exact (hothers q hq).imp_right hchild.lt
  younger := by
    obtain ⟨hself, hothers⟩ := List.forall_mem_cons.1 h.younger
    refine List.forall_mem_cons.2
      ⟨fun e he hc => ?_, List.forall_mem_cons.2 ⟨?_, fun q hq e he hc => ?_⟩⟩
    · rcases hchild.mem_records he with ⟨-, hnew, -⟩ | ⟨hne, hold⟩
      · rw [hnew, hchild.ordinal]
        exact (h.numbered p (List.mem_cons_self ..)).2
      · exact hself e hold ((Pid.mem_insert.1 hc).resolve_left hne)
    · rw [hchild.children]
      exact nofun
    · rcases hchild.mem_records he with ⟨-, hnew, -⟩ | ⟨-, hold⟩
      · rw [hnew, hchild.ordinal]
        exact (h.numbered q (List.mem_cons_of_mem _ hq)).2
      · exact hothers q hq e hold hc

private theorem RecordsMatch.reap (h : k.RecordsMatch (p :: rest)) (hc : c ∈ p.children) :
    RecordsMatch { k with records := k.records.erase c }
      ({ p with children := p.children.erase c } :: rest) := by
  have hkeys : (k.records.erase c).keys = k.records.keys.erase c := by
    rw [Assoc.keys_erase, h.once.erase_eq_filter]
    congr 1
    funext d
    simp [bne, BEq.beq]
  have hroot : Pid.root ≠ c := by
    rintro rfl
    exact (List.nodup_cons.1 h.distinct).1 (mem_offspring.2 ⟨p, List.mem_cons_self .., hc⟩)
  have hrecords : ∀ e ∈ k.records.erase c, e ∈ k.records := fun e he => (List.mem_filter.1 he).1
  obtain ⟨hself, hothers⟩ := List.forall_mem_cons.1 h.younger
  refine ⟨?_, ?_, fun e he => h.keyed e (hrecords e he), h.unlike, ?_, ?_⟩
  · show (k.records.erase c).keys.Perm _
    rw [hkeys]
    have herased := h.recorded.erase c
    rwa [List.erase_cons_tail (by simpa using hroot), offspring_cons,
      List.erase_append_left _ hc, ← offspring_cons
        { p with children := p.children.erase c }] at herased
  · show (k.records.erase c).keys.Nodup
    rw [hkeys]
    exact h.once.erase c
  · exact List.forall_mem_cons.2 (List.forall_mem_cons.1 h.numbered)
  · refine List.forall_mem_cons.2 ⟨fun e he hd => ?_, fun q hq e he => hothers q hq e (hrecords e he)⟩
    exact hself e (hrecords e he) (List.mem_of_mem_erase hd)

/-- The records of a process's children are gone with the process, and no other ones. -/
theorem RecordsMatch.disown (h : k.RecordsMatch (p :: rest))
    (hrecords : k'.records = p.children.foldl Assoc.erase k.records)
    (hnext : k'.nextOrdinal = k.nextOrdinal) : k'.RecordsMatch rest := by
  have hkeys := congrArg Assoc.keys hrecords
  rw [Assoc.keys_foldl_erase] at hkeys
  have hfewer : ∀ e ∈ k'.records, e ∈ k.records := fun e he =>
    Assoc.mem_of_mem_foldl_erase (hrecords ▸ he)
  have hsplit : k.records.keys.Perm (p.children ++ (Pid.root :: offspring rest)) := by
    have hrecorded := h.recorded
    rw [offspring_cons] at hrecorded
    exact hrecorded.trans List.perm_middle.symm
  obtain ⟨-, -, hapart⟩ := List.nodup_append.1 (hsplit.nodup_iff.1 h.once)
  have hstay : ∀ c ∈ Pid.root :: offspring rest, decide (c ∉ p.children) = true := by
    intro c hc
    have hother : c ∉ p.children := fun hmem => hapart c hmem c hc rfl
    simpa using hother
  refine ⟨?_, ?_, ?_, (List.nodup_cons.1 h.unlike).2, ?_, ?_⟩
  · rw [hkeys]
    refine (hsplit.filter _).trans (.of_eq ?_)
    rw [List.filter_append, List.filter_eq_self.2 hstay, List.filter_eq_nil_iff.2 (by simp),
      List.nil_append]
  · rw [hkeys]
    exact h.once.filter _
  · rw [hnext]
    exact fun e he => h.keyed e (hfewer e he)
  · rw [hnext]
    exact (List.forall_mem_cons.1 h.numbered).2
  · exact fun q hq e he => h.younger q (List.mem_cons_of_mem _ hq) e (hfewer e he)

end Kernel

namespace Turn

variable {t t' : Turn} {others : List Process} {happened : List Happening} {stop : Stop Errno}

theorem Works.recordsMatch (hworks : Works t t') (h : t.kernel.RecordsMatch (t.self :: others)) :
    t'.kernel.RecordsMatch (t'.self :: others) :=
  (h.replace hworks.pid hworks.ordinal hworks.children).congr hworks.records
    (Nat.le_of_eq hworks.nextOrdinal.symm)

theorem Does.recordsMatch (hdoes : t.Does happened t') (hfew : t'.kernel.nextOrdinal ≤ 2 ^ 31)
    (h : t.kernel.RecordsMatch (t.self :: (others ++ t.kernel.ready))) :
    t'.kernel.RecordsMatch (t'.self :: (others ++ t'.kernel.ready)) := by
  cases hdoes with
  | works hworks =>
    rw [hworks.ready]
    exact hworks.recordsMatch h
  | @begets t₁ t' k child hworks hchild hafter =>
    rw [hworks.ready_begets hchild hafter, ← List.append_assoc]
    rw [hafter.nextOrdinal] at hfew
    exact (hafter.recordsMatch ((hworks.recordsMatch h).takesUp hchild hfew)).perm
      ((List.perm_append_singleton ..).symm.cons _)
  | unstarts hworks hafter =>
    rw [hworks.ready_passOver hafter]
    exact hafter.recordsMatch ((hworks.recordsMatch h).congr rfl (Nat.le_succ _))
  | reaps hchild hrecord hworks =>
    rw [hworks.ready]
    exact hworks.recordsMatch (h.reap hchild)
  | misses hchild hrecord hworks =>
    have hfound := h.find?_isSome (List.mem_cons_self ..) hchild
    rw [hrecord] at hfound
    cases hfound

theorem Does.stranded_eq (hdoes : t.Does happened t') : stranded happened = [] := by
  cases hdoes <;> rfl

/-- A process that exits takes the records of its children along. One that does not exit and does not
go on leaves all as it was. -/
theorem Ceases.recordsMatch (hceases : t.Ceases stop happened t') (hwaits : stop ≠ .waiting)
    {k : Kernel}
    (hburies : t'.Buries stop k) (hfew : k.nextOrdinal ≤ 2 ^ 31)
    (h : t.kernel.RecordsMatch (t.self :: (others ++ t.kernel.ready))) :
    k.RecordsMatch (stranded happened ++ (others ++ k.ready)) := by
  cases hceases with
  | exits hexits =>
    rw [hburies.ready, hexits.ready]
    exact (h.disown hexits.records hexits.nextOrdinal).settles hburies.records hburies.nextOrdinal
  | halts hhalts =>
    rw [hburies.ready, hhalts.ready]
    exact (h.congr hhalts.records (Nat.le_of_eq hhalts.nextOrdinal.symm)).settles hburies.records
      hburies.nextOrdinal
  | cut hoff =>
    rw [hburies.ready]
    exact h.settles hburies.records hburies.nextOrdinal
  | waits => exact absurd rfl hwaits
  | dies f hdoes =>
    rw [hburies.ready, stranded, List.filterMap_append, ← stranded, hdoes.stranded_eq]
    rw [hburies.nextOrdinal] at hfew
    exact (hdoes.recordsMatch hfew h).settles hburies.records hburies.nextOrdinal

end Turn

end PagedKernel

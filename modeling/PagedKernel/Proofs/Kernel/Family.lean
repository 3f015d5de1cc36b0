import PagedKernel.Proofs.Kernel.Chronicle

/-!
# The family of processes

The kernel has a record for the root and one for each child that has not been joined by a parent that
has not exited. A join finds the record of a child, and an exit takes with it what its own children
have left.
-/

namespace PagedKernel

namespace Kernel

variable {k : Kernel} {family : List Process} {p q : Process} {c : Pid}

private theorem RecordsMatch.parent_unique (h : k.RecordsMatch family) (hp : p ∈ family)
    (hq : q ∈ family)
    (hpc : c ∈ p.children) (hqc : c ∈ q.children) : p = q := by
  obtain ⟨first, last, rfl⟩ := List.append_of_mem hp
  have hmoved := h.perm List.perm_middle
  rcases List.mem_cons.1 (List.perm_middle.mem_iff.1 hq) with rfl | hother
  · rfl
  · exact absurd hqc (hmoved.apart.2 q hother c hpc)

/-- While no number was given twice, a process is known by its number, and a child has a greater one. -/
theorem RecordsMatch.named (h : k.RecordsMatch family) (hfew : k.nextOrdinal ≤ 2 ^ 31) :
    (family.map (·.pid)).Nodup := by
  have hpids : family.map (·.pid) = (family.map (·.ordinal)).map .nth := by
    rw [List.map_map]
    exact List.map_congr_left fun p hp => (h.numbered p hp).1
  have hlt : ∀ n ∈ family.map (·.ordinal), n < 2 ^ 31 := by
    intro n hn
    obtain ⟨p, hp, rfl⟩ := List.mem_map.1 hn
    exact Nat.lt_of_lt_of_le (h.numbered p hp).2 hfew
  rw [hpids]
  exact h.unlike.map_on fun m hm n hn => (Pid.nth_inj (hlt m hm) (hlt n hn)).1

private theorem RecordsMatch.pid_lt (h : k.RecordsMatch family) (hfew : k.nextOrdinal ≤ 2 ^ 31)
    (hp : p ∈ family)
    (hc : c ∈ p.children) : p.pid.number < c.number := by
  obtain ⟨record, -, hnth, hyounger, hlt⟩ := h.exists_record hp hc
  rw [(h.numbered p hp).1, hnth]
  exact Pid.nth_lt_nth hyounger (Nat.lt_of_lt_of_le hlt hfew)

/-- Of the records that there are, those of a process's children are one for each. -/
theorem RecordsMatch.records_of_children (h : k.RecordsMatch family) (hp : p ∈ family) :
    (Assoc.keys (k.records.filter fun e => decide (e.1 ∈ p.children))).Perm p.children := by
  have honce : p.children.Nodup := by
    obtain ⟨first, last, rfl⟩ := List.append_of_mem hp
    exact (h.perm List.perm_middle).apart.1
  rw [Assoc.keys_filter _ fun c => decide (c ∈ p.children),
    List.perm_ext_iff_of_nodup (h.once.filter _) honce]
  intro c
  rw [List.mem_filter, h.mem_keys, decide_eq_true_eq, and_iff_right_iff_imp]
  exact fun hc => Or.inr (mem_offspring.2 ⟨p, hp, hc⟩)

end Kernel

namespace World

open Turn

variable {allowed : Move → Prop} {history : List Happening} {w : World}
variable {before after : List Process} {p : Process}

private theorem Chronicle.not_child_of_refused (h : Chronicle allowed history w)
    (hfew : w.kernel.nextOrdinal ≤ 2 ^ 31) (hrunning : w.running = before ++ p :: after)
    {q : CallRequest} {t : Turn}
    (hjoin : join q ⟨w.kernel, p⟩ = .error (.refused .noChild) t) :
    ⟨q.arg1⟩ ∉ p.children := by
  intro hchild
  have hs := sound_turn h.reachable.sound hrunning
  have hfound := ((h.recordsMatch hfew).perm (unexited_perm hrunning history)).find?_isSome
    (List.mem_cons_self ..) hchild
  rw [join_eq] at hjoin
  cases hpointer : p.table.pointer? q.arg2 with
  | none => simp [hpointer] at hjoin
  | some va =>
    obtain ⟨record, hrecord⟩ := Option.isSome_iff_exists.1 hfound
    simp only [hpointer, if_pos hchild, hrecord] at hjoin
    have hreap : Keeps untouched ⟨w.kernel, p⟩ (reap ⟨w.kernel, p⟩ ⟨q.arg1⟩) :=
      keeps_reap _ _
    obtain ⟨-, hstop⟩ := (ensures_learn (hreap.sound hs) (UserMemory.toNat_pointer hpointer)
      record.outcome).of_error hjoin
    rcases hstop with hbad | ⟨-, hwaits⟩ | ⟨f, -, hfault⟩
    · cases hbad
    · cases hwaits
    · cases hfault

/-- A process that exits takes out the records of its children, and leaves all the others. -/
theorem Chronicle.records_of_exit (h : Chronicle allowed history w)
    (hrunning : w.running = before ++ p :: after) (status : Option Int32) :
    ∃ t, (exit status : Call Unit) ⟨w.kernel, p⟩ = .error (.ended (status.getD (-1))) t ∧
      t.kernel.records = w.kernel.records.filter (fun e => decide (e.1 ∉ p.children)) := by
  have hexit := ensures_exit (α := Unit) (sound_turn h.reachable.sound hrunning) status
  rcases hrun : (exit status : Call Unit) ⟨w.kernel, p⟩ with ⟨_, t⟩ | ⟨stop, t⟩
  · exact (hexit.of_ok hrun).elim
  · obtain ⟨-, rfl, hexits⟩ := hexit.of_error hrun
    refine ⟨t, rfl, ?_⟩
    rw [hexits.records, Assoc.foldl_erase]
    simp

/-- As long as the numbers have not gone past the largest, there is one record for the root, and one for
each child that a process that has not exited has not joined; each such child has one parent, with a
smaller number. So a process finds the record of
any child that it joins. When it exits the records of its children go, one for each, and all others
stay. -/
theorem Chronicle.one_record_each (h : Chronicle allowed history w)
    (hfew : w.kernel.nextOrdinal ≤ 2 ^ 31) :
    (w.kernel.records.keys.Nodup ∧
      ∀ c, c ∈ w.kernel.records.keys ↔ c = .root ∨ ∃ p ∈ w.unexited history, c ∈ p.children) ∧
    ((w.unexited history).map (·.pid)).Nodup ∧
    (∀ p ∈ w.unexited history, p.children.Nodup ∧ p.pid ∉ p.children ∧ ∀ c ∈ p.children,
      p.pid.number < c.number ∧ ∀ q ∈ w.unexited history, c ∈ q.children → q = p) ∧
    ∀ p ∈ w.running,
      (∀ q t, join q ⟨w.kernel, p⟩ = .error (.refused .noChild) t →
        ⟨q.arg1⟩ ∉ p.children) ∧
      (Assoc.keys (w.kernel.records.filter fun e => decide (e.1 ∈ p.children))).Perm p.children ∧
      ∀ status : Option Int32, ∃ t,
        (exit status : Call Unit) ⟨w.kernel, p⟩ = .error (.ended (status.getD (-1))) t ∧
        t.kernel.records = w.kernel.records.filter fun e => decide (e.1 ∉ p.children) := by
  have hmatch := h.recordsMatch hfew
  refine ⟨⟨hmatch.once, fun c => ?_⟩, hmatch.named hfew, fun p hp => ⟨?_, ?_, fun c hc => ⟨?_, ?_⟩⟩, ?_⟩
  · rw [hmatch.mem_keys, mem_offspring]
  · obtain ⟨first, last, hsplit⟩ := List.append_of_mem hp
    rw [hsplit] at hmatch
    exact (hmatch.perm List.perm_middle).apart.1
  · exact fun hself => Int32.lt_irrefl (hmatch.pid_lt hfew hp hself)
  · exact hmatch.pid_lt hfew hp hc
  · exact fun q hq hqc => hmatch.parent_unique hq hp hqc hc
  · intro p hp
    obtain ⟨before, after, hrunning⟩ := List.append_of_mem hp
    refine ⟨fun q t hjoin => h.not_child_of_refused hfew hrunning hjoin, ?_, h.records_of_exit hrunning⟩
    exact hmatch.records_of_children
      (List.mem_append_right _ (List.mem_append_left _ hp))

theorem one_record_each_sample : ∃ p, Chronicle Move.Tame sampleFamily.1 sampleFamily.2 ∧
    sampleFamily.2.kernel.nextOrdinal ≤ 2 ^ 31 ∧
    sampleFamily.2.running = [p] ∧ p.children = [⟨2⟩] ∧
    ⟨2⟩ ∈ sampleFamily.2.kernel.records.keys ∧
    (∀ q t, join q ⟨sampleFamily.2.kernel, p⟩ = .error (.refused .noChild) t →
      q.arg1 ≠ 2) ∧
    ∃ t, (exit (some 0) : Call Unit) ⟨sampleFamily.2.kernel, p⟩ = .error (.ended 0) t ∧
      ⟨2⟩ ∉ t.kernel.records.keys := by
  obtain ⟨p, hrunning, hchildren⟩ := exists_sampleFamily
  have hfew : sampleFamily.2.kernel.nextOrdinal ≤ 2 ^ 31 := by decide +kernel
  obtain ⟨⟨-, hkeys⟩, -, -, hcalls⟩ := chronicle_sampleFamily.one_record_each hfew
  have hp : p ∈ sampleFamily.2.running := hrunning ▸ List.mem_singleton_self p
  have hchild : (⟨2⟩ : Pid) ∈ p.children := hchildren ▸ List.mem_singleton_self _
  obtain ⟨hjoin, -, hexit⟩ := hcalls p hp
  obtain ⟨t, hended, hrecords⟩ := hexit (some 0)
  refine ⟨p, chronicle_sampleFamily, hfew, hrunning, hchildren, ?_, ?_, t, hended, ?_⟩
  · exact (hkeys _).2 (.inr ⟨p, List.mem_append_right _ (List.mem_append_left _ hp), hchild⟩)
  · intro q t hrefused hself
    exact hjoin q t hrefused (hself ▸ hchild)
  · rw [hrecords, Assoc.keys_filter _ fun c => decide (c ∉ p.children), List.mem_filter]
    simp [hchild]

end World

end PagedKernel

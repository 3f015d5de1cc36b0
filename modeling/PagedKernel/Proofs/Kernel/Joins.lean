import PagedKernel.Proofs.Kernel.HistoryMatches

/-!
# Joins

A process joins a child of its own once, and is told how it ended. The pointer for the status is
looked at first, and a bad one leaves all as it was; what stands at the pointer is looked at last,
when the child has been taken leave of.
-/

namespace PagedKernel

namespace Turn

open UserMemory

variable {t t' : Turn} {others : List Process} {a : Nat} {data : Bytes}

/-- The process has `data` at an address, and otherwise all is as it was. -/
structure Stored (t t' : Turn) (a : Nat) (data : Bytes) : Prop where
  memoryOnly : ∃ m, t' = t.withMemory m
  mapping : t'.self.table.mapping = t.self.table.mapping
  byte : ∀ b, t'.memory.byte? b =
    if a ≤ b ∧ b < a + data.length then data[b - a]? else t.memory.byte? b
  foreign : ∀ f ∉ t.self.table.mapped,
    t'.kernel.machine.memory.frame? f = t.kernel.machine.memory.frame? f

private theorem learn_status_eq (va : VirtualAddress) (status : Int32) (t : Turn) :
    learn va (some (.ended (some status))) t =
      match putWord va.toNat status.toUInt32 t.memory with
      | .ok _ m => .ok 1 (t.withMemory m)
      | .error stop m => .error stop (t.withMemory m) := by
  change EStateM.bind (onMemory _) _ t = _
  rw [EStateM.bind, onMemory_eq]
  cases putWord va.toNat status.toUInt32 t.memory <;> rfl

private theorem learn_status (hs : t.Sound others) {address : Int32} {va : VirtualAddress}
    (hva : (va.toNat : Int) = address.toInt) (status : Int32) :
    ((∀ i < 4, t.self.table.permits .write (va.toNat + i) = true) →
      ∃ t', learn va (some (.ended (some status))) t = .ok 1 t' ∧
        Stored t t' va.toNat (wordBytes status.toUInt32)) ∧
    ((∃ i < 4, t.self.table.permits .write (va.toNat + i) = false) →
      learn va (some (.ended (some status))) t = .error (.refused .badAddress) t) := by
  have hroom : t.memory.rangeOk va.toNat 4 .write = true ↔
      ∀ i < 4, t.self.table.permits .write (va.toNat + i) = true := by
    have hlt := address.toInt_lt
    have hlimit : va.toNat + 4 ≤ addressLimit := by
      simp only [addressLimit]
      omega
    rw [rangeOk_iff, and_iff_right hlimit]
    rfl
  have hput := ensures_putWord (a := va.toNat) hs.framed status.toUInt32
  rcases hrun : putWord va.toNat status.toUInt32 t.memory with ⟨count, m⟩ | ⟨stop, m⟩
  · obtain ⟨hok, -, hwrote⟩ := hput.of_ok hrun
    refine ⟨fun _ => ?_, fun ⟨i, hi, hbad⟩ => ?_⟩
    · refine ⟨t.withMemory m, ?_, ⟨m, rfl⟩, hwrote.mapping, hwrote.byte hs.nodup, hwrote.foreign⟩
      rw [learn_status_eq, hrun]
    · rw [hroom.1 hok i hi] at hbad
      cases hbad
  · obtain ⟨hbad, rfl, rfl⟩ := hput.of_error hrun
    refine ⟨fun hall => absurd (hroom.2 hall) hbad, fun _ => ?_⟩
    rw [learn_status_eq, hrun]
    rfl

private theorem joinTells_of_pointer {q : CallRequest} {va : VirtualAddress} {result : Except Errno Nat}
    {record : Record} (hpointer : t.self.table.pointer? q.arg2 = some va)
    (hrecord : t.kernel.records.find? ⟨q.arg1⟩ = some record) (hresult : result ≠ .error .noChild) :
    joinTells q t result = [.reaped t.self.ordinal record.ordinal] := by
  unfold joinTells
  split
  · exact absurd rfl hresult
  · rw [hpointer, reapTells, hrecord]
    rfl

end Turn

namespace World

open Turn

variable {allowed : Move → Prop} {history : List Happening} {w : World}
variable {before after : List Process} {p : Process} {c : Pid} {child : Nat}

/-- The record of a child says how the child ended, when it has. While the machine is on, a child
that has not exited is still there. -/
theorem Chronicle.record_of_child (h : Chronicle allowed history w)
    (hfew : w.kernel.nextOrdinal ≤ 2 ^ 31) (hp : p ∈ w.processes)
    (hc : c ∈ p.children) : ∃ record, w.kernel.records.find? c = some record ∧
      c = .nth record.ordinal ∧ .created p.ordinal record.ordinal ∈ history ∧
      ((∃ q ∈ w.processes, q.ordinal = record.ordinal) → record.outcome = none) ∧
      (∀ s, .exited record.ordinal s ∈ history → record.outcome = some (.ended s)) ∧
      (w.kernel.machine.poweredOff = false →
        (∃ q ∈ w.processes, q.ordinal = record.ordinal) ∨
          ∃ s, .exited record.ordinal s ∈ history) := by
  obtain ⟨record, hrecord, hnth, -, -⟩ :=
    (h.recordsMatch hfew).exists_record (List.mem_append_right _ hp) hc
  have hmatches := h.historyMatches hfew
  have hmem := Assoc.mem_of_find? hrecord
  refine ⟨record, hrecord, hnth, hmatches.born p hp _ hmem hc, ?_, fun s hexited => ?_, ?_⟩
  · rintro ⟨q, hq, hself⟩
    exact h.reachable.consistentWith.unsettled q hq _ hmem hself.symm
  · obtain ⟨-, -, htold⟩ := hmatches.lasting _ hexited
    exact htold _ hmem rfl
  · intro hon
    cases houtcome : record.outcome with
    | none => exact Or.inl (h.reachable.sound.awaited _ hmem houtcome)
    | some o =>
      obtain ⟨s, -, hexited⟩ := hmatches.settled hon _ hmem o houtcome
      exact Or.inr ⟨s, hexited⟩

/-- What a process comes to that joins a child of its own, whose ordinal is `child`. It waits until the
child has ended, and then it takes leave of the child, once and for all; that is told, and nothing
else. -/
structure JoinsChild (history : List Happening) (w : World) (p : Process) (q : CallRequest)
    (va : VirtualAddress) (child : Nat) : Prop where
  named : ⟨q.arg1⟩ = Pid.nth child
  own : .created p.ordinal child ∈ history
  waits : (∃ c ∈ w.processes, c.ordinal = child) → ∃ t, join q ⟨w.kernel, p⟩ = .error .waiting t
  silent : .exited child none ∈ history →
    join q ⟨w.kernel, p⟩ = .ok 0 (reap ⟨w.kernel, p⟩ ⟨q.arg1⟩)
  told : ∀ status, .exited child (some status) ∈ history →
    (∀ i < 4, p.table.permits .write (va.toNat + i) = true) →
      ∃ t, join q ⟨w.kernel, p⟩ = .ok 1 t ∧
        Stored (reap ⟨w.kernel, p⟩ ⟨q.arg1⟩) t va.toNat (wordBytes status.toUInt32)
  untold : ∀ status, .exited child (some status) ∈ history →
    (∃ i < 4, p.table.permits .write (va.toNat + i) = false) →
      join q ⟨w.kernel, p⟩ =
        .error (.refused .badAddress) (reap ⟨w.kernel, p⟩ ⟨q.arg1⟩)
  ends : w.kernel.machine.poweredOff = false →
    (∃ c ∈ w.processes, c.ordinal = child) ∨ ∃ s, .exited child s ∈ history
  leaves : ⟨q.arg1⟩ ∉ (reap ⟨w.kernel, p⟩ ⟨q.arg1⟩).self.children
  noted : w.kernel.machine.poweredOff = false → q = p.registers.request →
    CallNumber.decode q.number = .ok .join → (∃ s, .exited child s ∈ history) →
      Move.call.tells ⟨w.kernel, p⟩ = [.reaped p.ordinal child]

private theorem tells_of_join {q : CallRequest} {va : VirtualAddress} {record : Record}
    (hon : w.kernel.machine.poweredOff = false) (hq : q = p.registers.request)
    (hdecode : CallNumber.decode q.number = .ok .join)
    (hpointer : p.table.pointer? q.arg2 = some va)
    (hrecord : w.kernel.records.find? ⟨q.arg1⟩ = some record)
    (hjoin : (∃ n t, join q ⟨w.kernel, p⟩ = .ok n t) ∨
      ∃ t, join q ⟨w.kernel, p⟩ = .error (.refused .badAddress) t) :
    Move.call.tells ⟨w.kernel, p⟩ = [.reaped p.ordinal record.ordinal] := by
  subst hq
  have hattempt : ∃ result t, result ≠ .error .noChild ∧
      attempt (serve .join p.registers.request) ⟨w.kernel, p⟩ = .ok result t := by
    rcases hjoin with ⟨n, t, hrun⟩ | ⟨t, hrun⟩
    · exact ⟨.ok n, t, by simp, by simp only [attempt, serve, hrun]⟩
    · exact ⟨.error .badAddress, t, by simp, by simp only [attempt, serve, hrun]⟩
  obtain ⟨result, t, hresult, hrun⟩ := hattempt
  rw [Move.tells, hon, if_neg Bool.false_ne_true, tellsCall]
  simp only [hdecode, hrun, CallNumber.tells]
  exact joinTells_of_pointer hpointer hrecord hresult

private theorem Chronicle.joinsChild (h : Chronicle allowed history w)
    (hfew : w.kernel.nextOrdinal ≤ 2 ^ 31) (hrunning : w.running = before ++ p :: after)
    (q : CallRequest)
    (hc : ⟨q.arg1⟩ ∈ p.children) {va : VirtualAddress}
    (hpointer : p.table.pointer? q.arg2 = some va) : ∃ child, JoinsChild history w p q va child := by
  have hp : p ∈ w.processes := (mem_processes_iff hrunning).2 (.inl rfl)
  have hs := sound_turn h.reachable.sound hrunning
  obtain ⟨record, hrecord, hnth, hcreated, hwaits, htold, hends⟩ := h.record_of_child hfew hp hc
  have hjoin : join q ⟨w.kernel, p⟩ =
      learn va record.outcome (reap ⟨w.kernel, p⟩ ⟨q.arg1⟩) := by
    rw [join_eq]
    simp only [hpointer, if_pos hc, hrecord]
  have honce := (((h.recordsMatch hfew).perm (unexited_perm hrunning history)).apart).1
  have hsilent : .exited record.ordinal none ∈ history →
      join q ⟨w.kernel, p⟩ = .ok 0 (reap ⟨w.kernel, p⟩ ⟨q.arg1⟩) := by
    intro hexited
    rw [hjoin, htold none hexited]
    rfl
  have hstatus : ∀ status, .exited record.ordinal (some status) ∈ history →
      join q ⟨w.kernel, p⟩ = learn va (some (.ended (some status)))
        (reap ⟨w.kernel, p⟩ ⟨q.arg1⟩) := by
    intro status hexited
    rw [hjoin, htold (some status) hexited]
  have hreap : Keeps untouched ⟨w.kernel, p⟩ (reap ⟨w.kernel, p⟩ ⟨q.arg1⟩) :=
    keeps_reap _ _
  have hlearn := learn_status (hreap.sound hs) (UserMemory.toNat_pointer hpointer)
  refine ⟨record.ordinal, hnth, hcreated, ?_, hsilent, ?_, ?_, hends, honce.not_mem_erase, ?_⟩
  · intro hthere
    rw [hjoin, hwaits hthere]
    exact ⟨_, rfl⟩
  · intro status hexited
    rw [hstatus status hexited]
    exact (hlearn status).1
  · intro status hexited
    rw [hstatus status hexited]
    exact (hlearn status).2
  · rintro hon hq hdecode ⟨_ | status, hexited⟩
    · exact tells_of_join hon hq hdecode hpointer hrecord (Or.inl ⟨0, _, hsilent hexited⟩)
    · apply tells_of_join hon hq hdecode hpointer hrecord
      rw [hstatus status hexited]
      by_cases hroom : ∀ i < 4, p.table.permits .write (va.toNat + i) = true
      · obtain ⟨t, hrun, -⟩ := (hlearn status).1 hroom
        exact Or.inl ⟨1, t, hrun⟩
      · simp only [Classical.not_forall, exists_prop, Bool.not_eq_true] at hroom
        obtain ⟨i, hi, hbad⟩ := hroom
        exact Or.inr ⟨_, (hlearn status).2 ⟨i, hi, hbad⟩⟩

/-- A child that was reaped is nobody's child any more. -/
theorem Chronicle.refused_of_reaped (h : Chronicle allowed history w)
    (hfew : w.kernel.nextOrdinal ≤ 2 ^ 31) {parent : Nat}
    (hreaped : .reaped parent child ∈ history) (hp : p ∈ w.running) {q : CallRequest}
    (hq : ⟨q.arg1⟩ = Pid.nth child) {va : VirtualAddress}
    (hpointer : p.table.pointer? q.arg2 = some va) :
    join q ⟨w.kernel, p⟩ = .error (.refused .noChild) ⟨w.kernel, p⟩ := by
  have hnot : ⟨q.arg1⟩ ∉ p.children := by
    rw [hq]
    exact ((h.historyMatches hfew).lasting _ hreaped).2 p (List.mem_append_left _ hp)
  rw [join_eq]
  simp only [hpointer, if_neg hnot]

private theorem Chronicle.lt_of_created (h : Chronicle allowed history w)
    (hfew : w.kernel.nextOrdinal ≤ 2 ^ 31) {parent : Nat} (hcreated : .created parent child ∈ history) :
    child < 2 ^ 31 := Nat.lt_of_lt_of_le ((h.historyMatches hfew).lasting _ hcreated) hfew

/-- A join of a bad pointer and a join of no child of the process change nothing. A join of a child
waits for it, takes leave of it and tells how it ended. A child is taken leave of once at most, by
the process that created it, and whoever joins it then is told that it has no such child. All this
holds as long as the numbers have not gone past the largest. -/
theorem Chronicle.joined_once (h : Chronicle allowed history w)
    (hfew : w.kernel.nextOrdinal ≤ 2 ^ 31) :
    (∀ {before after : List Process} {p : Process}, w.running = before ++ p :: after →
      ∀ q : CallRequest,
        (p.table.pointer? q.arg2 = none →
          join q ⟨w.kernel, p⟩ = .error (.refused .badAddress) ⟨w.kernel, p⟩) ∧
        ∀ va, p.table.pointer? q.arg2 = some va →
          (⟨q.arg1⟩ ∉ p.children →
            join q ⟨w.kernel, p⟩ = .error (.refused .noChild) ⟨w.kernel, p⟩) ∧
          (⟨q.arg1⟩ ∈ p.children → ∃ child, JoinsChild history w p q va child)) ∧
    ∀ past parent child rest, history = past ++ .reaped parent child :: rest →
      .created parent child ∈ past ∧
      (∀ a b, .created a b ∈ history → Pid.nth b = .nth child → a = parent) ∧
      (∀ a b, Pid.nth b = .nth child → .reaped a b ∉ past ∧ .reaped a b ∉ rest) ∧
      ∀ p ∈ w.running, ∀ (q : CallRequest) (va : VirtualAddress),
        ⟨q.arg1⟩ = Pid.nth child → p.table.pointer? q.arg2 = some va →
          join q ⟨w.kernel, p⟩ = .error (.refused .noChild) ⟨w.kernel, p⟩ := by
  refine ⟨fun hrunning q => ⟨fun hpointer => ?_, fun va hpointer => ⟨fun hnot => ?_, fun hc => ?_⟩⟩,
    fun past parent child rest heq => ?_⟩
  · rw [join_eq]
    simp only [hpointer]
  · rw [join_eq]
    simp only [hpointer, if_neg hnot]
  · exact h.joinsChild hfew hrunning q hc hpointer
  · have horderly := (h.historyMatches hfew).orderly
    have hreaped : .reaped parent child ∈ history := by
      rw [heq]
      exact List.mem_append_right _ (List.mem_cons_self ..)
    have hown := horderly.created_of_reaped hreaped
    have hsame : ∀ {a b}, .created a b ∈ history → Pid.nth b = .nth child → b = child :=
      fun hcreated => (Pid.nth_inj (h.lt_of_created hfew hcreated) (h.lt_of_created hfew hown)).1
    have honce : ∀ a b, Pid.nth b = .nth child → .reaped a b ∈ history → b = child :=
      fun a b hb hmem => hsame (horderly.created_of_reaped hmem) hb
    refine ⟨(horderly past _ rest heq).1, fun a b hcreated hb => ?_, fun a b hb => ?_, ?_⟩
    · cases hsame hcreated hb
      exact horderly.parent_unique hcreated hown
    · rw [heq] at horderly honce
      constructor
      · intro hpast
        cases honce a b hb (List.mem_append_left _ hpast)
        exact (horderly.reaped_once a).1 hpast
      · intro hrest
        cases honce a b hb (List.mem_append_right _ (List.mem_cons_of_mem _ hrest))
        exact (horderly.reaped_once a).2 hrest
    · exact fun p hp q va hq hpointer => h.refused_of_reaped hfew hreaped hp hq hpointer

def sampleJoined : List Happening × World :=
  story sampleRoot (sampleCues ++ Cue.issue ⟨3, 2, 8192, 0, 0⟩)

private theorem chronicle_sampleJoined : Chronicle Move.Tame sampleJoined.1 sampleJoined.2 := by
  apply chronicle_story chronicle_sampleRoot
  simp [sampleCues, Cue.issue, Move.Tame]

private theorem exists_sampleJoined : ∃ p va, sampleJoined.2.running = [p] ∧
    p.table.pointer? 8192 = some va := by
  have hpointers : sampleJoined.2.running.map (fun p => (p.table.pointer? 8192).isSome) =
      [true] := by decide +kernel
  obtain ⟨p, hrunning, hpointer⟩ := List.map_eq_singleton_iff.1 hpointers
  obtain ⟨va, hva⟩ := Option.isSome_iff_exists.1 hpointer
  exact ⟨p, va, hrunning, hva⟩

theorem joined_once_sample :
    (∃ p va t, Chronicle Move.Tame sampleFamily.1 sampleFamily.2 ∧
      sampleFamily.1 = [.created 1 2, .exited 2 (some 7)] ∧
      sampleFamily.2.kernel.nextOrdinal ≤ 2 ^ 31 ∧ sampleFamily.2.running = [] ++ p :: [] ∧
      p.table.pointer? 8192 = some va ∧ va.toNat = 8192 ∧
      join ⟨3, 2, 8192, 0, 0⟩ ⟨sampleFamily.2.kernel, p⟩ = .ok 1 t ∧
      Stored (reap ⟨sampleFamily.2.kernel, p⟩ ⟨2⟩) t va.toNat (wordBytes 7)) ∧
    ∃ p va, Chronicle Move.Tame sampleJoined.1 sampleJoined.2 ∧
      sampleJoined.1 =
        [.created 1 2, .exited 2 (some 7)] ++ .reaped 1 2 :: [] ∧
      sampleJoined.2.running = [p] ∧ p.table.pointer? 8192 = some va ∧
      join ⟨3, 2, 8192, 0, 0⟩ ⟨sampleJoined.2.kernel, p⟩ =
        .error (.refused .noChild) ⟨sampleJoined.2.kernel, p⟩ := by
  constructor
  · obtain ⟨p, hrunning, hchildren⟩ := exists_sampleFamily
    have hsplit : sampleFamily.2.running = [] ++ p :: [] := hrunning
    have hchild : (⟨2⟩ : Pid) ∈ p.children := hchildren ▸ List.mem_singleton_self _
    have hhistory : sampleFamily.1 = [.created 1 2, .exited 2 (some 7)] := by
      decide +kernel
    have hpointers : sampleFamily.2.running.map
        (fun p => (p.table.pointer? 8192).map (·.toNat)) = [some 8192] := by decide +kernel
    have hrooms : ∀ p ∈ sampleFamily.2.running,
        ∀ i < 4, p.table.permits .write (8192 + i) = true := by decide +kernel
    rw [hrunning] at hpointers
    obtain ⟨va, hpointer, hva⟩ := Option.map_eq_some_iff.1 (List.singleton_inj.1 hpointers)
    have hroom := hva.symm ▸ hrooms p (hrunning ▸ List.mem_singleton_self p)
    have hfew : sampleFamily.2.kernel.nextOrdinal ≤ 2 ^ 31 := by decide +kernel
    obtain ⟨-, hjoins⟩ := (chronicle_sampleFamily.joined_once hfew).1 hsplit ⟨3, 2, 8192, 0, 0⟩
    obtain ⟨child, hjoinsChild⟩ := (hjoins va hpointer).2 hchild
    have htwo : child = 2 := by
      have hown := hjoinsChild.own
      rw [hhistory] at hown
      rcases List.mem_cons.1 hown with heq | hrest
      · exact (Happening.created.inj heq).2
      · cases List.mem_singleton.1 hrest
    have hexited : .exited child (some 7) ∈ sampleFamily.1 := by
      rw [hhistory, htwo]
      exact List.mem_cons_of_mem _ (List.mem_singleton_self _)
    obtain ⟨t, hjoin, hstored⟩ := hjoinsChild.told 7 hexited hroom
    exact ⟨p, va, t, chronicle_sampleFamily, hhistory, hfew, hsplit, hpointer, hva, hjoin, hstored⟩
  · obtain ⟨p, va, hrunning, hpointer⟩ := exists_sampleJoined
    have hhistory : sampleJoined.1 =
        [.created 1 2, .exited 2 (some 7)] ++ .reaped 1 2 :: [] := by
      decide +kernel
    have hfew : sampleJoined.2.kernel.nextOrdinal ≤ 2 ^ 31 := by decide +kernel
    obtain ⟨-, -, -, hrefused⟩ := (chronicle_sampleJoined.joined_once hfew).2 _ _ _ _ hhistory
    exact ⟨p, va, chronicle_sampleJoined, hhistory, hrunning, hpointer,
      hrefused p (hrunning ▸ List.mem_singleton_self p) _ va rfl hpointer⟩

end World

end PagedKernel

import PagedKernel.Proofs.Kernel.Deeds
import PagedKernel.Proofs.Kernel.Passing

/-!
# Calls on processes

A child gets what was free, and waiting for one touches the status that the process asked for. A
process that ends gives its frames back and touches no memory at all.
-/

namespace PagedKernel.Turn

open UserMemory

variable {α : Type} {t t' t'' : Turn} {others : List Process} {touched touched' : Nat → Prop}
variable {q : CallRequest} {p : Process}

/-- The others are spared, and the process sees the bytes that it saw, but for those touched. -/
structure Served (others : List Process) (touched : Nat → Prop) (t t' : Turn) : Prop
    extends Spares others t t' where
  registers : t'.self.registers = t.self.registers
  mapping : t'.self.table.mapping = t.self.table.mapping
  byte : ∀ a, ¬ touched a → t'.memory.byte? a = t.memory.byte? a

theorem Keeps.served (h : Keeps touched t t') (hs : t.Sound others) : Served others touched t t' :=
  ⟨h.spares hs, h.registers, h.edited.mapping, h.edited.byte hs.nodup⟩

theorem Served.trans (h : Served others touched t t') (h' : Served others touched t' t'') :
    Served others touched t t'' where
  toSpares := h.toSpares.trans h'.toSpares
  registers := h'.registers.trans h.registers
  mapping := h'.mapping.trans h.mapping
  byte a ha := (h'.byte a ha).trans (h.byte a ha)

theorem Served.mono (h : Served others touched t t') (ht : ∀ a, touched a → touched' a) :
    Served others touched' t t' :=
  { h with byte := fun a ha => h.byte a fun hin => ha (ht a hin) }

/-- The process can wait for a child of its own, another process that has not ended. -/
structure Awaits (t : Turn) (others : List Process) (pid : Pid) : Prop where
  child : pid ∈ t.self.children
  live : ∃ record, (pid, record) ∈ t.kernel.records ∧ record.outcome = none ∧
    ∃ child ∈ others ++ t.kernel.ready, child.ordinal = record.ordinal

private theorem served_of_grown {k : Kernel} (hs : t.Sound others)
    (h : Kernel.Grown (t.self :: others) t.kernel k) :
    Served others touched t { t with kernel := k } := by
  have hframes : ∀ q ∈ t.self :: others ++ t.kernel.ready, ∀ f ∈ q.table.mapped,
      k.machine.memory.frame? f = t.kernel.machine.memory.frame? f :=
    fun q hq f hf => h.foreign f (Kernel.Sound.not_free hs hq hf)
  refine ⟨⟨h.sound, rfl, rfl, h.ready, ?_, h.records⟩, rfl, rfl, ?_⟩
  · intro q hq
    exact hframes q (List.mem_cons_of_mem _ hq)
  · intro a _
    apply byte?_congr
    · rfl
    · exact hframes t.self Sound.self_mem

theorem served_addChild (hs : t.Sound others) {pid : Pid}
    (hlt : ∀ e ∈ t.kernel.records, e.1 = pid → t.self.ordinal < e.2.ordinal) :
    Served others touched t
      { t with self := { t.self with children := pid.insert t.self.children } } := by
  have hsound : t.kernel.Sound
      ({ t.self with children := pid.insert t.self.children } :: others) := by
    refine hs.replace rfl hs.inRange ?_ rfl hs.held (Nat.le_refl _) fun _ he => he
    intro e he hc
    rcases Pid.mem_insert.1 hc with hnew | hold
    · exact hlt e he hnew
    · exact hs.younger _ Sound.self_mem e he hold
  exact ⟨⟨hsound, rfl, rfl, List.prefix_rfl, fun _ _ _ _ => rfl, fun _ he => Or.inl he⟩, rfl, rfl,
    fun _ _ => rfl⟩

/-- The process has a new child, which runs what the process passed. Beside that the process has only
looked at its memory. -/
structure GainsChild (others : List Process) (q : CallRequest) (t t' : Turn) (child : Process) :
    Prop where
  passed : ∃ name args t₁, execArguments q t = .ok (name, args) t₁ ∧ t.memory.Passes q args ∧
    t.kernel.Runs t'.kernel name args child
  grown : Kernel.Grown (t.self :: others) t.kernel t'.kernel
  takesUp : t.kernel.TakesUp t'.kernel child
  self : ∃ seen, t'.self = { t.self with
    table := t.self.table.marked seen, children := t.kernel.nextPid.insert t.self.children }

/-- The host has refused a thread, and a number is used up by it. -/
structure Unstarted (t : Turn) (stop : Stop Errno) (t' : Turn) : Prop where
  refused : (t.kernel.machine.devices.refusals.find? t.kernel.nextOrdinal).isSome
  nextOrdinal : t'.kernel.nextOrdinal = t.kernel.nextOrdinal + 1
  stop_eq : stop = .refused .noMemory

/-- The process has only looked at its memory, and what was tried for it left nothing behind but the
number of a process for which there was no thread. -/
structure Fails (others : List Process) (t : Turn) (stop : Stop Errno) (t' : Turn) : Prop
    extends Kernel.Abides t.kernel t'.kernel where
  grown : Kernel.Grown (t.self :: others) t.kernel t'.kernel
  devices : t'.kernel.machine.devices = t.kernel.machine.devices
  nextOrdinal : t'.kernel.nextOrdinal = t.kernel.nextOrdinal ∨ Unstarted t stop t'
  live : t'.kernel.live = t.kernel.live
  self : ∃ seen, t'.self = { t.self with table := t.self.table.marked seen }

private theorem served_of_looked {k : Kernel} (hs : t.Sound others)
    (hgrown : Kernel.Grown (t.self :: others) t.kernel k) (seen : Nat → Bool) :
    Served others untouched t ⟨k, { t.self with table := t.self.table.marked seen }⟩ := by
  have hserved : Served others untouched t ⟨k, t.self⟩ := served_of_grown hs hgrown
  have hlooks : Looks ⟨k, t.self⟩ ⟨k, { t.self with table := t.self.table.marked seen }⟩ := ⟨seen, rfl⟩
  exact hserved.trans (hlooks.stays.keeps.served hserved.sound)

private theorem GainsChild.served (h : GainsChild others q t t' p) (hs : t.Sound others) :
    Served others untouched t t' := by
  obtain ⟨seen, hparent⟩ := h.self
  have hlooked := served_of_looked hs h.grown seen
  have hself : t.self.ordinal < t.kernel.nextOrdinal := hs.numbered _ Sound.self_mem
  have hchild : Served others untouched _ _ :=
    served_addChild hlooked.sound fun e he hpid => h.takesUp.younger hself he hpid
  rw [show t' = ⟨t'.kernel, t'.self⟩ from rfl, hparent]
  exact hlooked.trans hchild

private theorem GainsChild.does (h : GainsChild others q t t' p) :
    t.Does [.created t.self.ordinal t.kernel.nextOrdinal] t' := by
  obtain ⟨seen, hself⟩ := h.self
  have hlooks : Looks t ⟨t.kernel, { t.self with table := t.self.table.marked seen }⟩ := ⟨seen, rfl⟩
  rw [← h.takesUp.pid] at hself
  rw [← h.takesUp.ordinal]
  have hstays : Stays untouched t _ := hlooks.stays
  refine Does.begets hstays.works h.takesUp ?_
  rw [← hself]
  exact .refl t'

theorem Fails.served {stop : Stop Errno} (h : Fails others t stop t') (hs : t.Sound others) :
    Served others untouched t t' := by
  obtain ⟨seen, hself⟩ := h.self
  rw [show t' = ⟨t'.kernel, t'.self⟩ from rfl, hself]
  exact served_of_looked hs h.grown seen

def execTells (t t' : Turn) : List Happening :=
  if t'.kernel.nextOrdinal = t.kernel.nextOrdinal then [] else [.unstarted t.kernel.nextOrdinal]

private theorem Fails.does {stop : Stop Errno} (h : Fails others t stop t') :
    t.Does (execTells t t') t' := by
  have hworks : ∀ {k : Kernel}, Kernel.Abides k t'.kernel → t'.kernel.nextOrdinal = k.nextOrdinal →
      t'.kernel.machine.devices = k.machine.devices → t'.kernel.live = k.live →
      Works ⟨k, t.self⟩ t' := by
    intro k habides hnext hdevices hlive
    obtain ⟨seen, hself⟩ := h.self
    refine ⟨habides, hnext, hlive, ?_, ?_, ?_, ?_, ?_, ?_⟩
    case refine_6 =>
      rw [desk, desk, hself, hdevices]
      exact Desk.FilesKept.refl _
    all_goals rw [hself]
    exact PageTable.mapping_marked ..
  rcases h.nextOrdinal with hsame | hunstarted
  · rw [execTells, if_pos hsame]
    exact .works (hworks h.toAbides hsame h.devices h.live)
  · have hnext := hunstarted.nextOrdinal
    have hne : t'.kernel.nextOrdinal ≠ t.kernel.nextOrdinal := by omega
    rw [execTells, if_neg hne]
    refine .unstarts (.refl t) (hworks ?_ hnext h.devices h.live)
    exact ⟨h.records, h.ready, h.power, h.size, h.queue⟩

private theorem Looks.fails {stop : Stop Errno} (h : Looks t t') (hs : t.Sound others) :
    Fails others t stop t' := by
  obtain ⟨seen, rfl⟩ := h
  exact ⟨Kernel.Abides.refl _, ⟨hs, List.prefix_rfl, fun _ _ => rfl, fun _ he => .inl he⟩, rfl,
    .inl rfl, rfl, seen, rfl⟩

/-- An exec creates a child, or it is refused and leaves nothing behind but perhaps a number that is
used up. -/
theorem ensures_exec_gainsChild (hs : t.Sound others) (q : CallRequest) : Ensures (exec q) t
    (fun n t' => n = t.kernel.nextPid.toNat ∧ ∃ child, GainsChild others q t t' child)
    (fun stop t' => stop.IsRefusal ∧ Fails others t stop t') := by
  have harguments := finds_execArguments hs.framed q
  unfold exec
  rw [ensures_bind]
  apply ensures_intro
  · intro passed t₁ hx
    obtain ⟨⟨seen, rfl⟩, hname, hpasses⟩ := harguments.of_ok hx
    dsimp only
    rw [ensures_bind, onKernel, ensures_zoom]
    apply (Kernel.ensures_spawn_runs hs passed.1 passed.2).mono
    · rintro pid k ⟨hgrown, rfl, child, hchild, hruns⟩
      exact ⟨rfl, child, ⟨_, _, _, hx, hpasses, hruns⟩, hgrown, hchild, seen, rfl⟩
    · rintro stop k ⟨hgrown, habides, hdevices, hdown⟩
      cases hdown with
      | unloaded hrefusal hnext hlive =>
        exact ⟨hrefusal, habides, hgrown, hdevices, .inl hnext, hlive, seen, rfl⟩
      | unstarted hrefused hnext hlive =>
        exact ⟨⟨_, rfl⟩, habides, hgrown, hdevices, .inr ⟨hrefused, hnext, rfl⟩, hlive, seen, rfl⟩
      | unnamed hbad =>
        rw [Kernel.nameOk_threadName hname] at hbad
        cases hbad
  · intro stop t₁ hx
    obtain ⟨hlooks, hstop⟩ := harguments.of_error hx
    exact ⟨hstop, hlooks.fails hs⟩

theorem ensures_exec (hs : t.Sound others) (q : CallRequest) : Ensures (exec q) t
    (fun n t' => Served others untouched t t' ∧ n = t.kernel.nextPid.toNat ∧
      t.Does [.created t.self.ordinal t.kernel.nextOrdinal] t')
    (fun stop t' => Served others untouched t t' ∧ stop.IsRefusal ∧ t.Does (execTells t t') t') := by
  apply (ensures_exec_gainsChild hs q).mono
  · rintro n t' ⟨hn, child, hgains⟩
    exact ⟨hgains.served hs, hn, hgains.does⟩
  · rintro stop t' ⟨hstop, hfails⟩
    exact ⟨hfails.served hs, hstop, hfails.does⟩

private theorem Sound.awaits (hs : t.Sound others) {pid : Pid} {record : Record}
    (hchild : pid ∈ t.self.children) (hrecord : (pid, record) ∈ t.kernel.records)
    (hnone : record.outcome = none) : t.Awaits others pid := by
  refine ⟨hchild, record, hrecord, hnone, ?_⟩
  obtain ⟨child, hmem, hself⟩ := hs.awaited _ hrecord hnone
  rcases List.mem_cons.1 hmem with rfl | hother
  · have hlt := hs.younger _ Sound.self_mem _ hrecord hchild
    rw [← hself] at hlt
    exact absurd hlt (Nat.lt_irrefl _)
  · exact ⟨child, hother, hself⟩

def learn (va : VirtualAddress) : Option Outcome → Call Nat
  | none => throw .waiting
  | some (.died fault) => throw (.fault fault)
  | some (.ended none) => return 0
  | some (.ended (some status)) => do
    let _ ← onMemory (putWord va.toNat status.toUInt32)
    return 1

theorem onMemory_pointer (t : Turn) (r : Int32) : onMemory (pointer r) t =
    match t.self.table.pointer? r with
    | none => .error (.refused .badAddress) t
    | some va => .ok va t := by
  have hpointer : pointer r t.memory = orRefuse .badAddress (t.self.table.pointer? r) t.memory := rfl
  simp only [Turn.memory] at hpointer
  unfold onMemory zoom
  rw [hpointer]
  cases t.self.table.pointer? r with
  | none => rfl
  | some va => rfl

/-- A join first checks the pointer, then it takes leave of the child, and then it tells the status. -/
theorem join_eq (q : CallRequest) (t : Turn) : join q t =
    match t.self.table.pointer? q.arg2 with
    | none => .error (.refused .badAddress) t
    | some va =>
      if (⟨q.arg1⟩ : Pid) ∈ t.self.children then
        match t.kernel.records.find? ⟨q.arg1⟩ with
        | none => .error (.refused .noChild) (t.forget ⟨q.arg1⟩)
        | some record => learn va record.outcome (t.reap ⟨q.arg1⟩)
      else .error (.refused .noChild) t := by
  have hpointer := onMemory_pointer t q.arg2
  unfold join
  change EStateM.bind _ _ t = _
  rw [EStateM.bind, hpointer]
  cases t.self.table.pointer? q.arg2 with
  | none => rfl
  | some va =>
    by_cases hchild : (⟨q.arg1⟩ : Pid) ∈ t.self.children
    · simp only [bind, EStateM.bind, get, getThe, MonadStateOf.get, EStateM.get, hchild,
        not_true_eq_false, if_false, if_true, modifySelf, modify, modifyGet,
        MonadStateOf.modifyGet, EStateM.modifyGet, onKernel, zoom, Kernel.takeRecord?]
      cases t.kernel.records.find? ⟨q.arg1⟩ with
      | none => rfl
      | some record =>
        rcases record with ⟨name, _ | ⟨_ | status⟩ | f⟩ <;> rfl
    · simp only [bind, EStateM.bind, get, getThe, MonadStateOf.get, EStateM.get, hchild,
        not_false_eq_true, if_false, if_true]
      rfl

theorem ensures_join_of {P : Turn → Prop} {q : CallRequest} (ht : P t)
    (hforget : P (t.forget ⟨q.arg1⟩))
    (hlearn : ∀ va outcome, Ensures (learn va outcome) (t.reap ⟨q.arg1⟩) (fun _ => P)
      (fun _ => P)) : Ensures (join q) t (fun _ => P) (fun _ => P) := by
  unfold Ensures
  rw [join_eq]
  cases t.self.table.pointer? q.arg2 with
  | none => exact ht
  | some va =>
    by_cases hchild : (⟨q.arg1⟩ : Pid) ∈ t.self.children
    · simp only [if_pos hchild]
      cases t.kernel.records.find? ⟨q.arg1⟩ with
      | none => exact hforget
      | some record => exact hlearn va record.outcome
    · simp only [if_neg hchild]
      exact ht

theorem ensures_learn (hs : t.Sound others) {address : Int32} {va : VirtualAddress}
    (hva : (va.toNat : Int) = address.toInt) (outcome : Option Outcome) :
    Ensures (learn va outcome) t
      (fun n t' => n < wordLimit ∧ Stays (fun a => n = 1 ∧ InBuffer address 4 a) t t')
      (fun stop t' => t' = t ∧ (stop = .refused .badAddress ∨ outcome = none ∧ stop = .waiting ∨
        ∃ f, outcome = some (.died f) ∧ stop = .fault f)) := by
  match outcome with
  | none => exact ⟨rfl, Or.inr (Or.inl ⟨rfl, rfl⟩)⟩
  | some (.died f) => exact ⟨rfl, Or.inr (Or.inr ⟨f, rfl, rfl⟩)⟩
  | some (.ended none) => exact ⟨by decide, Stays.refl t⟩
  | some (.ended (some status)) =>
    refine ensures_bind.2 (ensures_zoom.2 ?_)
    apply (ensures_putWord hs.framed status.toUInt32).mono
    · rintro _ m ⟨-, -, hwrote⟩
      refine ⟨by decide, stays_of_edited (hwrote.edited ?_)⟩
      intro b hl hu
      rw [length_wordBytes] at hu
      refine ⟨rfl, ?_, ?_⟩ <;> omega
    · rintro stop m ⟨-, rfl, rfl⟩
      exact ⟨rfl, Or.inl rfl⟩

def reapTells (q : CallRequest) (t : Turn) : List Happening :=
  match t.kernel.records.find? ⟨q.arg1⟩ with
  | some record => [.reaped t.self.ordinal record.ordinal]
  | none => []

def joinTells (q : CallRequest) (t : Turn) : Except Errno Nat → List Happening
  | .error .noChild => []
  | _ => if (t.self.table.pointer? q.arg2).isSome then reapTells q t else []

private theorem keeps_forget (t : Turn) (child : Pid) : Keeps touched t (t.forget child) :=
  keeps_of_sameProcesses (Kernel.SameProcesses.refl _) rfl rfl rfl rfl rfl fun _ hc =>
    List.mem_of_mem_erase hc

theorem keeps_reap (t : Turn) (child : Pid) : Keeps touched t (t.reap child) :=
  keeps_of_sameProcesses ⟨rfl, rfl, rfl, rfl, fun _ he => (List.mem_filter.1 he).1⟩ rfl rfl rfl rfl rfl
    fun _ hc => List.mem_of_mem_erase hc

/-- A join answers with 1 when it stored a status, and else with 0 or not at all. Short of a refusal
it waits for a child that has not ended, or takes over the fault of one that died. -/
theorem ensures_join (hs : t.Sound others) (q : CallRequest) : Ensures (join q) t
    (fun n t' => Served others (fun a => n = 1 ∧ InBuffer q.arg2 4 a) t t' ∧ n < wordLimit ∧
      t.Does (joinTells q t (.ok n)) t')
    (fun stop t' => Served others untouched t t' ∧
      ((∃ e, stop = .refused e ∧ t.Does (joinTells q t (.error e)) t') ∨
      stop = .waiting ∧ t.Awaits others ⟨q.arg1⟩ ∨
      ∃ e ∈ t.kernel.records, ∃ f, e.2.outcome = some (.died f) ∧ stop = .fault f ∧
        t.Does (reapTells q t) t')) := by
  have hrefl : Served others untouched t t := (Keeps.refl t).served hs
  unfold Ensures
  rw [join_eq]
  cases hpointer : t.self.table.pointer? q.arg2 with
  | none => exact ⟨hrefl, Or.inl ⟨_, rfl, by simpa [joinTells, hpointer] using .works (.refl t)⟩⟩
  | some va =>
    by_cases hchild : (⟨q.arg1⟩ : Pid) ∈ t.self.children
    · simp only [if_pos hchild]
      cases hrecord : t.kernel.records.find? ⟨q.arg1⟩ with
      | none =>
        exact ⟨(keeps_forget t _).served hs, Or.inl ⟨_, rfl, .misses hchild hrecord (.refl _)⟩⟩
      | some record =>
        have htaken : Keeps untouched t (t.reap ⟨q.arg1⟩) := keeps_reap t _
        have hold := Assoc.mem_of_find? hrecord
        have htells : reapTells q t = [.reaped t.self.ordinal record.ordinal] := by
          rw [reapTells, hrecord]
        have hreaps : ∀ {t'}, Works (t.reap ⟨q.arg1⟩) t' → t.Does (reapTells q t) t' :=
          fun h => htells ▸ .reaps hchild hrecord h
        apply Ensures.mono (ensures_learn (htaken.sound hs) (toNat_pointer hpointer) record.outcome)
        · rintro n t' ⟨hn, hstays⟩
          have hkept := (htaken.mono fun _ h => h.elim).trans hstays.keeps
          refine ⟨hkept.served hs, hn, ?_⟩
          simpa [joinTells, hpointer] using hreaps hstays.works
        · rintro stop t' ⟨rfl, hstop⟩
          refine ⟨htaken.served hs, ?_⟩
          rcases hstop with rfl | ⟨hnone, rfl⟩ | ⟨f, hdied, rfl⟩
          · exact Or.inl ⟨_, rfl, by simpa [joinTells, hpointer] using hreaps (.refl _)⟩
          · exact Or.inr (Or.inl ⟨rfl, hs.awaits hchild hold hnone⟩)
          · exact Or.inr (Or.inr ⟨_, hold, f, hdied, rfl, hreaps (.refl _)⟩)
    · simp only [if_neg hchild]
      exact ⟨hrefl, Or.inl ⟨_, rfl, .works (.refl t)⟩⟩

end PagedKernel.Turn

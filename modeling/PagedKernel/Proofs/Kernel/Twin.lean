import PagedKernel.Proofs.Kernel.Moves
import PagedKernel.Proofs.Kernel.Pairing
import PagedKernel.Proofs.Loader.Reports
import PagedKernel.Proofs.Loader.Twin

/-!
# Kernels that differ in frames only

Two kernels are level when they differ in nothing but which frames are used, what free frames hold,
and what was reported beside exceptions. Whatever they do for processes that see the same comes to
the same.
-/

namespace PagedKernel

namespace Kernel

variable {k k' k₁ k₁' : Kernel}

/-- Two kernels alike in all but their frames and their logs, the exceptions apart. -/
structure Level (k k' : Kernel) : Prop where
  config : k'.machine.config = k.machine.config
  devices : k'.machine.devices = k.machine.devices
  power : k'.machine.power = k.machine.power
  exceptions : k'.machine.exceptions = k.machine.exceptions
  available : k'.machine.pool.available = k.machine.pool.available
  records : k'.records = k.records
  nextOrdinal : k'.nextOrdinal = k.nextOrdinal
  live : k'.live = k.live

theorem Level.report (h : Level k k') (e : Event) : Level (k.report e) (k'.report e) where
  config := h.config
  devices := h.devices
  power := h.power
  exceptions := by
    have hexceptions := h.exceptions
    simp only [Machine.exceptions, Kernel.report, Machine.report, List.filter_cons] at hexceptions ⊢
    rw [hexceptions]
  available := h.available
  records := h.records
  nextOrdinal := h.nextOrdinal
  live := h.live

theorem Level.halt (h : Level k k') : Level k.halt k'.halt := by
  have hoff : k'.machine.power.isOff = k.machine.power.isOff := by rw [h.power]
  have hexceptions := h.exceptions
  unfold Kernel.halt Machine.halt
  simp only [hoff]
  split
  · exact ⟨h.config, h.devices, congrArg (·.off.2) h.power, h.exceptions, h.available, h.records,
      h.nextOrdinal, h.live⟩
  · refine ⟨h.config, h.devices, congrArg (·.off.2) h.power, ?_, h.available, h.records,
      h.nextOrdinal, h.live⟩
    rw [Machine.exceptions_report rfl, Machine.exceptions_report rfl]
    exact h.exceptions

theorem Level.processExited (h : Level k k') : Level k.processExited k'.processExited := by
  have hcounted : Level { k with live := k.live - 1 } { k' with live := k'.live - 1 } :=
    { h with live := congrArg (· - 1) h.live }
  unfold Kernel.processExited
  rw [h.live]
  rw [h.live] at hcounted
  split
  · exact (hcounted.report _).halt
  · exact hcounted

private theorem Level.reports (h : Level k k') (records : List Record) :
    Level (records.foldl (fun k record => k.report (.orphanReaped record.name)) k)
      (records.foldl (fun k record => k.report (.orphanReaped record.name)) k') := by
  induction records generalizing k k' with
  | nil => exact h
  | cons record rest ih => exact ih (h.report _)

theorem Level.disown (h : Level k k') (children : List Pid) :
    Level (k.disown children) (k'.disown children) := by
  have herased : Level { k with records := children.foldl Assoc.erase k.records }
      { k' with records := children.foldl Assoc.erase k'.records } :=
    { h with records := congrArg (children.foldl Assoc.erase) h.records }
  unfold Kernel.disown
  rw [h.records] at herased ⊢
  exact herased.reports _

theorem Level.settle (h : Level k k') (ordinal : Nat) (outcome : Outcome) :
    Level (k.settle ordinal outcome) (k'.settle ordinal outcome) :=
  { h with records := by rw [Kernel.settle, Kernel.settle, h.records] }

end Kernel

/-- The same process twice, with its pages in other frames of another memory. -/
structure Process.Twin (memory memory' : Memory) (p p' : Process) : Prop where
  same : p' = { p with table := p'.table }
  memory : UserMemory.Twin ⟨p.table, memory⟩ ⟨p'.table, memory'⟩

/-- Two turns of a process, on kernels that are level. -/
structure Turn.Twin (t t' : Turn) : Prop where
  self : Process.Twin t.kernel.machine.memory t'.kernel.machine.memory t.self t'.self
  level : t.kernel.Level t'.kernel

namespace Turn

open UserMemory

variable {α β : Type} {t t' : Turn}

theorem Twin.desk (h : Twin t t') : t'.desk = t.desk := by
  rw [Turn.desk, Turn.desk, h.self.same, h.level.devices]

instance : Pairing Twin where
  memory h := h.self.memory
  most h := by rw [h.level.config]
  withMemory h hm := by
    refine ⟨⟨?_, hm⟩, { h.level with }⟩
    simp only [withMemory]
    rw [h.self.same]

private theorem parallel_onDesk (x : EStateM (Stop Errno) Desk α) : Parallel Twin (onDesk x) := by
  apply (Parallel.eq x).zoom
  · intro t t' h
    exact h.desk.symm
  · intro t t' s _ h hs
    subst hs
    refine ⟨⟨?_, h.self.memory⟩, { h.level with devices := rfl }⟩
    simp only
    rw [h.self.same]

theorem parallel_modifySelf {f : Process → Process}
    (hf : ∀ p table, f { p with table } = { f p with table }) : Parallel Twin (modifySelf f) := by
  apply Parallel.modify
  intro t t' h
  have htable : ∀ p, (f p).table = p.table := by
    intro p
    exact (congrArg Process.table (hf p p.table) :)
  refine ⟨⟨?_, ?_⟩, h.level⟩
  · change f t'.self = { f t.self with table := (f t'.self).table }
    rw [htable, ← hf, ← h.self.same]
  · change UserMemory.Twin ⟨(f t.self).table, _⟩ ⟨(f t'.self).table, _⟩
    rw [htable, htable]
    exact h.self.memory

theorem parallel_modifyKernel {f : Kernel → Kernel}
    (hlevel : ∀ k k', Kernel.Level k k' → Kernel.Level (f k) (f k'))
    (hmemory : ∀ k, (f k).machine.memory = k.machine.memory) : Parallel Twin (modifyKernel f) := by
  apply Parallel.modify
  intro t t' h
  refine ⟨?_, hlevel _ _ h.level⟩
  simp only [hmemory]
  exact h.self

theorem parallel_report (e : Event) : Parallel Twin (report e) :=
  parallel_modifyKernel (fun _ _ h => h.report e) fun _ => rfl

private theorem parallel_stringArguments (address count : Nat) :
    Parallel Twin (stringArguments address count) := by
  induction count generalizing address with
  | zero => exact .pure _
  | succ count ih =>
    rw [stringArguments]
    apply (parallel_onMemory (parallel_getWord address)).bind
    intro pointer
    apply (parallel_stringArgument pointer.toInt32).bind
    intro arg
    apply (ih (address + ArgumentArea.pointerSize)).bind
    intro rest
    exact .pure _

theorem parallel_execArguments (q : CallRequest) : Parallel Twin (execArguments q) := by
  unfold execArguments
  apply parallel_maxStringLength.bind
  intro most
  apply (parallel_onMemory (parallel_pointer q.arg1)).bind
  intro nameVa
  split
  · exact .refuse_bind _
  · apply (parallel_onMemory (parallel_pointer q.arg3)).bind
    intro argv
    apply (parallel_onMemory (parallel_getString nameVa.toNat most)).bind
    intro name
    apply (parallel_onMemory (parallel_checkRange _ _ .read)).bind
    intro _
    apply (parallel_stringArguments argv.toNat _).bind
    intro args
    exact .pure _

private theorem Twin.withChildren (h : Twin t t') (f : List Pid → List Pid) :
    Twin { t with self := { t.self with children := f t.self.children } }
      { t' with self := { t'.self with children := f t'.self.children } } := by
  refine ⟨⟨?_, h.self.memory⟩, h.level⟩
  simp only
  rw [h.self.same]

private theorem Twin.children (h : Twin t t') : t'.self.children = t.self.children := by
  rw [h.self.same]

private theorem parallel_learn (va : VirtualAddress) (outcome : Option Outcome) :
    Parallel Twin (learn va outcome) :=
  match outcome with
  | none => .throw _
  | some (.died _) => .throw _
  | some (.ended none) => .pure _
  | some (.ended (some status)) =>
    (parallel_onMemory (parallel_putWord va.toNat status.toUInt32)).bind fun _ => .pure _

private theorem parallel_join (q : CallRequest) : Parallel Twin (join q) := by
  intro t t' h
  rw [join_eq, join_eq, PageTable.pointer?_eq_of_faceless h.self.memory.faceless, h.children,
    h.level.records]
  cases t.self.table.pointer? q.arg2 with
  | none => exact .error h
  | some va =>
    have hforget : Twin (t.forget ⟨q.arg1⟩) (t'.forget ⟨q.arg1⟩) :=
      h.withChildren (·.erase ⟨q.arg1⟩)
    dsimp only
    split
    · cases hrecord : t.kernel.records.find? ⟨q.arg1⟩ with
      | none => exact .error hforget
      | some record =>
        have hreap : Twin (t.reap ⟨q.arg1⟩) (t'.reap ⟨q.arg1⟩) :=
          ⟨hforget.self, { h.level with records := congrArg (Assoc.erase · _) h.level.records }⟩
        exact parallel_learn va record.outcome _ _ hreap
    · exact .error h

theorem parallel_serve {call : CallNumber} (hhalt : call ≠ .halt) (hexit : call ≠ .exit)
    (hexec : call ≠ .exec) (q : CallRequest) : Parallel Twin (serve call q) := by
  cases call with
  | halt => exact absurd rfl hhalt
  | exit => exact absurd rfl hexit
  | exec => exact absurd rfl hexec
  | join => exact parallel_join q
  | create => exact parallel_named fun _ => parallel_onDesk _
  | openFile => exact parallel_named fun _ => parallel_onDesk _
  | read => exact parallel_readCall q (parallel_onDesk _) fun _ _ => parallel_onDesk _
  | write => exact parallel_writeCall q (parallel_onDesk _) fun _ _ => parallel_onDesk _
  | close => exact parallel_closeCall q (parallel_onDesk _)
  | unlink => exact parallel_named fun _ => parallel_onDesk _

end Turn

end PagedKernel

import PagedKernel.Kernel.Lifecycle
import PagedKernel.Proofs.Kernel.FileCalls
import PagedKernel.Proofs.Memory.Flat

/-!
# Passing arguments

A process passes arguments for a child as a row of pointers to strings in its own memory. The kernel
follows the pointers one by one, and what it finds is what the process has there. It finds all that
is there, if no string is too long.
-/

namespace PagedKernel

/-- The arguments that a process passes in a call, as they lie in its memory. -/
structure UserMemory.Passes (m : UserMemory) (q : CallRequest) (args : List String) : Prop where
  count : q.arg2.toInt = args.length
  points : m.Points q.arg3.toInt.toNat args

/-- The memory tells which arguments are passed. -/
theorem UserMemory.Passes.unique {m : UserMemory} {q : CallRequest} {args args' : List String}
    (h : m.Passes q args) (h' : m.Passes q args') : args = args' := by
  apply h.points.unique h'.points
  have hcount := h.count
  rw [h'.count] at hcount
  exact (Int.ofNat_inj.1 hcount).symm

namespace Turn

open UserMemory

variable {α β : Type} {t t' : Turn} {others : List Process} {x : Call α} {f : α → Call β}
variable {ok : α → Prop} {ok' : β → Prop}

theorem Looks.alike (h : Looks t t') : Alike t.memory t'.memory := by
  obtain ⟨seen, rfl⟩ := h
  exact Peeked.alike ⟨seen, rfl⟩

theorem Looks.framed (h : Looks t t') (hf : t.memory.Framed) : t'.memory.Framed := by
  obtain ⟨seen, rfl⟩ := h
  exact Peeked.framed ⟨seen, rfl⟩ hf

abbrev Finds (x : Call α) (t : Turn) (ok : α → Prop) : Prop :=
  Ensures x t (fun a t' => Looks t t' ∧ ok a) (fun stop t' => Looks t t' ∧ stop.IsRefusal)

private theorem Finds.pure {a : α} (h : ok a) : Finds (pure a) t ok := ⟨Looks.refl t, h⟩

private theorem Finds.bind (hx : Finds x t ok) (hf : ∀ a t', Looks t t' → ok a → Finds (f a) t' ok') :
    Finds (x >>= f) t ok' := by
  apply Ensures.bind hx
  · rintro a t' ⟨hlooks, ha⟩
    apply (hf a t' hlooks ha).mono
    · rintro b t'' ⟨hlooks', hb⟩
      exact ⟨hlooks.trans hlooks', hb⟩
    · rintro stop t'' ⟨hlooks', hstop⟩
      exact ⟨hlooks.trans hlooks', hstop⟩
  · intro stop t' h
    exact h

theorem onMemory_bind (x : EStateM (Stop Errno) UserMemory α)
    (f : α → EStateM (Stop Errno) UserMemory β) :
    onMemory (x >>= f) = onMemory x >>= fun a => onMemory (f a) := by
  funext t
  change zoom _ _ (EStateM.bind x f) t = EStateM.bind (zoom _ _ x) _ t
  simp only [zoom, EStateM.bind, onMemory]
  cases x ⟨t.self.table, t.kernel.machine.memory⟩ <;> rfl

private theorem finds_onMemory {x : EStateM (Stop Errno) UserMemory α}
    (h : Ensures x t.memory (fun a m => Peeked t.memory m ∧ ok a)
      (fun stop m => Peeked t.memory m ∧ stop.IsRefusal)) : Finds (onMemory x) t ok := by
  unfold Finds onMemory
  rw [ensures_zoom]
  apply Ensures.mono h
  · rintro a m ⟨hpeeked, ha⟩
    exact ⟨looks_of_peeked hpeeked, ha⟩
  · rintro stop m ⟨hpeeked, hstop⟩
    exact ⟨looks_of_peeked hpeeked, hstop⟩

private theorem finds_pointer (t : Turn) (r : Int32) :
    Finds (onMemory (pointer r)) t fun va => t.self.table.pointer? r = some va := by
  apply finds_onMemory
  apply (ensures_pointer r).mono
  · rintro va m ⟨rfl, hva⟩
    exact ⟨Peeked.refl _, hva⟩
  · rintro stop m ⟨rfl, rfl⟩
    exact ⟨Peeked.refl _, _, rfl⟩

private theorem finds_getString (hf : t.memory.Framed) (a most : Nat) :
    Finds (onMemory (getString a most)) t fun s => t.memory.HoldsString a s := by
  apply finds_onMemory
  apply (ensures_getString hf a most).mono
  · rintro s m ⟨⟨n, rfl⟩, hstring⟩
    exact ⟨peeked_afterRead t.memory a n, hstring⟩
  · rintro stop m ⟨⟨n, rfl⟩, hstop⟩
    exact ⟨peeked_afterRead t.memory a n, hstop⟩

private theorem finds_getWord (hf : t.memory.Framed) (a : Nat) :
    Finds (onMemory (getWord a)) t fun w => t.memory.Holds a (wordBytes w) := by
  apply finds_onMemory
  apply (ensures_getWord hf).mono
  · rintro w m ⟨hr, hw, rfl⟩
    exact ⟨peeked_afterRead t.memory a 4, holds_of_getWord hf hr hw⟩
  · rintro stop m ⟨rfl, rfl⟩
    exact ⟨Peeked.refl _, _, rfl⟩

private theorem finds_checkRange (hf : t.memory.Framed) (a length : Nat) (access : Access) :
    Finds (onMemory (checkRange a length access)) t fun _ => True :=
  finds_onMemory (peeks_checkRange a length access t.memory hf)

private theorem finds_maxStringLength : Finds maxStringLength t fun _ => True := ⟨Looks.refl t, trivial⟩

private theorem finds_stringArgument (hf : t.memory.Framed) (p : UInt32) :
    Finds (stringArgument p.toInt32) t fun s => p ≠ 0 ∧ t.memory.HoldsString p.toNat s := by
  unfold stringArgument
  apply finds_maxStringLength.bind
  intro most t₁ hlooks₁ _
  rw [onMemory_bind]
  apply (finds_pointer t₁ p.toInt32).bind
  intro va t₂ hlooks₂ hva
  have hlooks := hlooks₁.trans hlooks₂
  obtain ⟨hvalue, hpos, -⟩ := PageTable.pointer?_eq_some_iff.1 hva
  have hnonneg : 0 ≤ p.toInt32.toInt := by omega
  have hsigned : p.toInt32.toInt = p.toNat :=
    BitVec.toInt_eq_toNat_of_lt (BitVec.toInt_pos_iff.1 hnonneg)
  have hsame : va.toNat = p.toNat := by omega
  have hne : p ≠ 0 := by
    rintro rfl
    rw [hsame] at hpos
    exact absurd hpos (Nat.lt_irrefl 0)
  rw [hsame]
  apply (finds_getString (hlooks.framed hf) p.toNat most).mono
  · rintro s t₃ ⟨hlooks₃, hstring⟩
    exact ⟨hlooks₃, hne, hlooks.alike.symm.holdsString hstring⟩
  · intro stop t₃ h
    exact h

private theorem finds_stringArguments (hf : t.memory.Framed) (address count : Nat) :
    Finds (stringArguments address count) t
      fun args => args.length = count ∧ t.memory.Points address args := by
  induction count generalizing address t with
  | zero => exact Finds.pure ⟨rfl, points_nil⟩
  | succ count ih =>
    rw [stringArguments]
    apply (finds_getWord hf address).bind
    intro pointer t₁ hlooks₁ hpointer
    apply (finds_stringArgument (hlooks₁.framed hf) pointer).bind
    rintro arg t₂ hlooks₂ ⟨hne, hstring⟩
    have hlooks := hlooks₁.trans hlooks₂
    apply (ih (hlooks.framed hf) (address + ArgumentArea.pointerSize)).bind
    rintro rest t₃ _ ⟨rfl, hrest⟩
    have hfirst : t.memory.PointsTo address arg :=
      ⟨pointer, hne, hpointer, hlooks₁.alike.symm.holdsString hstring⟩
    exact Finds.pure ⟨rfl, points_cons.2 ⟨hfirst, hlooks.alike.symm.points hrest⟩⟩

theorem finds_execArguments (hf : t.memory.Framed) (q : CallRequest) :
    Finds (execArguments q) t
      fun passed => '\x00' ∉ passed.1.toList ∧ t.memory.Passes q passed.2 := by
  unfold execArguments
  apply finds_maxStringLength.bind
  intro most t₁ hlooks₁ _
  apply (finds_pointer t₁ q.arg1).bind
  intro nameVa t₂ hlooks₂ _
  have hlooks := hlooks₁.trans hlooks₂
  split
  · exact ⟨Looks.refl t₂, _, rfl⟩
  · next hr =>
    have hcount : 0 ≤ q.arg2.toInt := Int.not_lt.1 fun hlt => hr (Int32.lt_iff_toInt_lt.2 hlt)
    apply (finds_pointer t₂ q.arg3).bind
    intro argv t₃ hlooks₃ hargv
    have hlooks := hlooks.trans hlooks₃
    apply (finds_getString (hlooks.framed hf) nameVa.toNat most).bind
    intro name t₄ hlooks₄ hname
    have hlooks := hlooks.trans hlooks₄
    apply (finds_checkRange (hlooks.framed hf) argv.toNat _ .read).bind
    intro _ t₅ hlooks₅ _
    have hlooks := hlooks.trans hlooks₅
    apply (finds_stringArguments (hlooks.framed hf) argv.toNat q.arg2.toInt.toNat).bind
    rintro args t₆ _ ⟨hlength, hpoints⟩
    refine Finds.pure ⟨Text.notMem_zero_of_utf8 hname.noZero, ?_, ?_⟩
    · rw [hlength]
      exact (Int.toNat_of_nonneg hcount).symm
    · rw [← toNat_pointer hargv]
      exact hlooks.alike.symm.points hpoints

def Yields (x : Call α) (t : Turn) (v : α) : Prop := ∃ t', x t = .ok v t' ∧ Looks t t'

theorem Yields.pure (v : α) (t : Turn) : Yields (pure v) t v := ⟨t, rfl, Looks.refl t⟩

theorem Yields.bind (hx : Yields x t v)
    (hf : ∀ t', x t = .ok v t' → Looks t t' → Yields (f v) t' u) : Yields (x >>= f) t u := by
  obtain ⟨t', hv, hlooks⟩ := hx
  obtain ⟨t'', hu, hlooks'⟩ := hf t' hv hlooks
  exact ⟨t'', (bind_of_ok hv).trans hu, hlooks.trans hlooks'⟩

theorem yields_onMemory {x : EStateM (Stop Errno) UserMemory α} {m : UserMemory}
    (hx : x t.memory = .ok v m) (hpeeked : Peeked t.memory m) : Yields (onMemory x) t v := by
  refine ⟨_, ?_, looks_of_peeked hpeeked⟩
  change zoom _ _ x t = _
  have hview : x ⟨t.self.table, t.kernel.machine.memory⟩ = .ok v m := hx
  unfold zoom
  rw [hview]

theorem yields_maxStringLength (t : Turn) :
    Yields maxStringLength t t.kernel.machine.config.maxStringLength := ⟨t, rfl, Looks.refl t⟩

theorem yields_pointer {r : Int32} {va : VirtualAddress} (h : t.self.table.pointer? r = some va) :
    Yields (onMemory (pointer r)) t va := yields_onMemory (pointer_eq h) (Peeked.refl _)

theorem yields_checkRange {a length : Nat} {access : Access}
    (h : t.memory.rangeOk a length access = true) :
    Yields (onMemory (checkRange a length access)) t () := by
  apply yields_onMemory (m := t.memory) _ (Peeked.refl _)
  rw [checkRange_eq, if_pos h]

private theorem yields_getString {a most : Nat} {s : String} (hf : t.memory.Framed)
    (h : t.memory.HoldsString a s) (hmost : (Text.utf8 s).length ≤ most) :
    Yields (onMemory (getString a most)) t s :=
  yields_onMemory (getString_eq hf h hmost) (peeked_afterRead ..)

private theorem yields_getWord {a : Nat} {w : UInt32} (hf : t.memory.Framed)
    (hsize : t.self.table.size ≤ 2 ^ 31) (h : t.memory.Holds a (wordBytes w)) :
    Yields (onMemory (getWord a)) t w := by
  have hlast := (h 3 (by rw [length_wordBytes]; decide)).1
  have hinside : a + 3 < t.self.table.size := (PageTable.movable_iff.2 hlast).inside
  have hlimit : a + 4 ≤ addressLimit := by
    simp only [addressLimit]
    omega
  exact yields_onMemory (getWord_eq hf hlimit h) (peeked_afterRead t.memory a 4)

def Short (t : Turn) (s : String) : Prop :=
  (Text.utf8 s).length ≤ t.kernel.machine.config.maxStringLength

private theorem Looks.short {s : String} (h : Looks t t') (hs : t.Short s) : t'.Short s := by
  obtain ⟨seen, rfl⟩ := h
  exact hs

private theorem Looks.size (h : Looks t t') : t'.self.table.size = t.self.table.size := by
  obtain ⟨seen, rfl⟩ := h
  simp [PageTable.size, PageTable.length, PageTable.marked]

theorem Looks.pointer? {r : Int32} {va : VirtualAddress} (h : Looks t t')
    (hva : t.self.table.pointer? r = some va) : t'.self.table.pointer? r = some va := by
  rw [PageTable.pointer?_eq_some_iff] at hva ⊢
  rwa [h.size]

private theorem yields_stringArgument {p : UInt32} {s : String} (hf : t.memory.Framed)
    (hsize : t.self.table.size ≤ 2 ^ 31) (hne : p ≠ 0) (h : t.memory.HoldsString p.toNat s)
    (hshort : t.Short s) : Yields (stringArgument p.toInt32) t s := by
  have hfirst := (h.bytes 0 (by simp [ArgumentArea.terminated])).1
  have hinside : p.toNat < t.self.table.size := (PageTable.movable_iff.2 hfirst).inside
  obtain ⟨va, hva, hsame⟩ := PageTable.exists_pointer?_eq hsize hne hinside
  unfold stringArgument
  apply (yields_maxStringLength t).bind
  intro t₁ hsame₁ _
  cases hsame₁
  rw [onMemory_bind]
  apply (yields_pointer hva).bind
  intro t₂ _ hlooks₂
  rw [hsame]
  exact yields_getString (hlooks₂.framed hf) (hlooks₂.alike.holdsString h) hshort

private theorem yields_stringArguments {address : Nat} {args : List String} (hf : t.memory.Framed)
    (hsize : t.self.table.size ≤ 2 ^ 31) (h : t.memory.Points address args)
    (hshort : ∀ arg ∈ args, t.Short arg) :
    Yields (stringArguments address args.length) t args := by
  induction args generalizing address t with
  | nil => exact Yields.pure [] t
  | cons arg rest ih =>
    obtain ⟨⟨pointer, hne, hpointer, hstring⟩, hrest⟩ := points_cons.1 h
    obtain ⟨hfirst, hothers⟩ := List.forall_mem_cons.1 hshort
    rw [List.length_cons, stringArguments]
    apply (yields_getWord hf hsize hpointer).bind
    intro t₁ _ hlooks₁
    have hargument : Yields (stringArgument pointer.toInt32) t₁ arg := by
      apply yields_stringArgument (hlooks₁.framed hf) _ hne (hlooks₁.alike.holdsString hstring)
      · exact hlooks₁.short hfirst
      · rwa [hlooks₁.size]
    apply hargument.bind
    intro t₂ _ hlooks₂
    have hlooks := hlooks₁.trans hlooks₂
    have hlater : Yields (stringArguments (address + ArgumentArea.pointerSize) rest.length) t₂
        rest := by
      apply ih (hlooks.framed hf) _ (hlooks.alike.points hrest)
      · intro arg' harg'
        exact hlooks.short (hothers arg' harg')
      · rwa [hlooks.size]
    apply hlater.bind
    intro t₃ _ _
    exact Yields.pure (arg :: rest) t₃

private theorem points_le_limit {argv : VirtualAddress} {args : List String}
    (hsize : t.self.table.size ≤ 2 ^ 31) (h : t.memory.Points argv.toNat args) :
    argv.toNat + args.length * ArgumentArea.pointerSize ≤ addressLimit := by
  rcases Nat.eq_zero_or_pos (args.length * ArgumentArea.pointerSize) with hzero | hpos
  · rw [hzero]
    exact argv.le_limit
  · have hread := h.permits (Nat.sub_lt hpos Nat.one_pos)
    have hinside := (PageTable.movable_iff.2 hread).inside
    simp only [Turn.memory, addressLimit] at *
    omega

theorem yields_execArguments {q : CallRequest} {nameVa argv : VirtualAddress} {name : String}
    {args : List String} (hf : t.memory.Framed) (hsize : t.self.table.size ≤ 2 ^ 31)
    (hnameVa : t.self.table.pointer? q.arg1 = some nameVa)
    (hname : t.memory.HoldsString nameVa.toNat name)
    (hargv : t.self.table.pointer? q.arg3 = some argv) (hpasses : t.memory.Passes q args)
    (hshort : ∀ s ∈ name :: args, t.Short s) : Yields (execArguments q) t (name, args) := by
  obtain ⟨hfirst, hothers⟩ := List.forall_mem_cons.1 hshort
  have hcount : ¬ q.arg2 < 0 := by
    intro hlt
    have hneg : q.arg2.toInt < 0 := Int32.lt_iff_toInt_lt.1 hlt
    rw [hpasses.count] at hneg
    omega
  have hargc : q.arg2.toInt.toNat = args.length := by
    rw [hpasses.count]
    exact Int.toNat_natCast _
  have hpoints : t.memory.Points argv.toNat args := by
    have hstart := hpasses.points
    rwa [← toNat_pointer hargv, Int.toNat_natCast] at hstart
  unfold execArguments
  apply (yields_maxStringLength t).bind
  intro t₁ hsame₁ _
  cases hsame₁
  apply (yields_pointer hnameVa).bind
  intro t₁ _ hlooks₁
  split
  · next hr => exact absurd hr hcount
  · rw [hargc]
    apply (yields_pointer (hlooks₁.pointer? hargv)).bind
    intro t₂ _ hlooks₂
    have hlooks := hlooks₁.trans hlooks₂
    apply (yields_getString (hlooks.framed hf) (hlooks.alike.holdsString hname) hfirst).bind
    intro t₃ _ hlooks₃
    have hlooks := hlooks.trans hlooks₃
    have hrange : t₃.memory.rangeOk argv.toNat (args.length * ArgumentArea.pointerSize) .read =
        true :=
      rangeOk_iff.2 ⟨points_le_limit hsize hpoints, fun i hi =>
        (hlooks.alike.points hpoints).permits hi⟩
    apply (yields_checkRange hrange).bind
    intro t₄ _ hlooks₄
    have hlooks := hlooks.trans hlooks₄
    have hargs : Yields (stringArguments argv.toNat args.length) t₄ args := by
      apply yields_stringArguments (hlooks.framed hf) _ (hlooks.alike.points hpoints)
      · intro arg harg
        exact hlooks.short (hothers arg harg)
      · rwa [hlooks.size]
    apply hargs.bind
    intro t₅ _ _
    exact Yields.pure (name, args) t₅

/-- An exec that finds what is passed creates the child, if the kernel can. -/
theorem exists_exec_eq {q : CallRequest} {name : String} {args : List String} {pid : Pid}
    {k : Kernel} (hargs : Yields (execArguments q) t (name, args))
    (hspawn : Kernel.spawn name args t.kernel = .ok pid k) :
    ∃ t', exec q t = .ok pid.toNat t' := by
  obtain ⟨t₁, hfound, hlooks⟩ := hargs
  have hkernel : t₁.kernel = t.kernel := by
    obtain ⟨seen, rfl⟩ := hlooks
    rfl
  have hchild : onKernel (Kernel.spawn name args) t₁ = .ok pid { t₁ with kernel := k } := by
    rw [onKernel, zoom, hkernel, hspawn]
  refine ⟨⟨k, { t₁.self with children := pid.insert t₁.self.children }⟩, Ensures.eq_ok ?_⟩
  unfold exec
  rw [ensures_bind, ensures_of_ok hfound, ensures_bind, ensures_of_ok hchild, ensures_bind,
    modifySelf, ensures_modify, ensures_pure]
  exact ⟨rfl, rfl⟩

end Turn

end PagedKernel

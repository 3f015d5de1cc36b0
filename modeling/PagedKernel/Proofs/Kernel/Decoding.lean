import PagedKernel.Proofs.Kernel.Accessors
import PagedKernel.Proofs.Kernel.Arguments
import PagedKernel.Proofs.Memory.Spelling

/-!
# What an exec takes from the memory of its caller

A program passes a pointer to a name, a count, and a pointer to a row of pointers. Each of them may be
wrong in its own way. The kernel looks at them in a fixed order, and the first that is wrong decides
how the call fails. If none is wrong, a child is created with the strings that are there.
-/

namespace PagedKernel

namespace UserMemory

variable {m m' : UserMemory} {a argv argc most n : Nat} {p : Int32} {e : Errno} {q : CallRequest}
variable {r r' : Except Errno String} {rs : Except Errno (List String)}

/-- What a reader finds behind a pointer. -/
inductive Leads (m : UserMemory) (most : Nat) (p : Int32) : Except Errno String → Prop
  | astray (hp : m.table.pointer? p = none) : Leads m most p (.error .badAddress)
  | there {va : VirtualAddress} {r : Except Errno String} (hp : m.table.pointer? p = some va)
      (hr : m.Spells va.toNat most r) : Leads m most p r

def pointerAt (m : UserMemory) (a i : Nat) : Int32 :=
  (wordOfBytes (m.bytesAt (a + ArgumentArea.pointerSize * i) ArgumentArea.pointerSize)).toInt32

/-- What a reader finds that follows `count` pointers in their order, up to the first that does not
lead to a string. -/
inductive LeadAll (m : UserMemory) (most a count : Nat) : Except Errno (List String) → Prop
  | strings {args : List String} (hlength : args.length = count)
      (hargs : ∀ i arg, args[i]? = some arg → m.Leads most (m.pointerAt a i) (.ok arg)) :
      LeadAll m most a count (.ok args)
  | refused {i : Nat} {e : Errno} (hi : i < count)
      (hbefore : ∀ j < i, ∃ arg, m.Leads most (m.pointerAt a j) (.ok arg))
      (he : m.Leads most (m.pointerAt a i) (.error e)) : LeadAll m most a count (.error e)

/-- What a call passes for a child: a name and its arguments, or the error of what is wrong first. -/
inductive Conveys (m : UserMemory) (most : Nat) (q : CallRequest) :
    Except Errno (String × List String) → Prop
  | noName (hname : m.table.pointer? q.arg1 = none) : Conveys m most q (.error .badAddress)
  | negative {nameVa : VirtualAddress} (hname : m.table.pointer? q.arg1 = some nameVa)
      (hcount : q.arg2.toInt < 0) : Conveys m most q (.error .invalidArgument)
  | noArray {nameVa : VirtualAddress} (hname : m.table.pointer? q.arg1 = some nameVa)
      (hcount : 0 ≤ q.arg2.toInt) (harray : m.table.pointer? q.arg3 = none) :
      Conveys m most q (.error .badAddress)
  | badName {nameVa argv : VirtualAddress} {e : Errno}
      (hname : m.table.pointer? q.arg1 = some nameVa) (hcount : 0 ≤ q.arg2.toInt)
      (harray : m.table.pointer? q.arg3 = some argv) (he : m.Spells nameVa.toNat most (.error e)) :
      Conveys m most q (.error e)
  | badArray {nameVa argv : VirtualAddress} {name : String}
      (hname : m.table.pointer? q.arg1 = some nameVa) (hcount : 0 ≤ q.arg2.toInt)
      (harray : m.table.pointer? q.arg3 = some argv) (hspells : m.Spells nameVa.toNat most (.ok name))
      (hgrants : ¬ m.table.Grants .read argv.toNat
        (q.arg2.toInt.toNat * ArgumentArea.pointerSize)) :
      Conveys m most q (.error .badAddress)
  | badArgument {nameVa argv : VirtualAddress} {name : String} {e : Errno}
      (hname : m.table.pointer? q.arg1 = some nameVa) (hcount : 0 ≤ q.arg2.toInt)
      (harray : m.table.pointer? q.arg3 = some argv) (hspells : m.Spells nameVa.toNat most (.ok name))
      (hgrants : m.table.Grants .read argv.toNat (q.arg2.toInt.toNat * ArgumentArea.pointerSize))
      (he : m.LeadAll most argv.toNat q.arg2.toInt.toNat (.error e)) : Conveys m most q (.error e)
  | whole {nameVa argv : VirtualAddress} {name : String} {args : List String}
      (hname : m.table.pointer? q.arg1 = some nameVa) (hcount : 0 ≤ q.arg2.toInt)
      (harray : m.table.pointer? q.arg3 = some argv) (hspells : m.Spells nameVa.toNat most (.ok name))
      (hgrants : m.table.Grants .read argv.toNat (q.arg2.toInt.toNat * ArgumentArea.pointerSize))
      (hargs : m.LeadAll most argv.toNat q.arg2.toInt.toNat (.ok args)) :
      Conveys m most q (.ok (name, args))

private theorem exists_spells (hf : m.Framed) (a most : Nat) : ∃ r, m.Spells a most r := by
  obtain ⟨r, hr, -⟩ := spells_getString hf a most
  exact ⟨r, hr⟩

private theorem exists_leads (hf : m.Framed) (most : Nat) (p : Int32) : ∃ r, m.Leads most p r := by
  cases hp : m.table.pointer? p with
  | none => exact ⟨_, .astray hp⟩
  | some va =>
    obtain ⟨r, hr⟩ := exists_spells hf va.toNat most
    exact ⟨r, .there hp hr⟩

private theorem LeadAll.snoc {args : List String} (h : m.LeadAll most a n (.ok args))
    (hr : m.Leads most (m.pointerAt a n) r) :
    m.LeadAll most a (n + 1) (r.map fun arg => args ++ [arg]) := by
  cases h with
  | strings hlength hargs =>
    subst hlength
    cases r with
    | error e =>
      exact .refused (Nat.lt_succ_self _)
        (fun j hj => ⟨_, hargs j _ (List.getElem?_eq_getElem hj)⟩) hr
    | ok arg =>
      refine .strings (by simp) fun i s hs => ?_
      rcases Nat.lt_trichotomy i args.length with hi | rfl | hi
      · rw [List.getElem?_append_left hi] at hs
        exact hargs i s hs
      · rw [List.getElem?_concat_length, Option.some.injEq] at hs
        exact hs ▸ hr
      · rw [List.getElem?_eq_none (by simp; omega)] at hs
        cases hs

private theorem exists_leadAll (hf : m.Framed) (most a count : Nat) :
    ∃ rs, m.LeadAll most a count rs := by
  induction count with
  | zero => exact ⟨.ok [], .strings rfl fun i arg h => by simp at h⟩
  | succ count ih =>
    obtain ⟨rs, hrs⟩ := ih
    cases rs with
    | error e =>
      cases hrs with
      | refused hi hbefore he => exact ⟨_, .refused (Nat.lt_succ_of_lt hi) hbefore he⟩
    | ok args =>
      obtain ⟨r, hr⟩ := exists_leads hf most (m.pointerAt a count)
      exact ⟨_, hrs.snoc hr⟩

theorem exists_conveys (hf : m.Framed) (most : Nat) (q : CallRequest) :
    ∃ r, m.Conveys most q r := by
  cases hname : m.table.pointer? q.arg1 with
  | none => exact ⟨_, .noName hname⟩
  | some nameVa =>
    rcases Int.lt_or_le q.arg2.toInt 0 with hcount | hcount
    · exact ⟨_, .negative hname hcount⟩
    cases harray : m.table.pointer? q.arg3 with
    | none => exact ⟨_, .noArray hname hcount harray⟩
    | some argv =>
      obtain ⟨r, hr⟩ := exists_spells hf nameVa.toNat most
      cases r with
      | error e => exact ⟨_, .badName hname hcount harray hr⟩
      | ok name =>
        by_cases hgrants : m.table.Grants .read argv.toNat
            (q.arg2.toInt.toNat * ArgumentArea.pointerSize)
        · obtain ⟨rs, hrs⟩ := exists_leadAll hf most argv.toNat q.arg2.toInt.toNat
          cases rs with
          | error e => exact ⟨_, .badArgument hname hcount harray hr hgrants hrs⟩
          | ok args => exact ⟨_, .whole hname hcount harray hr hgrants hrs⟩
        · exact ⟨_, .badArray hname hcount harray hr hgrants⟩

private theorem Alike.pointer? (h : Alike m m') (p : Int32) :
    m'.table.pointer? p = m.table.pointer? p := by
  have hlength : m'.table.length = m.table.length := PageTable.length_congr h.mapping
  simp only [PageTable.pointer?, hlength]

private theorem Alike.pointerAt (h : Alike m m') (a i : Nat) : m'.pointerAt a i = m.pointerAt a i := by
  rw [UserMemory.pointerAt, bytesAt_congr fun _ _ => h.byte _, UserMemory.pointerAt]

private theorem Alike.leads (h : Alike m m') (hr : m.Leads most p r) : m'.Leads most p r := by
  cases hr with
  | astray hp => exact .astray ((h.pointer? p).trans hp)
  | there hp hr => exact .there ((h.pointer? p).trans hp) (h.spells hr)

private theorem Alike.leadAll (h : Alike m m') (hrs : m.LeadAll most a n rs) :
    m'.LeadAll most a n rs := by
  cases hrs with
  | strings hlength hargs =>
    refine .strings hlength fun i arg hi => ?_
    rw [h.pointerAt]
    exact h.leads (hargs i arg hi)
  | refused hi hbefore he =>
    refine .refused hi (fun j hj => ?_) ?_
    · rw [h.pointerAt]
      obtain ⟨arg, harg⟩ := hbefore j hj
      exact ⟨arg, h.leads harg⟩
    · rw [h.pointerAt]
      exact h.leads he

theorem Alike.conveys {passed : String × List String} (h : Alike m m')
    (hpassed : m.Conveys most q (.ok passed)) : m'.Conveys most q (.ok passed) := by
  cases hpassed with
  | whole hname hcount harray hspells hgrants hargs =>
    exact .whole ((h.pointer? _).trans hname) hcount ((h.pointer? _).trans harray)
      (h.spells hspells) (hgrants.congr h.mapping) (h.leadAll hargs)

private theorem LeadAll.uncons (h : m.LeadAll most a (n + 1) rs) :
    (∃ e, rs = .error e ∧ m.Leads most (m.pointerAt a 0) (.error e)) ∨
    ∃ arg rest, rs = rest.map (arg :: ·) ∧ m.Leads most (m.pointerAt a 0) (.ok arg) ∧
      m.LeadAll most (a + ArgumentArea.pointerSize) n rest := by
  have hnext : ∀ i, m.pointerAt a (i + 1) = m.pointerAt (a + ArgumentArea.pointerSize) i := by
    intro i
    rw [pointerAt, pointerAt, Nat.mul_succ, Nat.add_assoc,
      Nat.add_comm (ArgumentArea.pointerSize * i)]
  cases h with
  | @strings args hlength hargs =>
    cases args with
    | nil => cases hlength
    | cons arg rest =>
      refine .inr ⟨arg, .ok rest, rfl, hargs 0 arg rfl,
        .strings (Nat.succ_inj.1 hlength) fun i s hs => ?_⟩
      rw [← hnext]
      exact hargs (i + 1) s hs
  | @refused i e hi hbefore he =>
    cases i with
    | zero => exact .inl ⟨e, rfl, he⟩
    | succ i =>
      obtain ⟨arg, harg⟩ := hbefore 0 (Nat.succ_pos i)
      refine .inr ⟨arg, .error e, rfl, harg,
        .refused (Nat.lt_of_succ_lt_succ hi) (fun j hj => ?_) (hnext i ▸ he)⟩
      rw [← hnext]
      exact hbefore (j + 1) (Nat.succ_lt_succ hj)

end UserMemory

def answered {ε σ α : Type} (r : Except ε α) (s : σ) : EStateM.Result (Stop ε) σ α :=
  match r with
  | .ok v => .ok v s
  | .error e => .error (.refused e) s

theorem attempt_eq_ok_iff {ε σ α : Type} {x : EStateM (Stop ε) σ α} {r : Except ε α} {s t : σ} :
    attempt x s = .ok r t ↔ x s = answered r t := by
  unfold attempt
  rcases x s with ⟨v, u⟩ | ⟨e | _ | _ | _, u⟩ <;> cases r <;> simp [answered]

namespace Turn

open UserMemory

variable {α β : Type} {t t' : Turn} {x : Call α} {f : α → Call β} {v : α} {e : Errno}
variable {r : Except Errno α} {u : Except Errno β} {most a n : Nat} {p : Int32} {q : CallRequest}
variable {nameVa argv : VirtualAddress}

/-- The computation only looks at the memory of the process, and comes to a value or to a refusal. -/
def Tells (x : Call α) (t : Turn) (r : Except Errno α) : Prop :=
  ∃ t', x t = answered r t' ∧ Looks t t'

private theorem Yields.tells (h : Yields x t v) : Tells x t (.ok v) := h

private theorem Yields.bind_tells (hx : Yields x t v) (hf : ∀ t', Looks t t' → Tells (f v) t' u) :
    Tells (x >>= f) t u := by
  obtain ⟨t₁, hv, hlooks⟩ := hx
  obtain ⟨t₂, hu, hlooks'⟩ := hf t₁ hlooks
  exact ⟨t₂, (bind_of_ok hv).trans hu, hlooks.trans hlooks'⟩

private theorem Tells.bind_error (hx : Tells x t (.error e)) : Tells (x >>= f) t (.error e) := by
  obtain ⟨t₁, hstop, hlooks⟩ := hx
  exact ⟨t₁, bind_of_error hstop, hlooks⟩

private theorem Tells.map (hx : Tells x t r) (f : α → β) :
    Tells (x >>= fun v => pure (f v)) t (r.map f) := by
  cases r with
  | ok v => exact Yields.bind_tells hx fun t' _ => Yields.pure (f v) t'
  | error e => exact hx.bind_error

theorem Tells.unique {r' : Except Errno α} (h : Tells x t r) (h' : Tells x t r') : r = r' := by
  obtain ⟨t₁, hx, -⟩ := h
  obtain ⟨t₂, hx', -⟩ := h'
  rw [hx] at hx'
  cases r <;> cases r' <;> cases hx' <;> rfl

private theorem Looks.kernel (h : Looks t t') : t'.kernel = t.kernel := by
  obtain ⟨seen, rfl⟩ := h
  rfl

private theorem Looks.grants (h : Looks t t') {access : Access}
    (hgrants : t.self.table.Grants access a n) : t'.self.table.Grants access a n :=
  hgrants.congr h.alike.mapping

private theorem tells_onMemory {x : EStateM (Stop Errno) UserMemory α} {m : UserMemory}
    (hx : x t.memory = answered r m) (hpeeked : Peeked t.memory m) : Tells (onMemory x) t r := by
  refine ⟨_, ?_, looks_of_peeked hpeeked⟩
  have hview : x ⟨t.self.table, t.kernel.machine.memory⟩ = answered r m := hx
  rw [onMemory, zoom, hview]
  cases r <;> rfl

private theorem tells_pointer_of_none (hp : t.self.table.pointer? p = none) :
    Tells (onMemory (pointer p)) t (.error .badAddress) :=
  ⟨t, by rw [onMemory_pointer, hp]; rfl, Looks.refl t⟩

private theorem tells_getString {r : Except Errno String} (hf : t.memory.Framed)
    (h : t.memory.Spells a most r) : Tells (onMemory (getString a most)) t r := by
  obtain ⟨r', hr', hget⟩ := spells_getString hf a most
  obtain rfl := h.unique hr'
  exact tells_onMemory (attempt_eq_ok_iff.1 hget) (peeked_afterRead ..)

private theorem yields_getWord_of_grants (hf : t.memory.Framed)
    (h : t.self.table.Grants .read a ArgumentArea.pointerSize) :
    Yields (onMemory (getWord a)) t
      (wordOfBytes (t.memory.bytesAt a ArgumentArea.pointerSize)) := by
  have hget := getBytes_of_grants hf h
  exact yields_onMemory (bind_of_ok hget) (peeked_afterRead t.memory a ArgumentArea.pointerSize)

private theorem tells_stringArgument {r : Except Errno String} (hf : t.memory.Framed)
    (h : t.memory.Leads t.kernel.machine.config.maxStringLength p r) :
    Tells (stringArgument p) t r := by
  unfold stringArgument
  refine (yields_maxStringLength t).bind_tells fun t₁ hlooks => ?_
  have hleads := hlooks.alike.leads h
  rw [onMemory_bind]
  cases hleads with
  | astray hp => exact (tells_pointer_of_none hp).bind_error
  | there hp hr =>
    refine (yields_pointer hp).bind_tells fun t₂ hlooks' => ?_
    exact tells_getString ((hlooks.trans hlooks').framed hf) (hlooks'.alike.spells hr)

/-- The kernel finds what the pointers lead to, one after another. -/
theorem tells_stringArguments {rs : Except Errno (List String)} (hf : t.memory.Framed)
    (hgrants : t.self.table.Grants .read a (n * ArgumentArea.pointerSize))
    (h : t.memory.LeadAll t.kernel.machine.config.maxStringLength a n rs) :
    Tells (stringArguments a n) t rs := by
  induction n generalizing a t rs with
  | zero =>
    cases h with
    | strings hlength _ =>
      obtain rfl := List.length_eq_zero_iff.1 hlength
      exact Yields.pure [] t
    | refused hi _ _ => exact absurd hi (Nat.not_lt_zero _)
  | succ n ih =>
    have hfirst : t.self.table.Grants .read a ArgumentArea.pointerSize :=
      hgrants.part (Nat.le_refl a) (by rw [Nat.succ_mul]; omega)
    have hlater : t.self.table.Grants .read (a + ArgumentArea.pointerSize)
        (n * ArgumentArea.pointerSize) :=
      hgrants.part (Nat.le_add_right ..) (by rw [Nat.succ_mul]; omega)
    rw [stringArguments]
    refine (yields_getWord_of_grants hf hfirst).bind_tells fun t₁ hlooks₁ => ?_
    obtain ⟨e, rfl, hleads⟩ | ⟨arg, rest, rfl, hleads, hrest⟩ := h.uncons
    · rw [← hlooks₁.kernel] at hleads
      exact (tells_stringArgument (hlooks₁.framed hf) (hlooks₁.alike.leads hleads)).bind_error
    · have hargument : Yields (stringArgument (t.memory.pointerAt a 0)) t₁ arg := by
        rw [← hlooks₁.kernel] at hleads
        exact tells_stringArgument (hlooks₁.framed hf) (hlooks₁.alike.leads hleads)
      refine hargument.bind_tells fun t₂ hlooks₂ => ?_
      have hlooks := hlooks₁.trans hlooks₂
      rw [← hlooks.kernel] at hrest
      have hothers := ih (hlooks.framed hf) (hlooks.grants hlater) (hlooks.alike.leadAll hrest)
      exact hothers.map (arg :: ·)

def argumentsFrom (most : Nat) (nameVa argv : VirtualAddress) (argc : Nat) :
    Call (String × List String) := do
  let name ← onMemory (getString nameVa.toNat most)
  onMemory (checkRange argv.toNat (argc * ArgumentArea.pointerSize) .read)
  let args ← stringArguments argv.toNat argc
  return (name, args)

private theorem tells_argumentsFrom {name : String} {rs : Except Errno (List String)}
    (hf : t.memory.Framed)
    (hname : t.memory.Spells nameVa.toNat t.kernel.machine.config.maxStringLength (.ok name))
    (hgrants : t.self.table.Grants .read argv.toNat (n * ArgumentArea.pointerSize))
    (hargs : t.memory.LeadAll t.kernel.machine.config.maxStringLength argv.toNat n rs) :
    Tells (argumentsFrom t.kernel.machine.config.maxStringLength nameVa argv n) t
      (rs.map fun args => (name, args)) := by
  refine Yields.bind_tells (tells_getString hf hname) fun t₁ hlooks₁ => ?_
  have hrange := rangeOk_iff_grants (m := t₁.memory).2 (hlooks₁.grants hgrants)
  refine (yields_checkRange hrange).bind_tells fun t₂ hlooks₂ => ?_
  have hlooks := hlooks₁.trans hlooks₂
  rw [← hlooks.kernel] at hargs
  have hstrings := tells_stringArguments (hlooks.framed hf) (hlooks.grants hgrants)
    (hlooks.alike.leadAll hargs)
  exact hstrings.map fun args => (name, args)

private theorem tells_argumentsFrom_of_not_grants {name : String} (hf : t.memory.Framed)
    (hname : t.memory.Spells nameVa.toNat most (.ok name))
    (hgrants : ¬ t.self.table.Grants .read argv.toNat (n * ArgumentArea.pointerSize)) :
    Tells (argumentsFrom most nameVa argv n) t (.error .badAddress) := by
  refine Yields.bind_tells (tells_getString hf hname) fun t₁ hlooks => ?_
  have hgrants₁ : ¬ t₁.self.table.Grants .read argv.toNat (n * ArgumentArea.pointerSize) :=
    fun h => hgrants (h.congr hlooks.alike.symm.mapping)
  refine Tells.bind_error (tells_onMemory ?_ (Peeked.refl _))
  rw [checkRange_eq, if_neg (rangeOk_iff_grants.not.2 hgrants₁)]
  rfl

private theorem tells_execArguments_of_pointers {r : Except Errno (String × List String)}
    (hname : t.self.table.pointer? q.arg1 = some nameVa) (hcount : 0 ≤ q.arg2.toInt)
    (harray : t.self.table.pointer? q.arg3 = some argv)
    (hrest : ∀ t', Looks t t' → Tells (argumentsFrom t.kernel.machine.config.maxStringLength nameVa
      argv q.arg2.toInt.toNat) t' r) : Tells (execArguments q) t r := by
  unfold execArguments
  refine (yields_maxStringLength t).bind_tells fun t₁ hlooks₁ => ?_
  refine (yields_pointer (hlooks₁.pointer? hname)).bind_tells fun t₂ hlooks₂ => ?_
  have hlooks := hlooks₁.trans hlooks₂
  rw [if_neg fun hlt => Int.not_lt.2 hcount (Int32.lt_iff_toInt_lt.1 hlt)]
  refine (yields_pointer (hlooks.pointer? harray)).bind_tells fun t₃ hlooks₃ => ?_
  exact hrest t₃ (hlooks.trans hlooks₃)

/-- An exec takes from the memory what the call passes. -/
theorem tells_execArguments {r : Except Errno (String × List String)} (hf : t.memory.Framed)
    (h : t.memory.Conveys t.kernel.machine.config.maxStringLength q r) :
    Tells (execArguments q) t r := by
  cases h with
  | noName hname =>
    unfold execArguments
    refine (yields_maxStringLength t).bind_tells fun t₁ hlooks => ?_
    exact (tells_pointer_of_none ((hlooks.alike.pointer? _).trans hname)).bind_error
  | negative hname hcount =>
    unfold execArguments
    refine (yields_maxStringLength t).bind_tells fun t₁ hlooks => ?_
    refine (yields_pointer (hlooks.pointer? hname)).bind_tells fun t₂ _ => ?_
    rw [if_pos (Int32.lt_iff_toInt_lt.2 hcount)]
    exact ⟨t₂, rfl, Looks.refl t₂⟩
  | noArray hname hcount harray =>
    unfold execArguments
    refine (yields_maxStringLength t).bind_tells fun t₁ hlooks₁ => ?_
    refine (yields_pointer (hlooks₁.pointer? hname)).bind_tells fun t₂ hlooks₂ => ?_
    have halike := (hlooks₁.trans hlooks₂).alike
    rw [if_neg fun hlt => Int.not_lt.2 hcount (Int32.lt_iff_toInt_lt.1 hlt)]
    exact (tells_pointer_of_none ((halike.pointer? _).trans harray)).bind_error
  | badName hname hcount harray he =>
    refine tells_execArguments_of_pointers hname hcount harray fun t₁ hlooks => ?_
    exact (tells_getString (hlooks.framed hf) (hlooks.alike.spells he)).bind_error
  | badArray hname hcount harray hspells hgrants =>
    refine tells_execArguments_of_pointers hname hcount harray fun t₁ hlooks => ?_
    exact tells_argumentsFrom_of_not_grants (hlooks.framed hf) (hlooks.alike.spells hspells)
      fun h => hgrants (h.congr hlooks.alike.symm.mapping)
  | badArgument hname hcount harray hspells hgrants he =>
    refine tells_execArguments_of_pointers hname hcount harray fun t₁ hlooks => ?_
    rw [← hlooks.kernel] at hspells he ⊢
    exact tells_argumentsFrom (hlooks.framed hf) (hlooks.alike.spells hspells)
      (hlooks.grants hgrants) (hlooks.alike.leadAll he)
  | whole hname hcount harray hspells hgrants hargs =>
    refine tells_execArguments_of_pointers hname hcount harray fun t₁ hlooks => ?_
    rw [← hlooks.kernel] at hspells hargs ⊢
    exact tells_argumentsFrom (hlooks.framed hf) (hlooks.alike.spells hspells)
      (hlooks.grants hgrants) (hlooks.alike.leadAll hargs)

end Turn

end PagedKernel

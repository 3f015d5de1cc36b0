import Mathlib.Data.List.Perm.Basic
import PagedKernel.Proofs.Memory.Checked
import PagedKernel.Proofs.Memory.Pages

/-!
# Address spaces that share a pool

Any number of address spaces take frames from one pool. Whatever is done to them in whatever order,
no frame is in two places: it is free, or one entry of one table names it.
-/

namespace PagedKernel

/-- What can be done to an address space. -/
inductive SpaceCall where
  | map (regions : List Region)
  | release
  | translate (va : VirtualAddress) (access : Access)
  | readMemory (address length : Nat)
  | writeMemory (address : Nat) (data : Bytes)
  | getBytes (address length : Nat)
  | putBytes (address : Nat) (data : Bytes)
  | getWord (address : Nat)
  | putWord (address : Nat) (w : UInt32)
  | getString (address most : Nat)
  | adjust (va : VirtualAddress) (add remove : Flags)

namespace SpaceCall

def onTable {α : Type} (f : PageTable → Except MappingError (α × PageTable)) :
    EStateM (Stop Errno) AddressSpace Unit :=
  modify fun s => match f s.table with
    | .ok (_, table) => { s with table }
    | .error _ => s

def run : SpaceCall → EStateM (Stop Errno) AddressSpace Unit
  | map regions => do let _ ← AddressSpace.map regions
  | release => do let _ ← AddressSpace.release
  | translate va access => onTable fun t => t.translate va access
  | readMemory address length => do
    let _ ← AddressSpace.onMemory (UserMemory.fetch address length)
  | writeMemory address data => do let _ ← AddressSpace.onMemory (UserMemory.store address data)
  | getBytes address length => do
    let _ ← AddressSpace.onMemory (UserMemory.getBytes address length)
  | putBytes address data => do let _ ← AddressSpace.onMemory (UserMemory.putBytes address data)
  | getWord address => do let _ ← AddressSpace.onMemory (UserMemory.getWord address)
  | putWord address w => do let _ ← AddressSpace.onMemory (UserMemory.putWord address w)
  | getString address most => do
    let _ ← AddressSpace.onMemory (UserMemory.getString address most)
  | adjust va add remove => onTable fun t => t.adjust va add remove

def Clears (t : PageTable) : SpaceCall → Prop
  | adjust va _ remove => remove.valid = true ∧ ∃ e, t.walk va = .ok e
  | _ => False

end SpaceCall

/-- Address spaces on one machine, and the rules that were broken so far. -/
structure Spaces where
  machine : Machine
  tables : List PageTable := []
  faults : List Fault := []

/-- A new address space, the end of one, or something done to one. -/
inductive SpaceStep where
  | create
  | drop (i : Nat)
  | call (i : Nat) (c : SpaceCall)

namespace Spaces

def start (machine : Machine) (n : Nat) : Spaces :=
  { machine := { machine with pool := FramePool.full n } }

def work (s : Spaces) (t : PageTable) (x : EStateM (Stop Errno) AddressSpace Unit)
    (tables : PageTable → List PageTable) : Spaces :=
  match x ⟨s.machine, t⟩ with
  | .ok _ a => ⟨a.machine, tables a.table, s.faults⟩
  | .error stop a => ⟨a.machine, tables a.table, stop.fault?.toList ++ s.faults⟩

def apply (s : Spaces) : SpaceStep → Spaces
  | .create => { s with tables := s.tables ++ [{}] }
  | .drop i =>
    match s.tables[i]? with
    | none => s
    | some t => s.work t SpaceCall.release.run fun _ => s.tables.eraseIdx i
  | .call i c =>
    match s.tables[i]? with
    | none => s
    | some t => s.work t c.run fun t => s.tables.set i t

def run (s : Spaces) (steps : List SpaceStep) : Spaces := steps.foldl apply s

def Clears (s : Spaces) : SpaceStep → Prop
  | .call i c => ∃ t, s.tables[i]? = some t ∧ c.Clears t
  | _ => False

def pages (s : Spaces) : Nat := s.tables.foldr (fun t count => t.length + count) 0

def Spares (s : Spaces) : List SpaceStep → Prop
  | [] => True
  | step :: rest => ¬ s.Clears step ∧ (s.apply step).Spares rest

end Spaces

variable {n : Nat} {rest : List Nat} {s s' : AddressSpace} {fault? : Option Fault} {clears : Prop}

/-- What something that was done to an address space keeps, when the other spaces have the frames
`rest`. The last two fields are about spaces in which all entries are valid. -/
structure AddressSpace.Keeps (n : Nat) (rest : List Nat) (s s' : AddressSpace)
    (fault? : Option Fault) (clears : Prop) : Prop where
  size : s'.machine.memory.size = s.machine.memory.size
  framed : UserMemory.Framed ⟨s.table, s.machine.memory⟩ →
    UserMemory.Framed ⟨s'.table, s'.machine.memory⟩
  numbered : s'.table.Numbered
  ledger : s'.machine.pool.Ledger n (s'.table.mapped ++ rest)
  fault : ∀ f, fault? = some f →
    ∃ g, f = .missingFrame g ∧ s.machine.memory.size ≤ g ∧ g < n
  valid : ¬ clears → s.table.AllValid → s'.table.AllValid
  balanced : fault? = none → s.table.AllValid →
    s.machine.pool.Balanced n (s.table.mapped ++ rest) →
    s'.machine.pool.Balanced n (s'.table.mapped ++ rest)

namespace SpaceCall

open AddressSpace

variable (hn : s.table.Numbered) (hl : s.machine.pool.Ledger n (s.table.mapped ++ rest))

include hn hl

private theorem keeps_steady (hp : s'.machine.pool = s.machine.pool)
    (hs : UserMemory.Steady ⟨s.table, s.machine.memory⟩ ⟨s'.table, s'.machine.memory⟩)
    (hf : ∀ f, fault? = some f →
      ∃ g, f = .missingFrame g ∧ UserMemory.Lacks ⟨s.table, s.machine.memory⟩ g) :
    Keeps n rest s s' fault? clears where
  size := hs.size
  framed hf := hf.congr hs.mapping hs.size
  numbered := hn.congr hs.mapping
  ledger := by
    rw [hp, PageTable.mapped_congr hs.mapping]
    exact hl
  fault f hfault := by
    obtain ⟨g, hg, hsize, frame, hmem, hle⟩ := hf f hfault
    have hlt := hl.held_lt (List.mem_append_left rest hmem)
    exact ⟨g, hg, hsize, Nat.lt_of_le_of_lt hle hlt⟩
  valid _ hv := hv.congr hs.mapping
  balanced _ _ hb := by
    rw [hp, PageTable.mapped_congr hs.mapping]
    exact hb

private theorem keeps_self : Keeps n rest s s none clears := by
  refine keeps_steady hn hl rfl (UserMemory.Steady.refl _) ?_
  intro f hf
  cases hf

private theorem ensures_onMemory {α : Type} {x : EStateM (Stop Errno) UserMemory α}
    (hx : UserMemory.MissingFrameOnly x) :
    Ensures (do let _ ← onMemory x : EStateM (Stop Errno) AddressSpace Unit) s
      (fun _ s' => Keeps n rest s s' none clears)
      (fun stop s' => Keeps n rest s s' stop.fault? clears) := by
  rw [ensures_bind, onMemory, ensures_zoom]
  refine (hx _).mono ?_ ?_
  · intro _ m hm
    refine keeps_steady hn hl rfl hm ?_
    intro f hf
    cases hf
  · rintro stop m ⟨hm, hstop⟩
    refine keeps_steady hn hl rfl hm ?_
    intro f hf
    cases stop with
    | fault f' =>
      cases hf
      exact hstop f rfl
    | refused e => cases hf
    | ended code => cases hf
    | waiting => cases hf

private theorem ensures_onTable {α : Type} {f : PageTable → Except MappingError (α × PageTable)}
    (hm : ∀ a t, f s.table = .ok (a, t) → t.mapped = s.table.mapped)
    (hnum : ∀ a t, f s.table = .ok (a, t) → t.Numbered)
    (hv : ¬ clears → s.table.AllValid → ∀ a t, f s.table = .ok (a, t) → t.AllValid) :
    Ensures (onTable f) s (fun _ s' => Keeps n rest s s' none clears)
      (fun stop s' => Keeps n rest s s' stop.fault? clears) := by
  rw [onTable, ensures_modify]
  cases hf : f s.table with
  | error e => exact keeps_self hn hl
  | ok result =>
    obtain ⟨a, t⟩ := result
    refine ⟨rfl, ?_, hnum a t hf, ?_, ?_, ?_, ?_⟩
    · intro hframed g hg
      rw [hm a t hf] at hg
      exact hframed g hg
    · rw [hm a t hf]
      exact hl
    · intro f hfault
      cases hfault
    · intro hc hvalid
      exact hv hc hvalid a t hf
    · intro _ _ hb
      rw [hm a t hf]
      exact hb

omit hn hl in
private theorem framed_withPages {frames : List Nat} {protections : List Bool}
    (hm : ∀ f ∈ frames, f < s.machine.memory.size)
    (hs : UserMemory.Framed ⟨s.table, s.machine.memory⟩) :
    UserMemory.Framed ⟨(s.withPages frames protections).table,
      (s.withPages frames protections).machine.memory⟩ := by
  intro f hf
  rw [withPages, PageTable.mapped_extend, List.mem_append] at hf
  have hsize : (s.withPages frames protections).machine.memory.size = s.machine.memory.size :=
    Memory.size_clear ..
  rw [hsize]
  rcases hf with hold | hnew
  · exact hs f hold
  · obtain ⟨page, hpage, rfl⟩ := List.mem_map.1 hnew
    exact hm page.1 (List.of_mem_zip hpage).1

omit hn hl in
private theorem mapped_withPages_perm (s : AddressSpace) (rest : List Nat) {frames : List Nat}
    {protections : List Bool} (h : frames.length ≤ protections.length) :
    (frames ++ (s.table.mapped ++ rest)).Perm
      ((s.withPages frames protections).table.mapped ++ rest) := by
  have hmapped : (s.withPages frames protections).table.mapped = s.table.mapped ++ frames := by
    rw [withPages, PageTable.mapped_extend, List.map_fst_zip h]
  rw [hmapped, ← List.append_assoc]
  exact List.perm_append_comm.append_right rest

private theorem ensures_mapCall (regions : List Region) :
    Ensures (run (.map regions)) s (fun _ s' => Keeps n rest s s' none clears)
      (fun stop s' => Keeps n rest s s' stop.fault? clears) := by
  rw [run, ensures_bind]
  refine ensures_map.mono ?_ ?_
  · rintro - s' ⟨-, frames, pool, ha, hm, rfl⟩
    obtain ⟨hledger, hqueue, hlength⟩ := hl.acquireMany ha
    have hperm := mapped_withPages_perm { s with machine.pool := pool } rest
      (Nat.le_of_eq (hlength.trans (Region.length_protections regions).symm))
    refine ⟨Memory.size_clear .., framed_withPages hm, hn.extend _, hledger.perm hperm, ?_, ?_, ?_⟩
    · intro f hf
      cases hf
    · intro _ hv
      exact hv.extend _
    · intro _ _ hb
      have havailable := (FramePool.available_of_acquireMany? ha).2
      have htotal := hperm.length_eq
      simp only [FramePool.Balanced, withPages, List.length_append] at hb htotal ⊢
      omega
  · rintro stop s' (⟨e, -, rfl, rfl⟩ | ⟨frames, pool, count, f, ha, hm, rfl, hf, hwhy⟩)
    · exact keeps_steady hn hl rfl (UserMemory.Steady.refl _) (fun f hf => by cases hf)
    · obtain ⟨hledger, hqueue, hlength⟩ := hl.acquireMany ha
      have hlt : f < n := hledger.held_lt (List.mem_append_left _ hf)
      -- The frames behind the one that is missing were taken and are lost.
      have hkept := hledger.sublist ((List.take_sublist count frames).append_right _)
      have hcount : (frames.take count).length ≤ (Region.protections regions).length := by
        rw [List.length_take, hlength, Region.length_protections]
        exact Nat.min_le_right ..
      have hperm := mapped_withPages_perm { s with machine.pool := pool } rest hcount
      have hmissing : s.machine.memory.size ≤ f ∧ stop = .fault (.missingFrame f) := by
        rcases hwhy with hwhy | ⟨hcap, -⟩
        · exact hwhy
        · have hcapacity : pool.capacity = n := hledger.capacity
          omega
      obtain ⟨hsize, rfl⟩ := hmissing
      refine ⟨Memory.size_clear .., framed_withPages hm, hn.extend _, hkept.perm hperm, ?_, ?_, ?_⟩
      · intro f' hfault
        cases hfault
        exact ⟨f, rfl, hsize, hlt⟩
      · intro _ hv
        exact hv.extend _
      · intro hnone
        cases hnone

variable (clears) in
omit hn in
private theorem ensures_releaseCall : Ensures (run .release) s
    (fun _ s' => Keeps n rest s s' none clears ∧ s'.table = {})
    (fun _ _ => False) := by
  have hsub : (s.table.frames ++ rest).Sublist (s.table.mapped ++ rest) :=
    (PageTable.frames_sublist s.table).append_right rest
  obtain ⟨pool, hrun, hledger, hqueue⟩ := release_of_ledger (ε := Errno) (hl.sublist hsub)
  rw [run, ensures_bind, ensures_of_ok hrun, ensures_pure]
  refine ⟨⟨rfl, ?_, PageTable.Numbered.empty, hledger, ?_, fun _ _ => PageTable.AllValid.empty, ?_⟩,
    rfl⟩
  · intro _ f hf
    cases hf
  · intro f hf
    cases hf
  · intro _ hv hb
    have hempty : ({} : PageTable).mapped = [] := rfl
    rw [FramePool.Balanced, FramePool.available, List.length_append] at hb
    rw [FramePool.Balanced, FramePool.available, hqueue, hv.frames_eq, hempty, List.nil_append,
      List.length_append]
    omega

private theorem ensures_adjustCall (va : VirtualAddress) (add remove : Flags) :
    Ensures (run (.adjust va add remove)) s
      (fun _ s' => Keeps n rest s s' none (Clears s.table (.adjust va add remove)))
      (fun stop s' => Keeps n rest s s' stop.fault? (Clears s.table (.adjust va add remove))) := by
  rw [run]
  refine ensures_onTable hn hl ?_ ?_ ?_
  · intro _ t h
    obtain ⟨e, -, he, rfl⟩ := PageTable.adjust_eq_ok h
    exact PageTable.mapped_setEntry he
  · intro _ t h
    obtain ⟨e, -, he, rfl⟩ := PageTable.adjust_eq_ok h
    exact hn.setEntry he
  · intro hc hv _ t h
    obtain ⟨e, hw, he, rfl⟩ := PageTable.adjust_eq_ok h
    have hvalid := hv e (List.mem_iff_getElem?.2 ⟨_, he⟩)
    have hremove : remove.valid = false := by
      cases hr : remove.valid with
      | false => rfl
      | true => exact absurd ⟨hr, e, hw⟩ hc
    apply hv.setEntry
    simp [Flags.union, Flags.diff, hvalid, hremove]

/-- Whatever is done to an address space, every frame keeps its one place. -/
theorem ensures_run (c : SpaceCall) : Ensures c.run s
    (fun _ s' => Keeps n rest s s' none (c.Clears s.table))
    (fun stop s' => Keeps n rest s s' stop.fault? (c.Clears s.table)) := by
  cases c with
  | map regions => exact ensures_mapCall hn hl regions
  | release => exact (ensures_releaseCall _ hl).mono (fun _ _ h => h.1) (fun _ _ h => h.elim)
  | translate va access =>
    have hmap : ∀ (pa : PhysicalAddress) (t : PageTable),
        s.table.translate va access = .ok (pa, t) → t.mapping = s.table.mapping := by
      intro pa t h
      have hva : VirtualAddress.ofNat? va.toNat = some va :=
        VirtualAddress.ofNat?_eq_some_iff.2 rfl
      have hnat : s.table.translateNat va.toNat access = .ok (pa, t) := by
        simp only [PageTable.translateNat, hva, h]
        rfl
      exact PageTable.translateNat_mapping hnat
    rw [run]
    refine ensures_onTable hn hl ?_ ?_ ?_
    · exact fun pa t h => PageTable.mapped_congr (hmap pa t h)
    · exact fun pa t h => hn.congr (hmap pa t h)
    · exact fun _ hv pa t h => hv.congr (hmap pa t h)
  | readMemory address length =>
    exact ensures_onMemory hn hl (UserMemory.missingFrameOnly_fetch address length)
  | writeMemory address data =>
    exact ensures_onMemory hn hl (UserMemory.missingFrameOnly_store address data)
  | getBytes address length =>
    exact ensures_onMemory hn hl (UserMemory.missingFrameOnly_getBytes address length)
  | putBytes address data =>
    exact ensures_onMemory hn hl (UserMemory.missingFrameOnly_putBytes address data)
  | getWord address => exact ensures_onMemory hn hl (UserMemory.missingFrameOnly_getWord address)
  | putWord address w => exact ensures_onMemory hn hl (UserMemory.missingFrameOnly_putWord address w)
  | getString address most =>
    exact ensures_onMemory hn hl (UserMemory.missingFrameOnly_getString address most)
  | adjust va add remove => exact ensures_adjustCall hn hl va add remove

end SpaceCall

namespace Spaces

variable {i : Nat} {t t' : PageTable} {tables : List PageTable}

private theorem mapped_perm (h : tables[i]? = some t) :
    (tables.flatMap PageTable.mapped).Perm
      (t.mapped ++ (tables.eraseIdx i).flatMap PageTable.mapped) := by
  obtain ⟨hi, rfl⟩ := List.getElem?_eq_some_iff.1 h
  exact (List.getElem_cons_eraseIdx_perm hi).symm.flatMap_right PageTable.mapped

private theorem mapped_set_perm (h : tables[i]? = some t) (t' : PageTable) :
    (t'.mapped ++ (tables.eraseIdx i).flatMap PageTable.mapped).Perm
      ((tables.set i t').flatMap PageTable.mapped) := by
  obtain ⟨hi, -⟩ := List.getElem?_eq_some_iff.1 h
  exact (List.set_perm_cons_eraseIdx hi t').symm.flatMap_right PageTable.mapped

private theorem length_mapped (s : Spaces) : (s.tables.flatMap PageTable.mapped).length = s.pages := by
  unfold pages
  induction s.tables with
  | nil => rfl
  | cons t rest ih => rw [List.flatMap_cons, List.length_append, ih, PageTable.length_mapped]; rfl

/-- What holds of address spaces at every point, with `n` frames in the pool and `most` in the
memory. -/
structure Sound (n most : Nat) (s : Spaces) : Prop where
  size : s.machine.memory.size = most
  framed : ∀ t ∈ s.tables, UserMemory.Framed ⟨t, s.machine.memory⟩
  numbered : ∀ t ∈ s.tables, t.Numbered
  ledger : s.machine.pool.Ledger n (s.tables.flatMap PageTable.mapped)
  faults : ∀ f ∈ s.faults, ∃ g, f = .missingFrame g ∧ most ≤ g ∧ g < n

/-- What holds of address spaces as long as no entry loses its mark of validity. -/
structure Whole (n : Nat) (s : Spaces) : Prop where
  valid : ∀ t ∈ s.tables, t.AllValid
  balanced : s.faults = [] → s.machine.pool.Balanced n (s.tables.flatMap PageTable.mapped)

variable {most : Nat} {s : Spaces}

theorem sound_start (machine : Machine) (n : Nat) :
    (start machine n).Sound n machine.memory.size where
  size := rfl
  framed t h := by cases h
  numbered t h := by cases h
  ledger := FramePool.Ledger.full n
  faults f h := by cases h

private theorem whole_start (machine : Machine) (n : Nat) : (start machine n).Whole n where
  valid t h := by cases h
  balanced _ := FramePool.Balanced.full n

section

variable {a : AddressSpace} {fault? : Option Fault} {clears : Prop}
variable (hk : AddressSpace.Keeps n ((s.tables.eraseIdx i).flatMap PageTable.mapped)
  ⟨s.machine, t⟩ a fault? clears)
variable (hmem : ∀ t' ∈ tables, t' = a.table ∨ t' ∈ s.tables)
variable (hperm : (a.table.mapped ++ (s.tables.eraseIdx i).flatMap PageTable.mapped).Perm
  (tables.flatMap PageTable.mapped))
variable (ht : s.tables[i]? = some t)

include hk hmem hperm ht

/-- Work on one space is a step of all, when the frames of the new tables are those of the space
that was worked on and those of the others. -/
theorem Sound.next (hs : s.Sound n most) :
    Sound n most ⟨a.machine, tables, fault?.toList ++ s.faults⟩ where
  size := hk.size.trans hs.size
  framed t' ht' := by
    rcases hmem t' ht' with rfl | hold
    · exact hk.framed (hs.framed t (List.mem_iff_getElem?.2 ⟨i, ht⟩))
    · exact (hs.framed t' hold).congr rfl hk.size
  numbered t' ht' := by
    rcases hmem t' ht' with rfl | hold
    · exact hk.numbered
    · exact hs.numbered t' hold
  ledger := hk.ledger.perm hperm
  faults f hf := by
    rcases List.mem_append.1 hf with hnew | hold
    · obtain ⟨g, hg, hsize, hlt⟩ := hk.fault f (Option.mem_toList.1 hnew)
      exact ⟨g, hg, hs.size ▸ hsize, hlt⟩
    · exact hs.faults f hold

private theorem Whole.next (hc : ¬ clears) (hw : s.Whole n) :
    Whole n ⟨a.machine, tables, fault?.toList ++ s.faults⟩ where
  valid t' ht' := by
    rcases hmem t' ht' with rfl | hold
    · exact hk.valid hc (hw.valid t (List.mem_iff_getElem?.2 ⟨i, ht⟩))
    · exact hw.valid t' hold
  balanced hnone := by
    obtain ⟨hnew, hold⟩ := List.append_eq_nil_iff.1 hnone
    have hb := hw.balanced hold
    rw [FramePool.Balanced, (mapped_perm ht).length_eq] at hb
    have hafter := hk.balanced (Option.toList_eq_nil_iff.1 hnew)
      (hw.valid t (List.mem_iff_getElem?.2 ⟨i, ht⟩)) hb
    rwa [FramePool.Balanced, hperm.length_eq] at hafter

end

private theorem work_cases {motive : Spaces → Prop} {x : EStateM (Stop Errno) AddressSpace Unit}
    {tables : PageTable → List PageTable}
    (hx : Ensures x ⟨s.machine, t⟩ (fun _ a => motive ⟨a.machine, tables a.table, s.faults⟩)
      (fun stop a => motive ⟨a.machine, tables a.table, stop.fault?.toList ++ s.faults⟩)) :
    motive (s.work t x tables) := by
  unfold work
  split
  · next u a hok => exact hx.of_ok hok
  · next stop a herror => exact hx.of_error herror

/-- A step is nothing, a new table, or work on one space that puts a table in its place or takes
its table away. -/
theorem apply_cases {motive : Spaces → Prop} (hs : s.Sound n most) (step : SpaceStep)
    (hskip : motive s) (hcreate : motive { s with tables := s.tables ++ [{}] })
    (hwork : ∀ i t a fault? tables, s.tables[i]? = some t →
      AddressSpace.Keeps n ((s.tables.eraseIdx i).flatMap PageTable.mapped) ⟨s.machine, t⟩ a fault?
        (s.Clears step) →
      (∀ t' ∈ tables, t' = a.table ∨ t' ∈ s.tables) →
      (a.table.mapped ++ (s.tables.eraseIdx i).flatMap PageTable.mapped).Perm
        (tables.flatMap PageTable.mapped) →
      motive ⟨a.machine, tables, fault?.toList ++ s.faults⟩) :
    motive (s.apply step) := by
  cases step with
  | create => exact hcreate
  | drop i =>
    cases ht : s.tables[i]? with
    | none =>
      simp only [apply, ht]
      exact hskip
    | some t =>
      simp only [apply, ht]
      have hl := hs.ledger.perm (mapped_perm ht)
      apply work_cases
      apply (SpaceCall.ensures_releaseCall (s := ⟨s.machine, t⟩) (s.Clears (.drop i)) hl).mono
      · rintro _ a ⟨hk, htable⟩
        refine hwork i t a none _ ht hk (fun t' ht' => Or.inr (List.mem_of_mem_eraseIdx ht')) ?_
        rw [htable]
        exact List.Perm.refl _
      · intro _ _ h
        exact h.elim
  | call i c =>
    cases ht : s.tables[i]? with
    | none =>
      simp only [apply, ht]
      exact hskip
    | some t =>
      simp only [apply, ht]
      have hl := hs.ledger.perm (mapped_perm ht)
      have hn := hs.numbered t (List.mem_iff_getElem?.2 ⟨i, ht⟩)
      have hclears : c.Clears t = s.Clears (.call i c) := by
        simp only [Clears, ht, Option.some.injEq, exists_eq_left']
      have hmem : ∀ (t' : PageTable), ∀ t'' ∈ s.tables.set i t', t'' = t' ∨ t'' ∈ s.tables := by
        intro t' t'' h
        exact (List.mem_or_eq_of_mem_set h).symm
      have hrun := SpaceCall.ensures_run (s := ⟨s.machine, t⟩) hn hl c
      rw [hclears] at hrun
      apply work_cases
      apply hrun.mono
      · intro _ a hk
        exact hwork i t a none _ ht hk (hmem a.table) (mapped_set_perm ht a.table)
      · intro stop a hk
        exact hwork i t a stop.fault? _ ht hk (hmem a.table) (mapped_set_perm ht a.table)

private theorem apply_sound (hs : s.Sound n most) (step : SpaceStep) : (s.apply step).Sound n most := by
  refine apply_cases hs step hs ?_ ?_
  · refine ⟨hs.size, ?_, ?_, ?_, hs.faults⟩
    · intro t ht
      rcases List.mem_append.1 ht with hold | hnew
      · exact hs.framed t hold
      · rw [List.mem_singleton.1 hnew]
        intro f hf
        cases hf
    · intro t ht
      rcases List.mem_append.1 ht with hold | hnew
      · exact hs.numbered t hold
      · rw [List.mem_singleton.1 hnew]
        exact PageTable.Numbered.empty
    · rw [List.flatMap_append]
      simpa [PageTable.mapped] using hs.ledger
  · intro i t a fault? tables ht hk hmem hperm
    exact hs.next hk hmem hperm ht

private theorem apply_whole (hs : s.Sound n most) (hw : s.Whole n) {step : SpaceStep}
    (hc : ¬ s.Clears step) : (s.apply step).Whole n := by
  refine apply_cases hs step hw ?_ ?_
  · refine ⟨?_, ?_⟩
    · intro t ht
      rcases List.mem_append.1 ht with hold | hnew
      · exact hw.valid t hold
      · rw [List.mem_singleton.1 hnew]
        exact PageTable.AllValid.empty
    · intro hnone
      rw [List.flatMap_append]
      simpa [PageTable.mapped] using hw.balanced hnone
  · intro i t a fault? tables ht hk hmem hperm
    exact hw.next hk hmem hperm ht hc

theorem run_sound (hs : s.Sound n most) (steps : List SpaceStep) :
    (s.run steps).Sound n most := by
  induction steps generalizing s with
  | nil => exact hs
  | cons step rest ih => exact ih (apply_sound hs step)

private theorem run_whole (hs : s.Sound n most) (hw : s.Whole n) {steps : List SpaceStep}
    (hc : s.Spares steps) : (s.run steps).Whole n := by
  induction steps generalizing s with
  | nil => exact hw
  | cons step rest ih => exact ih (apply_sound hs step) (apply_whole hs hw hc.1) hc.2

/-- With all its entries valid a table never has a page fault. -/
theorem translateNat_ne_pageFault (hv : t.AllValid) (a : Nat) (access : Access) :
    t.translateNat a access ≠ .error .pageFault := by
  intro h
  unfold PageTable.translateNat at h
  split at h
  · cases h
  · next va hva =>
    unfold PageTable.translate at h
    split at h
    · next cause hw =>
      have hcause : cause = .outOfRange := by
        unfold PageTable.walk at hw
        split at hw
        · cases hw
          rfl
        · next e he =>
          rw [hv e (List.mem_iff_getElem?.2 ⟨_, he⟩), if_pos rfl] at hw
          cases hw
      have hexception : Except.error cause.exception = .error Exception.pageFault := h
      rw [hcause] at hexception
      cases hexception
    · split at h
      · have hok : (Except.ok _ : Except Exception _) = .error .pageFault := h
        cases hok
      · have hreadOnly : Except.error Exception.readOnly = .error .pageFault := h
        cases hreadOnly

/-- At every point of every history of address spaces on one pool of `n` frames, pages are numbered
in order, no frame is in two places, and no release breaks a rule of the pool: all that can fail is
the clearing of a frame that the memory does not have. As long as no entry loses its mark of
validity, no frame is lost either, and no translation ends in a page fault. -/
theorem frames_in_one_place (machine : Machine) (n : Nat) (steps : List SpaceStep) :
    let s := (start machine n).run steps
    (∀ t ∈ s.tables, t.Numbered) ∧
    (s.machine.pool.queue ++ s.tables.flatMap PageTable.mapped).Nodup ∧
    (∀ f ∈ s.machine.pool.queue ++ s.tables.flatMap PageTable.mapped, f < n) ∧
    (∀ fault ∈ s.faults, ∃ g, fault = .missingFrame g ∧ machine.memory.size ≤ g ∧ g < n) ∧
    (n ≤ machine.memory.size → s.faults = []) ∧
    ((start machine n).Spares steps →
      (∀ t ∈ s.tables, t.AllValid) ∧
      (∀ t ∈ s.tables, ∀ a access, t.translateNat a access ≠ .error .pageFault) ∧
      (s.faults = [] → s.machine.pool.available + s.pages = n)) := by
  intro s
  have hs : s.Sound n machine.memory.size := run_sound (sound_start machine n) steps
  refine ⟨hs.numbered, hs.ledger.distinct, hs.ledger.below, hs.faults, ?_, ?_⟩
  · intro hroom
    rw [List.eq_nil_iff_forall_not_mem]
    intro f hf
    obtain ⟨g, -, hsize, hlt⟩ := hs.faults f hf
    omega
  · intro hc
    have hw : s.Whole n := run_whole (sound_start machine n) (whole_start machine n) hc
    refine ⟨hw.valid, fun t ht => translateNat_ne_pageFault (hw.valid t ht), ?_⟩
    intro hnone
    have hb := hw.balanced hnone
    rwa [FramePool.Balanced, length_mapped] at hb

def sampleSteps : List SpaceStep :=
  [.create, .create, .call 0 (.map [⟨2, false⟩]), .call 1 (.map [⟨1, true⟩]),
    .call 0 (.writeMemory 4090 [1, 2, 3, 4, 5, 6, 7, 8]), .drop 0, .call 0 (.map [⟨3, false⟩])]

theorem frames_in_one_place_sample :
    let s := (start (.build { physPages := 4 } {}) 4).run sampleSteps
    s.tables.map PageTable.mapped = [[2, 3, 0, 1]] ∧ s.faults = [] ∧
    (s.machine.pool.queue ++ s.tables.flatMap PageTable.mapped).Nodup ∧
    (∀ t ∈ s.tables, t.AllValid) ∧ s.machine.pool.available + s.pages = 4 := by
  intro s
  obtain ⟨-, hdistinct, -, -, hfaults, hwhole⟩ :=
    frames_in_one_place (.build { physPages := 4 } {}) 4 sampleSteps
  have hspares : (start (.build { physPages := 4 } {}) 4).Spares sampleSteps := by
    refine ⟨id, id, ?_, ?_, ?_, id, ?_, trivial⟩
    all_goals
      rintro ⟨t, -, hclears⟩
      exact hclears
  have hnone : s.faults = [] := hfaults (by decide)
  obtain ⟨hvalid, -, hcount⟩ := hwhole hspares
  exact ⟨by decide +kernel, hnone, hdistinct, hvalid, hcount hnone⟩

end Spaces

end PagedKernel

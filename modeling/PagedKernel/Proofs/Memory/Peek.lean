import Mathlib.Algebra.Group.Nat.Defs
import PagedKernel.Proofs.Memory.Strings

/-!
# Looking at the memory of a program

What only reads leaves every frame alone, and the mapping too. It leaves nothing behind but the marks
of the pages that it used.
-/

namespace PagedKernel

namespace PageTable

def marked (t : PageTable) (seen : Nat → Bool) : PageTable :=
  ⟨t.entries.mapIdx fun p e => if seen p then e.touch .read else e⟩

variable (t : PageTable) (seen seen' : Nat → Bool)

private theorem getElem?_marked (p : Nat) : (t.marked seen).entries[p]? =
    (t.entries[p]?).map fun e => if seen p then e.touch .read else e := by
  rw [marked, List.getElem?_mapIdx]

@[simp] private theorem marked_none : t.marked (fun _ => false) = t := by
  refine congrArg PageTable.mk (List.ext_getElem? fun p => ?_)
  simp

theorem marked_marked : (t.marked seen).marked seen' = t.marked fun p => seen p || seen' p := by
  refine congrArg PageTable.mk (List.ext_getElem? fun p => ?_)
  change ((t.marked seen).marked seen').entries[p]? = (t.marked _).entries[p]?
  rw [getElem?_marked, getElem?_marked, getElem?_marked, Option.map_map]
  congr 1
  funext e
  cases seen p <;> cases seen' p <;> simp [Entry.touch, Flags.touch_touch]

@[simp] theorem mapping_marked : (t.marked seen).mapping = t.mapping := by
  apply List.ext_getElem?
  intro p
  rw [getElem?_mapping, getElem?_mapping, getElem?_marked]
  cases t.entries[p]? with
  | none => rfl
  | some e => cases hseen : seen p <;> simp

theorem pointer?_eq_some_iff {t : PageTable} {r : Int32} {va : VirtualAddress} :
    t.pointer? r = some va ↔ (va.toNat : Int) = r.toInt ∧ 0 < va.toNat ∧ va.toNat < t.size := by
  have hinside : va.page < t.length ↔ va.toNat < t.size := Nat.div_lt_iff_lt_mul pageSize_pos
  have hregister : VirtualAddress.ofRegister? r = some va ↔ (va.toNat : Int) = r.toInt := by
    unfold VirtualAddress.ofRegister?
    split
    · next hr =>
      have hneg : r.toInt < 0 := Int32.lt_iff_toInt_lt.1 hr
      simp only [reduceCtorEq, false_iff]
      omega
    · next hr =>
      have hle : 0 ≤ r.toInt := Int.not_lt.1 fun hlt => hr (Int32.lt_iff_toInt_lt.2 hlt)
      rw [VirtualAddress.ofNat?_eq_some_iff]
      omega
  unfold pointer?
  rw [Option.filter_eq_some_iff, hregister, Bool.and_eq_true, decide_eq_true_iff,
    decide_eq_true_iff, hinside]

theorem exists_pointer?_eq {t : PageTable} {p : UInt32} (hsize : t.size ≤ 2 ^ 31) (hne : p ≠ 0)
    (hinside : p.toNat < t.size) :
    ∃ va, t.pointer? p.toInt32 = some va ∧ va.toNat = p.toNat := by
  let va : VirtualAddress := ⟨p.toNat, Nat.le_of_lt_succ p.toNat_lt⟩
  refine ⟨va, pointer?_eq_some_iff.2 ⟨?_, ?_, hinside⟩, rfl⟩
  · have hlow : p.toNat < 2 ^ 31 := Nat.lt_of_lt_of_le hinside hsize
    exact (BitVec.toInt_eq_toNat_of_lt (Nat.mul_lt_mul_of_pos_left hlow (by decide))).symm
  · exact Nat.pos_of_ne_zero fun hzero => hne (UInt32.toNat_inj.1 hzero)

end PageTable

namespace UserMemory

variable {m m' m'' : UserMemory}

def Peeked (m m' : UserMemory) : Prop := ∃ seen, m' = ⟨m.table.marked seen, m.memory⟩

theorem Peeked.refl (m : UserMemory) : Peeked m m := ⟨fun _ => false, by rw [PageTable.marked_none]⟩

theorem Peeked.trans (h : Peeked m m') (h' : Peeked m' m'') : Peeked m m'' := by
  obtain ⟨seen, rfl⟩ := h
  obtain ⟨seen', rfl⟩ := h'
  exact ⟨_, by rw [PageTable.marked_marked]⟩

theorem Peeked.mapping (h : Peeked m m') : m'.table.mapping = m.table.mapping := by
  obtain ⟨seen, rfl⟩ := h
  exact PageTable.mapping_marked ..

theorem Peeked.memory (h : Peeked m m') : m'.memory = m.memory := by
  obtain ⟨seen, rfl⟩ := h
  rfl

theorem Peeked.alike (h : Peeked m m') : Alike m m' where
  mapping := h.mapping
  byte a := by
    apply byte?_congr h.mapping
    intro f _
    rw [h.memory]

theorem Peeked.framed (h : Peeked m m') (hf : m.Framed) : m'.Framed :=
  hf.congr h.mapping (congrArg Memory.size h.memory)

theorem peeked_afterRead (m : UserMemory) (a n : Nat) : Peeked m (m.afterRead a n) := ⟨_, rfl⟩

instance : Lasting Framed Peeked where
  refl _ := Peeked.refl _
  trans := Peeked.trans
  keeps := Peeked.framed

/-- Access that only reads. -/
abbrev Peeks {α : Type} (x : EStateM (Stop Errno) UserMemory α) (ok : α → Prop) : Prop :=
  Obeys Framed Peeked x ok

theorem toNat_pointer {t : PageTable} {r : Int32} {va : VirtualAddress}
    (h : t.pointer? r = some va) : (va.toNat : Int) = r.toInt :=
  (PageTable.pointer?_eq_some_iff.1 h).1

theorem pointer_eq {r : Int32} {va : VirtualAddress} (h : m.table.pointer? r = some va) :
    pointer r m = .ok va m := by
  apply Ensures.eq_ok
  unfold pointer
  rw [ensures_bind, ensures_get, h]
  exact ⟨rfl, rfl⟩

theorem peeks_pointer (r : Int32) : Peeks (pointer r) (fun va => (va.toNat : Int) = r.toInt) := by
  intro m _
  apply (ensures_pointer r).mono
  · rintro va m' ⟨rfl, hva⟩
    exact ⟨Peeked.refl _, toNat_pointer hva⟩
  · rintro stop m' ⟨rfl, rfl⟩
    exact ⟨Peeked.refl _, _, rfl⟩

theorem peeks_getString (a most : Nat) : Peeks (getString a most) (fun s => 0 ∉ Text.utf8 s) := by
  intro m hf
  apply (ensures_getString hf a most).mono
  · rintro s m' ⟨⟨n, rfl⟩, hs⟩
    exact ⟨peeked_afterRead m a n, hs.noZero⟩
  · rintro stop m' ⟨⟨n, rfl⟩, hstop⟩
    exact ⟨peeked_afterRead m a n, hstop⟩

theorem peeks_checkRange (a length : Nat) (access : Access) :
    Peeks (checkRange a length access) (fun _ => True) := by
  intro m _
  apply ensures_checkRange.mono
  · rintro _ m' ⟨rfl, -⟩
    exact ⟨Peeked.refl _, trivial⟩
  · rintro stop m' ⟨-, rfl, rfl⟩
    exact ⟨Peeked.refl _, _, rfl⟩

theorem peeks_fetch (a length : Nat) : Peeks (fetch a length) (fun _ => True) := by
  intro m hf
  rw [ensures_of_ok (fetch_eq hf a length)]
  exact ⟨peeked_afterRead m a _, trivial⟩

end UserMemory

end PagedKernel

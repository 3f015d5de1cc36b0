import Mathlib
import PagedKernel.Files.DescriptorTable

/-!
# Descriptors and open files

The free descriptors are those without an open file, apart from the console's. So a file that is put
under a free descriptor takes no other file's place, and the files that the file system counts as
open are those under somebody's descriptors.
-/

namespace PagedKernel

abbrev wordLimit : Nat := 0x80000000

theorem int32_toNat_lt (r : Int32) : r.toInt.toNat < wordLimit := by
  have h := r.toInt_lt
  simp only [wordLimit]
  omega

private theorem int32_ofNat_toNat_le (n : Nat) : (Int32.ofNat n).toInt.toNat ≤ n := by
  have hsize : Int32.size = 4294967296 := rfl
  rw [Int32.toInt_ofNat', Int.bmod_def, hsize]
  split <;> omega

private theorem int32_ofNat_toNat {n : Nat} (h : n < wordLimit) : (Int32.ofNat n).toInt.toNat = n := by
  have hsize : Int32.size = 4294967296 := rfl
  simp only [wordLimit] at h
  rw [Int32.toInt_ofNat', Int.bmod_def, hsize]
  split <;> omega

def Source.id? : Source → Option FileId
  | file _ id _ => id
  | input _ | output _ => none

theorem Source.holdsFile_eq (source : Source) : source.holdsFile = source.id?.isSome := by
  cases source <;> rfl

/-- Every name leads to a file that was made. -/
def FileSystem.Grounded (fs : FileSystem) : Prop :=
  ∀ name id, fs.names.find? name = some id → id < fs.files.length

theorem FileSystem.grounded_empty : Grounded {} := nofun

theorem FileSystem.Grounded.insert {fs : FileSystem} (h : fs.Grounded) (name : String)
    (data : Bytes) : (fs.insert name data).Grounded := by
  intro other id hid
  have hlength : (fs.insert name data).files.length = fs.files.length + 1 := by
    simp [FileSystem.insert]
  simp only [FileSystem.insert, Assoc.find?_insert] at hid
  rw [hlength]
  split at hid
  · cases hid
    exact Nat.lt_succ_self _
  · exact Nat.lt_succ_of_lt (h other id hid)

theorem FileSystem.bytes_insert (fs : FileSystem) (name : String) (id : FileId) :
    (fs.insert name []).bytes id = fs.bytes id := by
  simp only [bytes, insert, List.getElem?_append]
  split
  · rfl
  · next hid =>
    rw [List.getElem?_eq_none (Nat.not_lt.1 hid)]
    cases id - fs.files.length <;> rfl

namespace DescriptorTable

variable {t t' : DescriptorTable} {file file' : OpenFile} {i j limit : Nat}

theorem nameable_lt (slots : Nat) : nameable slots < wordLimit := int32_toNat_lt _

theorem nameable_le (slots : Nat) : nameable slots ≤ slots := int32_ofNat_toNat_le _

theorem nameable_eq {slots : Nat} (h : slots < wordLimit) : nameable slots = slots :=
  int32_ofNat_toNat h

theorem lt_of_slot? (h : t.slot? i = some file) : i < t.capacity := by
  rw [slot?] at h
  cases hs : t.slots[i]? with
  | none =>
    rw [hs] at h
    cases h
  | some slot => exact (List.getElem?_eq_some_iff.1 hs).1

theorem slot?_eq_getElem (h : i < t.slots.length) : t.slot? i = t.slots[i] := by
  rw [slot?, List.getElem?_eq_getElem h]
  rfl

theorem slot?_set (slot : Option OpenFile) (free : List Nat) (h : i < t.capacity) (j : Nat) :
    slot? ⟨t.slots.set i slot, free⟩ j = if i = j then slot else t.slot? j := by
  rw [slot?, List.getElem?_set]
  by_cases hj : i = j
  · have hlt : j < t.slots.length := hj ▸ h
    rw [if_pos hj, if_pos (hj ▸ h), if_pos hj]
    rfl
  · rw [if_neg hj, if_neg hj]
    rfl

def holdsFile (slot : Option OpenFile) : Bool := slot.any (·.source.holdsFile)

def fileCount (t : DescriptorTable) : Nat := t.slots.countP holdsFile

@[simp] theorem fileCount_create (capacity : Nat) : (create capacity).fileCount = 0 := by
  have hnone : holdsFile none = false := rfl
  have hstdin : holdsFile (some .stdin) = false := rfl
  have hstdout : holdsFile (some .stdout) = false := rfl
  simp [fileCount, create, List.countP_replicate, hnone, hstdin, hstdout]

private theorem fileCount_set (slot : Option OpenFile) (free : List Nat) (h : i < t.capacity) :
    fileCount ⟨t.slots.set i slot, free⟩ + (holdsFile (t.slot? i)).toNat =
      t.fileCount + (holdsFile slot).toNat := by
  have hlt : i < t.slots.length := h
  have hpos : (holdsFile t.slots[i]).toNat ≤ t.slots.countP holdsFile := by
    cases hold : holdsFile t.slots[i] with
    | false => exact Nat.zero_le _
    | true => exact List.countP_pos_iff.2 ⟨_, List.getElem_mem hlt, hold⟩
  rw [slot?_eq_getElem hlt, fileCount, fileCount, List.countP_set hlt, Bool.toNat, Bool.toNat,
    Bool.cond_eq_ite, Bool.cond_eq_ite]
  rw [Bool.toNat, Bool.cond_eq_ite] at hpos
  omega

theorem fileCount_eq_zero (h : ∀ i file, t.slot? i = some file → file.source.holdsFile = false) :
    t.fileCount = 0 := by
  rw [fileCount, List.countP_eq_zero]
  intro slot hslot
  obtain ⟨i, hi⟩ := List.mem_iff_getElem?.1 hslot
  cases slot with
  | none => exact Bool.false_ne_true
  | some file =>
    have hfile : t.slot? i = some file := by
      rw [slot?, hi]
      rfl
    rw [holdsFile, Option.any_some, h i file hfile]
    exact Bool.false_ne_true

theorem openCount_eq_zero (h : ∀ i < t.capacity, t.slot? i = none) : t.openCount = 0 := by
  rw [openCount, List.countP_eq_zero]
  intro slot hslot
  obtain ⟨i, hi, rfl⟩ := List.mem_iff_getElem.1 hslot
  rw [← slot?_eq_getElem hi, h i hi]
  exact Bool.false_ne_true

theorem find?_eq_some_iff {fd : Int} :
    t.find? fd = some (i, file) ↔ 0 ≤ fd ∧ i = fd.toNat ∧ t.slot? i = some file := by
  by_cases hfd : fd < 0
  · simp [find?, index?, hfd, Int.not_le.2 hfd]
  · simp only [find?, index?, hfd, if_false, Option.bind_some, Option.map_eq_some_iff,
      Prod.mk.injEq, Int.not_lt.1 hfd, true_and]
    constructor
    · rintro ⟨found, hslot, rfl, rfl⟩
      exact ⟨rfl, hslot⟩
    · rintro ⟨rfl, hslot⟩
      exact ⟨file, hslot, rfl, rfl⟩

def Below (t : DescriptorTable) (limit : Nat) : Prop :=
  ∀ file, some file ∈ t.slots → ∀ id, file.source.id? = some id → id < limit

theorem mem_slots (h : t.slot? i = some file) : some file ∈ t.slots := by
  rw [← h, slot?_eq_getElem (lt_of_slot? h)]
  exact List.getElem_mem _

theorem below_create (capacity limit : Nat) : (create capacity).Below limit := by
  intro file hfile id hid
  rcases List.mem_cons.1 hfile with heq | hrest
  · cases heq
    cases hid
  · rcases List.mem_cons.1 hrest with heq | hnone
    · cases heq
      cases hid
    · cases (List.mem_replicate.1 hnone).2

theorem Below.mono {limit' : Nat} (h : t.Below limit) (hle : limit ≤ limit') : t.Below limit' :=
  fun file hfile id hid => Nat.lt_of_lt_of_le (h file hfile id hid) hle

theorem Below.set (h : t.Below limit) {slot : Option OpenFile}
    (hslot : ∀ file, slot = some file → ∀ id, file.source.id? = some id → id < limit) (i : Nat)
    (free : List Nat) : Below ⟨t.slots.set i slot, free⟩ limit := by
  intro file hfile
  rcases List.mem_or_eq_of_mem_set hfile with hold | hnew
  · exact h file hold
  · exact hslot file hnew.symm

theorem Below.place (h : t.Below limit) (hfile : ∀ id, file.source.id? = some id → id < limit)
    (hp : t.place? file = some (i, t')) : t'.Below limit := by
  rw [place?] at hp
  split at hp
  · cases hp
  · cases hp
    refine h.set ?_ _ _
    rintro _ ⟨⟩
    exact hfile

/-- The free descriptors are those that can be named and have no open file, each of them once. The
console's are never among them, and never have a file of the file system. -/
structure FreeExact (t : DescriptorTable) : Prop where
  distinct : t.free.Nodup
  free_iff : ∀ i, i ∈ t.free ↔
    firstFree ≤ i ∧ i < DescriptorTable.nameable t.capacity ∧ t.slot? i = none
  named : ∀ i file, t.slot? i = some file →
    i < firstFree ∨ i < DescriptorTable.nameable t.capacity
  console : ∀ i file, t.slot? i = some file → i < firstFree → file.source.holdsFile = false

theorem freeExact_create (capacity : Nat) : (create capacity).FreeExact := by
  have hslot : ∀ i, firstFree ≤ i → (create capacity).slot? i = none := by
    intro i hi
    obtain ⟨j, rfl⟩ := Nat.exists_eq_add_of_le hi
    simp only [slot?, create, firstFree, Nat.add_comm 2 j, List.getElem?_cons_succ,
      List.getElem?_replicate]
    split <;> rfl
  have hfirst : ∀ i file, (create capacity).slot? i = some file → i < firstFree := by
    intro i file h
    refine Nat.lt_of_not_le fun hle => ?_
    rw [hslot i hle] at h
    cases h
  refine ⟨List.nodup_range', ?_, fun i file h => Or.inl (hfirst i file h), ?_⟩
  · intro i
    rw [capacity_create]
    simp only [create, List.mem_range'_1]
    constructor
    · intro hi
      exact ⟨hi.1, by omega, hslot i hi.1⟩
    · intro hi
      exact ⟨hi.1, by omega⟩
  · intro i file h hi
    obtain rfl | rfl : i = 0 ∨ i = 1 := by
      rw [firstFree] at hi
      omega
    all_goals
      cases h
      rfl

private theorem FreeExact.set {file? : Option OpenFile} {free : List Nat} (h : t.FreeExact)
    (hlt : i < t.capacity)
    (hdistinct : free.Nodup)
    (hfree : ∀ j, j ∈ free ↔ if i = j then
      firstFree ≤ i ∧ i < DescriptorTable.nameable t.capacity ∧ file? = none else j ∈ t.free)
    (hnamed : ∀ file, file? = some file →
      i < firstFree ∨ i < DescriptorTable.nameable t.capacity)
    (hconsole : ∀ file, file? = some file → i < firstFree → file.source.holdsFile = false) :
    FreeExact ⟨t.slots.set i file?, free⟩ := by
  have hslot := slot?_set file? free hlt
  have hcapacity : capacity ⟨t.slots.set i file?, free⟩ = t.capacity := List.length_set
  refine ⟨hdistinct, fun j => ?_, fun j file hj => ?_, fun j file hj hlow => ?_⟩
  · rw [hcapacity, hslot, hfree]
    by_cases hj : i = j
    · subst hj
      simp only [if_true]
    · simp only [if_neg hj]
      exact h.free_iff j
  · rw [hcapacity]
    rw [hslot] at hj
    split at hj
    · next heq => exact heq ▸ hnamed file hj
    · exact h.named j file hj
  · rw [hslot] at hj
    split at hj
    · next heq => exact hconsole file hj (heq ▸ hlow)
    · exact h.console j file hj hlow

private theorem FreeExact.used (h : t.FreeExact) (hi : t.slot? i = some file) : i ∉ t.free := by
  rw [h.free_iff, hi]
  simp

theorem FreeExact.setFile (h : t.FreeExact) (hi : t.slot? i = some file)
    (hsame : file'.source.holdsFile = file.source.holdsFile) : (t.setFile i file').FreeExact := by
  refine h.set (lt_of_slot? hi) h.distinct (fun j => ?_) (fun _ _ => h.named i file hi) ?_
  · split
    · next heq =>
      subst heq
      simp [h.used hi]
    · rfl
  · rintro _ ⟨⟩ hlow
    rw [hsame]
    exact h.console i file hi hlow

theorem fileCount_setFile (hi : t.slot? i = some file)
    (hsame : file'.source.holdsFile = file.source.holdsFile) :
    (t.setFile i file').fileCount = t.fileCount := by
  have hcount := fileCount_set (some file') t.free (lt_of_slot? hi)
  have hholds : holdsFile (some file') = holdsFile (some file) := hsame
  rw [hi, hholds] at hcount
  exact Nat.add_right_cancel hcount

theorem FreeExact.place (h : t.FreeExact) (hp : t.place? file = some (i, t')) :
    t'.FreeExact ∧ t'.capacity = t.capacity ∧ t.slot? i = none ∧ i < t.capacity ∧
      t'.fileCount = t.fileCount + file.source.holdsFile.toNat := by
  rw [place?] at hp
  split at hp
  · cases hp
  · next j rest hfree =>
    cases hp
    have hmem : i ∈ t.free := hfree ▸ List.mem_cons_self ..
    obtain ⟨hfirst, hnameable, hnone⟩ := (h.free_iff i).1 hmem
    have hlt : i < t.capacity := Nat.lt_of_lt_of_le hnameable (nameable_le _)
    have hcapacity : capacity ⟨t.slots.set i (some file), rest⟩ = t.capacity := List.length_set
    have hdistinct := h.distinct
    rw [hfree, List.nodup_cons] at hdistinct
    have hcount := fileCount_set (some file) rest hlt
    rw [hnone] at hcount
    refine ⟨h.set hlt hdistinct.2 (fun j => ?_) (fun _ _ => .inr hnameable) ?_, hcapacity, hnone,
      hlt, hcount⟩
    · split
      · next heq =>
        subst heq
        simp [hdistinct.1]
      · next hne => rw [hfree, List.mem_cons, or_iff_right (Ne.symm hne)]
    · exact fun _ _ hlow => absurd hlow (Nat.not_lt.2 hfirst)

theorem FreeExact.vacate (h : t.FreeExact) (hi : t.slot? i = some file) :
    (t.vacate i).FreeExact ∧ (t.vacate i).capacity = t.capacity ∧
      (∀ j, (t.vacate i).slot? j = if i = j then none else t.slot? j) ∧
      (t.vacate i).fileCount + file.source.holdsFile.toNat = t.fileCount := by
  have hlt := lt_of_slot? hi
  have hslot : ∀ j, (t.vacate i).slot? j = if i = j then none else t.slot? j :=
    slot?_set none _ hlt
  have hcapacity : (t.vacate i).capacity = t.capacity := List.length_set
  have hcount : (t.vacate i).fileCount + _ = _ := fileCount_set none _ hlt
  rw [hi] at hcount
  refine ⟨h.set hlt ?_ (fun j => ?_) nofun nofun, hcapacity, hslot, hcount⟩
  · split
    · refine List.nodup_append.2 ⟨h.distinct, List.pairwise_singleton .., ?_⟩
      rintro j hj k hk rfl
      exact h.used hi (List.mem_singleton.1 hk ▸ hj)
    · exact h.distinct
  · by_cases hj : i = j
    · subst hj
      rw [if_pos rfl]
      split
      · next hle => simpa [hle] using (h.named i file hi).resolve_left (Nat.not_lt.2 hle)
      · next hle => simp [hle, h.used hi]
    · rw [if_neg hj]
      split
      · simp [Ne.symm hj]
      · rfl

end DescriptorTable

end PagedKernel

import PagedKernel.Kernel.Dispatch
import PagedKernel.Proofs.Kernel.DeskWork

/-!
# Free descriptors

Whatever is asked of a table, its free descriptors are those without a file, and they stand in the
order in which they became free. So the next file gets the descriptor that has been free for the
longest.
-/

namespace PagedKernel

def CallNumber.onFiles : List CallNumber := [create, openFile, read, write, close, unlink]

namespace DescriptorTable

variable {t t' : DescriptorTable} {file : OpenFile} {capacity i : Nat}
variable {past : List DescriptorTable} {taken kept back : List Nat}

/-- Something is done to a table, with whatever devices, and in whatever turn. -/
inductive Operates (t : DescriptorTable) : DescriptorTable → Prop
  | installs (file : OpenFile) (d : Devices) :
      Operates t (reached (Desk.install file) ⟨t, d⟩).descriptors
  /-- An open file is looked up, and something is done to it. -/
  | gets {α : Type} (fd : Int) (x : EStateM Errno Channel α) (d : Devices) :
      Operates t
        (reached (Desk.file fd >>= fun found => Desk.onFile found.1 x) ⟨t, d⟩).descriptors
  | closes (fd : Int) (d : Devices) : Operates t (reached (Desk.close fd) ⟨t, d⟩).descriptors
  | closesAll (d : Devices) : Operates t (Desk.closeAll ⟨t, d⟩).2.descriptors
  | serves {call : CallNumber} (hcall : call ∈ CallNumber.onFiles) (q : CallRequest) (k : Kernel)
      {p : Process} (hp : p.descriptors = t) :
      Operates t (reached (Turn.serve call q) ⟨k, p⟩).self.descriptors

/-- What becomes of a new table. The tables that it was before stand in `past`, the last one first. -/
inductive History (capacity : Nat) : List DescriptorTable → DescriptorTable → Prop
  | created : History capacity [] (create capacity)
  | operated {past : List DescriptorTable} {t t' : DescriptorTable} (h : History capacity past t)
      (hop : Operates t t') : History capacity (t :: past) t'

/-- The free descriptors are those without a file, apart from the console's. -/
structure Pooled (t : DescriptorTable) : Prop where
  distinct : t.free.Nodup
  free_iff : ∀ i, i ∈ t.free ↔ firstFree ≤ i ∧ i < t.capacity ∧ t.slot? i = none

/-- The descriptors in `taken` stood first and have a file now, and those in `back` have lost theirs
and stand last, the lowest first. -/
structure Shifts (taken kept back : List Nat) (t t' : DescriptorTable) : Prop where
  capacity : t'.capacity = t.capacity
  before : t.free = taken ++ kept
  after : t'.free = kept ++ back
  sorted : back.Pairwise (· < ·)
  used : ∀ i ∈ back, firstFree ≤ i ∧ (t.slot? i).isSome
  occupied : ∀ i, firstFree ≤ i →
    ((t'.slot? i).isSome ↔ i ∈ taken ∨ (t.slot? i).isSome ∧ i ∉ back)
  console : ∀ i < firstFree, t.slot? i = none → t'.slot? i = none

private theorem Alike.shifts (h : t.Alike t') : Shifts [] t.free [] t t' where
  capacity := h.capacity
  before := rfl
  after := by rw [h.free, List.append_nil]
  sorted := .nil
  used := nofun
  occupied i _ := by simp [h.occupied i]
  console i _ hi := by
    have hsame := h.occupied i
    rw [hi] at hsame
    exact Option.isSome_eq_false_iff.1 hsame |> Option.isNone_iff_eq_none.1

private theorem Pooled.place (h : t.Pooled) (hp : t.place? file = some (i, t')) :
    t.free = i :: t'.free ∧ t.slot? i = none ∧ t'.capacity = t.capacity ∧
      ∀ j, t'.slot? j = if i = j then some file else t.slot? j := by
  rw [place?] at hp
  split at hp
  · cases hp
  · next j rest hfree =>
    cases hp
    obtain ⟨-, hlt, hnone⟩ := (h.free_iff i).1 (hfree ▸ List.mem_cons_self ..)
    exact ⟨hfree, hnone, List.length_set, slot?_set _ _ hlt⟩

private theorem Pooled.shifts_place (h : t.Pooled) (hp : t.place? file = some (i, t')) :
    Shifts [i] t'.free [] t t' := by
  obtain ⟨hfree, hnone, hcapacity, hslot⟩ := h.place hp
  refine
    ⟨hcapacity, hfree, (List.append_nil _).symm, .nil, nofun, fun j hj => ?_, fun j hj hempty => ?_⟩
  · rw [hslot]
    by_cases heq : i = j
    · simp [heq]
    · simp [heq, Ne.symm heq]
  · have hother : i ≠ j := by
      have hfirst := ((h.free_iff i).1 (hfree ▸ List.mem_cons_self ..)).1
      omega
    rw [hslot, if_neg hother, hempty]

/-- Some slots were emptied one after the other. -/
structure Empties (slots : List Nat) (t t' : DescriptorTable) : Prop where
  capacity : t'.capacity = t.capacity
  slot : ∀ j, t'.slot? j = if j ∈ slots then none else t.slot? j
  free : t'.free = t.free ++ slots.filter fun i => firstFree ≤ i ∧ (t.slot? i).isSome

private theorem empties_closeSlot (s : Desk) (i : Nat) :
    Empties [i] s.descriptors (s.closeSlot i).2.descriptors := by
  unfold Desk.closeSlot
  cases hslot : s.descriptors.slot? i with
  | none =>
    refine ⟨rfl, fun j => ?_, by simp [hslot]⟩
    by_cases hj : j = i
    · simp [hj, hslot]
    · simp [hj]
  | some file =>
    refine ⟨List.length_set, fun j => ?_, ?_⟩
    · change slot? ⟨s.descriptors.slots.set i none, _⟩ j = _
      rw [slot?_set _ _ (lt_of_slot? hslot)]
      simp [eq_comm]
    · by_cases hfirst : firstFree ≤ i
      · simp [vacate, hslot, hfirst]
      · simp [vacate, hfirst]

private theorem empties_closeSlots (s : Desk) {slots : List Nat} (h : slots.Nodup) :
    Empties slots s.descriptors (s.closeSlots slots).2.descriptors := by
  induction slots generalizing s with
  | nil => exact ⟨rfl, fun j => by simp [Desk.closeSlots], by simp [Desk.closeSlots]⟩
  | cons i rest ih =>
    obtain ⟨hnot, hnodup⟩ := List.nodup_cons.1 h
    have hfirst := empties_closeSlot s i
    have hrest := ih (s.closeSlot i).2 hnodup
    refine ⟨hrest.capacity.trans hfirst.capacity, fun j => ?_, ?_⟩
    · change (Desk.closeSlots (s.closeSlot i).2 rest).2.descriptors.slot? j = _
      rw [hrest.slot, hfirst.slot]
      by_cases hj : j ∈ rest
      · simp [hj]
      · simp [hj]
    · change (Desk.closeSlots (s.closeSlot i).2 rest).2.descriptors.free = _
      have hsame : ∀ j ∈ rest, (s.closeSlot i).2.descriptors.slot? j = s.descriptors.slot? j := by
        intro j hj
        have hother : j ≠ i := fun heq => hnot (heq ▸ hj)
        rw [hfirst.slot, if_neg (by simpa using hother)]
      have hfilter : rest.filter (fun j =>
            firstFree ≤ j ∧ ((s.closeSlot i).2.descriptors.slot? j).isSome) =
          rest.filter fun j => firstFree ≤ j ∧ (s.descriptors.slot? j).isSome :=
        List.filter_congr fun j hj => by rw [hsame j hj]
      rw [hrest.free, hfirst.free, List.append_assoc, hfilter, ← List.filter_append,
        List.singleton_append]

private theorem Empties.shifts {slots : List Nat} (h : Empties slots t t')
    (hsorted : slots.Pairwise (· < ·)) :
    Shifts [] t.free (slots.filter fun i => firstFree ≤ i ∧ (t.slot? i).isSome) t t' where
  capacity := h.capacity
  before := rfl
  after := h.free
  sorted := hsorted.filter _
  used i hi := by simpa using (List.mem_filter.1 hi).2
  occupied i hi := by
    rw [h.slot]
    by_cases hmem : i ∈ slots
    · simp [hmem, hi, Option.isSome_iff_ne_none]
    · simp [hmem]
  console i _ hi := by
    rw [h.slot, hi]
    simp

private theorem Pooled.inRange (h : t.Pooled) (hcapacity : t.capacity < wordLimit) : t.InRange := by
  intro i hi
  obtain ⟨-, hlt, -⟩ := (h.free_iff i).1 hi
  exact ⟨hlt, Nat.lt_trans hlt hcapacity⟩

def Shifted (t t' : DescriptorTable) : Prop := ∃ taken kept back, Shifts taken kept back t t'

private theorem Alike.shifted (h : t.Alike t') : t.Shifted t' := ⟨_, _, _, h.shifts⟩

private theorem shifted_closeSlot (s : Desk) (i : Nat) :
    s.descriptors.Shifted (s.closeSlot i).2.descriptors :=
  ⟨_, _, _, (empties_closeSlot s i).shifts (List.pairwise_singleton ..)⟩

private theorem shifted_of_opens {s s' : Desk} (hopens : s.Opens i s') (h : s.descriptors.Pooled) :
    s.descriptors.Shifted s'.descriptors := by
  obtain ⟨file, hplace⟩ := hopens
  exact ⟨_, _, _, h.shifts_place hplace⟩

private theorem shifted_gets {α : Type} (fd : Int) (x : EStateM Errno Channel α) (s : Desk) :
    s.descriptors.Shifted
      (reached (Desk.file fd >>= fun found => Desk.onFile found.1 x) s).descriptors := by
  refine Ensures.reached (fun s' : Desk => s.descriptors.Shifted s'.descriptors) ?_
  have hfile : Ensures (Desk.file fd) s (fun _ s' => s' = s) (fun _ s' => s' = s) :=
    ensures_bind.2 (ensures_orRefuse (fun _ _ => rfl) fun _ => rfl)
  have hany : ∀ c, Ensures x c (fun _ _ => True) (fun _ _ => True) :=
    fun _ => ensures_intro (fun _ _ _ => trivial) fun _ _ _ => trivial
  apply hfile.bind
  · rintro found s' rfl
    exact (Desk.ensures_onFile (fun _ _ => True) (fun _ => trivial) hany found.1 s').mono
      (fun _ _ h => h.1.shifted) fun _ _ h => h.1.shifted
  · rintro stop s' rfl
    exact (Alike.refl _).shifted

private theorem Pooled.shifted_serve {t : Turn} {call : CallNumber} (h : t.self.descriptors.Pooled)
    (hrange : t.self.descriptors.InRange) (hcall : call ∈ CallNumber.onFiles) (q : CallRequest) :
    t.self.descriptors.Shifted (reached (Turn.serve call q) t).self.descriptors := by
  refine Ensures.reached (fun t' : Turn => t.self.descriptors.Shifted t'.self.descriptors) ?_
  have hopens := fun create => (Turn.ensures_openNamed_opens create q hrange).mono
    (fun _ _ hopens => shifted_of_opens hopens h) fun _ _ huses => huses.descriptors.shifted
  have huses : ∀ {x : Call Nat}, Turn.OnlyUses x → Ensures x t
      (fun _ t' => t.self.descriptors.Shifted t'.self.descriptors)
      (fun _ t' => t.self.descriptors.Shifted t'.self.descriptors) :=
    fun hx => (hx t).mono (fun _ _ h => h.descriptors.shifted) fun _ _ h => h.descriptors.shifted
  simp only [CallNumber.onFiles, List.mem_cons, List.not_mem_nil, or_false] at hcall
  rcases hcall with rfl | rfl | rfl | rfl | rfl | rfl
  · exact hopens true
  · exact hopens false
  · exact huses (Turn.onlyUses_readCall q)
  · exact huses (Turn.onlyUses_writeCall q)
  · apply (Turn.ensures_closeCall q t).mono
    · rintro _ t' ⟨i, hdesk⟩
      have hclosed : t'.self.descriptors = _ := congrArg Desk.descriptors hdesk
      rw [hclosed]
      exact shifted_closeSlot t.desk i
    · intro stop t' hdesk
      have hsame : t'.self.descriptors = t.self.descriptors := congrArg Desk.descriptors hdesk
      rw [hsame]
      exact (Alike.refl _).shifted
  · exact huses (Turn.onlyUses_unlinkCall q)

/-- Whatever is done, the first free descriptor may get a file, and others may lose theirs. -/
theorem Operates.shifted (hop : Operates t t') (h : t.Pooled) (hcapacity : t.capacity < wordLimit) :
    t.Shifted t' := by
  have hrange := h.inRange hcapacity
  cases hop with
  | installs file d =>
    refine Ensures.reached (fun s' : Desk => t.Shifted s'.descriptors) ?_
    apply (Desk.ensures_install (s := ⟨t, d⟩) file hrange).mono
    · rintro i s' ⟨hplace, -⟩
      exact ⟨_, _, _, h.shifts_place hplace⟩
    · rintro stop s' ⟨-, -, rfl⟩
      exact (Alike.refl t).shifted
  | gets fd x d => exact shifted_gets fd x ⟨t, d⟩
  | closes fd d =>
    refine Ensures.reached (fun s' : Desk => t.Shifted s'.descriptors) ?_
    apply (Desk.ensures_close fd ⟨t, d⟩).mono
    · rintro _ s' ⟨-, -, rfl⟩
      exact shifted_closeSlot ⟨t, d⟩ fd.toNat
    · rintro stop s' ⟨-, rfl⟩
      exact (Alike.refl t).shifted
  | closesAll d =>
    exact ⟨_, _, _, (empties_closeSlots ⟨t, d⟩ List.nodup_range).shifts List.pairwise_lt_range⟩
  | @serves call hcall q k p hp =>
    subst hp
    exact h.shifted_serve (t := ⟨k, p⟩) hrange hcall q

/-- Over how many tables, the newest of them first, a descriptor has been free without a break. -/
def freeFor (tables : List DescriptorTable) (i : Nat) : Nat :=
  (tables.takeWhile fun t => (t.slot? i).isNone).length

private theorem freeFor_of_none (hi : t.slot? i = none) :
    freeFor (t :: past) i = freeFor past i + 1 := by
  simp [freeFor, hi]

private theorem freeFor_of_some (hi : (t.slot? i).isSome) : freeFor (t :: past) i = 0 := by
  simp [freeFor, Option.isSome_iff_ne_none.1 hi]

/-- One descriptor has been free for longer than another one. Of those that became free together the
lowest came first. -/
def FreeLonger (tables : List DescriptorTable) (i j : Nat) : Prop :=
  freeFor tables j < freeFor tables i ∨ freeFor tables i = freeFor tables j ∧ i < j

/-- The free descriptors stand in the order in which they became free. -/
structure Queued (past : List DescriptorTable) (t : DescriptorTable) : Prop extends Pooled t where
  order : t.free.Pairwise (FreeLonger (t :: past))

section

variable (h : Shifts taken kept back t t') (ht : t.Pooled)

include h ht

private theorem Shifts.empty_of_kept (hi : i ∈ kept) : t.slot? i = none ∧ t'.slot? i = none := by
  have hdistinct := ht.distinct
  rw [h.before] at hdistinct
  have hfree : i ∈ t.free := h.before ▸ List.mem_append_right _ hi
  obtain ⟨hfirst, -, hnone⟩ := (ht.free_iff i).1 hfree
  have hother : i ∉ taken := fun htaken => (List.nodup_append.1 hdistinct).2.2 i htaken i hi rfl
  refine ⟨hnone, ?_⟩
  rw [← Option.not_isSome_iff_eq_none, h.occupied i hfirst]
  simp [hother, hnone]

private theorem Shifts.empty_of_back (hi : i ∈ back) : t'.slot? i = none := by
  obtain ⟨hfirst, hsome⟩ := h.used i hi
  have hother : i ∉ taken := by
    intro htaken
    have hfree : i ∈ t.free := h.before ▸ List.mem_append_left _ htaken
    rw [((ht.free_iff i).1 hfree).2.2] at hsome
    cases hsome
  rw [← Option.not_isSome_iff_eq_none, h.occupied i hfirst]
  simp [hother, hi]

private theorem Shifts.pooled : t'.Pooled where
  distinct := by
    rw [h.after]
    refine List.nodup_append.2 ⟨?_, h.sorted.imp Nat.ne_of_lt, fun i hi j hj heq => ?_⟩
    · exact (List.nodup_append.1 (h.before ▸ ht.distinct)).2.1
    · have hsome := (h.used j hj).2
      rw [← heq, (h.empty_of_kept ht hi).1] at hsome
      cases hsome
  free_iff i := by
    rw [h.after, List.mem_append, h.capacity]
    constructor
    · rintro (hkept | hback)
      · obtain ⟨hfirst, hlt, -⟩ := (ht.free_iff i).1 (h.before ▸ List.mem_append_right _ hkept)
        exact ⟨hfirst, hlt, (h.empty_of_kept ht hkept).2⟩
      · obtain ⟨hfirst, hsome⟩ := h.used i hback
        obtain ⟨file, hslot⟩ := Option.isSome_iff_exists.1 hsome
        exact ⟨hfirst, lt_of_slot? hslot, h.empty_of_back ht hback⟩
    · rintro ⟨hfirst, hlt, hnone⟩
      have hempty : ¬(i ∈ taken ∨ (t.slot? i).isSome ∧ i ∉ back) := by
        rw [← h.occupied i hfirst, hnone]
        exact Bool.false_ne_true
      by_cases hback : i ∈ back
      · exact .inr hback
      · have hnone' : t.slot? i = none := by
          rw [← Option.not_isSome_iff_eq_none]
          exact fun hsome => hempty (.inr ⟨hsome, hback⟩)
        have hfree := (ht.free_iff i).2 ⟨hfirst, hlt, hnone'⟩
        rw [h.before, List.mem_append] at hfree
        exact .inl (hfree.resolve_left fun htaken => hempty (.inl htaken))

end

private theorem Shifts.queued (h : Shifts taken kept back t t') (ht : Queued past t) :
    Queued (t :: past) t' where
  toPooled := h.pooled ht.toPooled
  order := by
    have hkept : ∀ i ∈ kept, freeFor (t' :: t :: past) i = freeFor (t :: past) i + 1 :=
      fun i hi => freeFor_of_none (h.empty_of_kept ht.toPooled hi).2
    have hpast : ∀ i ∈ kept, 0 < freeFor (t :: past) i := by
      intro i hi
      rw [freeFor_of_none (h.empty_of_kept ht.toPooled hi).1]
      exact Nat.succ_pos _
    have hback : ∀ i ∈ back, freeFor (t' :: t :: past) i = 1 := by
      intro i hi
      rw [freeFor_of_none (h.empty_of_back ht.toPooled hi), freeFor_of_some (h.used i hi).2]
    have horder := ht.order
    rw [h.before] at horder
    rw [h.after]
    refine List.pairwise_append.2 ⟨?_, ?_, fun i hi j hj => ?_⟩
    · refine (List.pairwise_append.1 horder).2.1.imp_of_mem fun {i j} hi hj hij => ?_
      rw [FreeLonger, hkept i hi, hkept j hj]
      exact hij.imp (Nat.add_lt_add_right · 1) fun hsame => ⟨congrArg (· + 1) hsame.1, hsame.2⟩
    · refine h.sorted.imp_of_mem fun {i j} hi hj hij => ?_
      exact .inr ⟨(hback i hi).trans (hback j hj).symm, hij⟩
    · rw [FreeLonger, hkept i hi, hback j hj]
      exact .inl (Nat.lt_add_of_pos_left (hpast i hi))

private theorem queued_create (hcapacity : capacity < wordLimit) : Queued [] (create capacity) := by
  have hlimit : max capacity firstFree < wordLimit := Nat.max_lt.2 ⟨hcapacity, by decide⟩
  have hexact := freeExact_create capacity
  have hfree : ∀ i, i ∈ (create capacity).free ↔
      firstFree ≤ i ∧ i < (create capacity).capacity ∧ (create capacity).slot? i = none := by
    intro i
    rw [hexact.free_iff, capacity_create, nameable_eq hlimit]
  refine ⟨⟨hexact.distinct, hfree⟩, ?_⟩
  have hsorted : (create capacity).free.Pairwise (· < ·) := List.pairwise_lt_range'
  have hone : ∀ i ∈ (create capacity).free, freeFor [create capacity] i = 1 :=
    fun i hi => freeFor_of_none ((hfree i).1 hi).2.2
  refine hsorted.imp_of_mem fun {i j} hi hj hij => ?_
  exact .inr ⟨(hone i hi).trans (hone j hj).symm, hij⟩

private theorem History.queued (h : History capacity past t) (hcapacity : capacity < wordLimit) :
    Queued past t ∧ t.capacity = max capacity firstFree := by
  induction h with
  | created => exact ⟨queued_create hcapacity, capacity_create capacity⟩
  | @operated past t t' h hop ih =>
    obtain ⟨hqueued, hsize⟩ := ih
    have hlimit : t.capacity < wordLimit := by
      rw [hsize]
      exact Nat.max_lt.2 ⟨hcapacity, by decide⟩
    obtain ⟨taken, kept, back, hshifts⟩ := hop.shifted hqueued.toPooled hlimit
    exact ⟨hshifts.queued hqueued, hshifts.capacity.trans hsize⟩

private theorem History.limit (h : History capacity past t) (hcapacity : capacity < wordLimit) :
    t.capacity < wordLimit := by
  rw [(h.queued hcapacity).2]
  exact Nat.max_lt.2 ⟨hcapacity, by decide⟩

private theorem History.console (h : History capacity past t) (hcapacity : capacity < wordLimit)
    (hi : i < firstFree) : ∀ old ∈ past, old.slot? i = none → t.slot? i = none := by
  induction h with
  | created => exact nofun
  | @operated past t t' h hop ih =>
    obtain ⟨hqueued, -⟩ := h.queued hcapacity
    obtain ⟨taken, kept, back, hshifts⟩ := hop.shifted hqueued.toPooled (h.limit hcapacity)
    intro old hold hnone
    rcases List.mem_cons.1 hold with rfl | hbefore
    · exact hshifts.console i hi hnone
    · exact hshifts.console i hi (ih old hbefore hnone)

/-- A descriptor gets a file: the one that has been free for the longest, and no other one. -/
structure Installs (past : List DescriptorTable) (i : Nat) (t t' : DescriptorTable) : Prop where
  free : i ∈ t.free
  longest : ∀ j ∈ t.free, j ≠ i → FreeLonger (t :: past) i j
  empty : t.slot? i = none
  filled : (t'.slot? i).isSome
  others : ∀ j, j ≠ i → t'.slot? j = t.slot? j

private theorem Queued.installs (h : Queued past t) (hp : t.place? file = some (i, t')) :
    Installs past i t t' := by
  obtain ⟨hfree, hnone, -, hslot⟩ := h.toPooled.place hp
  have horder := h.order
  rw [hfree] at horder
  refine ⟨hfree ▸ List.mem_cons_self .., fun j hj hne => ?_, hnone, by simp [hslot], fun j hne => ?_⟩
  · rw [hfree] at hj
    exact (List.pairwise_cons.1 horder).1 j ((List.mem_cons.1 hj).resolve_left hne)
  · rw [hslot, if_neg (Ne.symm hne)]

private theorem Pooled.free_eq_nil_iff (h : t.Pooled) :
    t.free = [] ↔ ∀ i, firstFree ≤ i → i < t.capacity → t.slot? i ≠ none := by
  rw [List.eq_nil_iff_forall_not_mem]
  simp only [h.free_iff, not_and]

theorem place?_eq_none_iff : t.place? file = none ↔ t.free = [] := by
  rw [place?]
  split
  · next hfree => simp [hfree]
  · next hfree => simp [hfree]

private theorem close_eq_error {fd : Int} (d : Devices) (h : fd < 0 ∨ t.slot? fd.toNat = none) :
    Desk.close fd ⟨t, d⟩ = .error (.refused .badFileDescriptor) ⟨t, d⟩ := by
  have hclose := Desk.ensures_close fd ⟨t, d⟩
  rcases hrun : Desk.close fd ⟨t, d⟩ with ⟨_, s⟩ | ⟨stop, s⟩
  · obtain ⟨hle, hsome, -⟩ := hclose.of_ok hrun
    rw [h.resolve_left (Int.not_lt.2 hle)] at hsome
    cases hsome
  · obtain ⟨rfl, rfl⟩ := hclose.of_error hrun
    rfl

/-- Over all that is done to a table, its free descriptors are those without a file, apart from the
console's, which stay closed once they are. A file that is installed gets the descriptor that has
been free for the longest and takes no other file's place. It is refused exactly if no descriptor is
free. A close of a descriptor without a file is refused too, and neither changes the table. -/
theorem History.free_longest_first (hcapacity : capacity < wordLimit) (h : History capacity past t) :
    t.capacity = max capacity firstFree ∧ t.free.Nodup ∧
    (∀ i, i ∈ t.free ↔ firstFree ≤ i ∧ i < t.capacity ∧ t.slot? i = none) ∧
    (∀ i < firstFree, ∀ old ∈ past, old.slot? i = none → t.slot? i = none) ∧
    (∀ file d, Ensures (Desk.install file) ⟨t, d⟩
      (fun i s => Installs past i t s.descriptors ∧ s.descriptors.slot? i = some file)
      (fun stop s => stop = .refused .tooManyOpenFiles ∧ s.descriptors = t)) ∧
    (∀ file d, (∃ stop s, Desk.install file ⟨t, d⟩ = .error stop s) ↔
      ∀ i, firstFree ≤ i → i < t.capacity → t.slot? i ≠ none) ∧
    (∀ create q k p, p.descriptors = t → Ensures (Turn.openNamed create q) ⟨k, p⟩
      (fun i u => Installs past i t u.self.descriptors)
      (fun _ u => t.Alike u.self.descriptors)) ∧
    ∀ fd d, fd < 0 ∨ t.capacity ≤ fd.toNat ∨ t.slot? fd.toNat = none →
      Desk.close fd ⟨t, d⟩ = .error (.refused .badFileDescriptor) ⟨t, d⟩ := by
  obtain ⟨hqueued, hsize⟩ := h.queued hcapacity
  have hpooled := hqueued.toPooled
  have hrange := hpooled.inRange (h.limit hcapacity)
  have hinstall := fun file d => Desk.ensures_install (s := ⟨t, d⟩) file hrange
  refine ⟨hsize, hpooled.distinct, hpooled.free_iff, fun i hi => h.console hcapacity hi,
    fun file d => ?_, fun file d => ?_, ?_, fun fd d hfd => ?_⟩
  · apply (hinstall file d).mono
    · rintro i s ⟨hplace, -⟩
      obtain ⟨-, -, -, hslot⟩ := hpooled.place hplace
      exact ⟨hqueued.installs hplace, by simp [hslot]⟩
    · rintro stop s ⟨rfl, -, rfl⟩
      exact ⟨rfl, rfl⟩
  · rw [← hpooled.free_eq_nil_iff]
    constructor
    · rintro ⟨stop, s, hrun⟩
      exact ((hinstall file d).of_error hrun).2.1
    · intro hfull
      rcases hrun : Desk.install file ⟨t, d⟩ with ⟨i, s⟩ | ⟨stop, s⟩
      · have hplace := ((hinstall file d).of_ok hrun).1
        rw [place?_eq_none_iff.2 hfull] at hplace
        cases hplace
      · exact ⟨stop, s, rfl⟩
  · rintro create q k p rfl
    apply (Turn.ensures_openNamed_opens create q (t := ⟨k, p⟩) hrange).mono
    · rintro i u ⟨file, hplace⟩
      exact hqueued.installs hplace
    · intro stop u huses
      exact huses.descriptors
  · refine close_eq_error d (hfd.imp_right fun hout => hout.elim (fun hle => ?_) id)
    rw [slot?, List.getElem?_eq_none hle]
    rfl

def sampleFile : OpenFile := ⟨.file "notes" (some 0) 0, {}⟩

def sampleTable : DescriptorTable :=
  let first := (reached (Desk.install sampleFile) ⟨create 4, {}⟩).descriptors
  let second := (reached (Desk.install sampleFile) ⟨first, {}⟩).descriptors
  let third := (reached (Desk.close 3) ⟨second, {}⟩).descriptors
  (reached (Desk.close 2) ⟨third, {}⟩).descriptors

private theorem exists_sampleTable : ∃ past, History 4 past sampleTable := by
  have hfirst := (History.created : History 4 _ _).operated (.installs sampleFile {})
  have hsecond := hfirst.operated (.installs sampleFile {})
  have hthird := hsecond.operated (.closes 3 {})
  exact ⟨_, hthird.operated (.closes 2 {})⟩

theorem free_longest_first_sample : ∃ past s, History 4 past sampleTable ∧ sampleTable.free = [3, 2] ∧
    Desk.install sampleFile ⟨sampleTable, {}⟩ = .ok 3 s ∧ Installs past 3 sampleTable s.descriptors ∧
    FreeLonger (sampleTable :: past) 3 2 ∧
    Desk.close 3 ⟨sampleTable, {}⟩ = .error (.refused .badFileDescriptor) ⟨sampleTable, {}⟩ := by
  obtain ⟨past, hhistory⟩ := exists_sampleTable
  have hfree : sampleTable.free = [3, 2] := by decide
  have hthird : (match Desk.install sampleFile ⟨sampleTable, {}⟩ with
      | .ok i _ => i == 3
      | .error _ _ => false) = true := by decide
  obtain ⟨-, -, -, -, hinstall, -, -, hclose⟩ := hhistory.free_longest_first (by decide)
  split at hthird
  · next i s hrun =>
    rw [beq_iff_eq.1 hthird] at hrun
    obtain ⟨hinstalls, -⟩ := (hinstall sampleFile {}).of_ok hrun
    exact ⟨past, s, hhistory, hfree, hrun, hinstalls, hinstalls.longest 2 (by simp [hfree]) (by decide),
      hclose 3 {} (.inr (.inr (by decide)))⟩
  · cases hthird

end DescriptorTable

end PagedKernel

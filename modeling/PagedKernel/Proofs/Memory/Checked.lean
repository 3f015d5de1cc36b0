import PagedKernel.Memory.Accessors
import PagedKernel.Proofs.Ensures
import PagedKernel.Proofs.Memory.Copy

/-!
# What checked access does

A range is accessible when it can be named and an access goes through to each of its bytes. A typed
access then moves all the bytes, and a range that is refused leaves the memory as it was.
-/

namespace PagedKernel

namespace PageTable

variable {t : PageTable} {access : Access}

private theorem pagesAccessible_iff {first count : Nat} :
    t.pagesAccessible access first count = true ↔
      ∀ p, first ≤ p → p < first + count → t.permits access (p * pageSize) = true := by
  induction count generalizing first with
  | zero =>
    have hnone : ∀ p, first ≤ p → ¬ p < first + 0 := by
      intro p hl
      omega
    simp only [pagesAccessible, true_iff]
    intro p hl hu
    exact absurd hu (hnone p hl)
  | succ count ih =>
    rw [pagesAccessible, Bool.and_eq_true, ih]
    change t.permits access (first * pageSize) = true ∧ _ ↔ _
    constructor
    · rintro ⟨hfirst, hrest⟩ p hl hu
      rcases Nat.eq_or_lt_of_le hl with rfl | hlt
      · exact hfirst
      · exact hrest p hlt (by omega)
    · intro h
      refine ⟨h first (Nat.le_refl _) (by omega), fun p hl hu => h p (by omega) (by omega)⟩

private theorem rangeAccessible_iff {start stop : VirtualAddress} :
    t.rangeAccessible start stop access = true ↔
      ∀ b, start.toNat ≤ b → b < stop.toNat → t.permits access b = true := by
  unfold rangeAccessible
  split
  · next hle =>
    simp only [true_iff]
    intro b hl hu
    omega
  · next hlt =>
    rw [pagesAccessible_iff]
    constructor
    · intro h b hl hu
      have hp := h (b / pageSize)
        (by simp only [VirtualAddress.page, pageSize]; omega)
        (by simp only [VirtualAddress.page, pageSize]; omega)
      refine permits_of_page hp ?_
      rw [Nat.mul_div_cancel _ pageSize_pos]
    · intro h p hl hu
      by_cases hfirst : p * pageSize < start.toNat
      · have hp := h start.toNat (Nat.le_refl _) (by omega)
        refine permits_of_page hp ?_
        simp only [VirtualAddress.page, pageSize] at *
        omega
      · refine h _ (by omega) ?_
        simp only [VirtualAddress.page, pageSize] at *
        omega

end PageTable

namespace UserMemory

variable {m : UserMemory} {a length : Nat} {access : Access} {ε : Type}

theorem rangeOk_iff : m.rangeOk a length access = true ↔
    a + length ≤ addressLimit ∧ ∀ i < length, m.table.permits access (a + i) = true := by
  unfold rangeOk userRange?
  by_cases hl : a + length ≤ addressLimit
  · have hfirst : VirtualAddress.ofNat? a = some ⟨a, by omega⟩ :=
      VirtualAddress.ofNat?_eq_some_iff.2 rfl
    have hstop : VirtualAddress.ofNat? (a + length) = some ⟨a + length, hl⟩ :=
      VirtualAddress.ofNat?_eq_some_iff.2 rfl
    simp only [hfirst, hstop, PageTable.rangeAccessible_iff]
    constructor
    · intro h
      exact ⟨hl, fun i hi => h (a + i) (by omega) (by omega)⟩
    · rintro ⟨-, h⟩ b hlow hup
      have hb := h (b - a) (by omega)
      rwa [Nat.add_sub_cancel' hlow] at hb
  · have hstop : VirtualAddress.ofNat? (a + length) = none :=
      VirtualAddress.ofNat?_eq_none_iff.2 (by omega)
    simp only [hstop, hl, false_and]
    cases VirtualAddress.ofNat? a <;> simp

theorem reach_of_rangeOk (h : m.rangeOk a length access = true) :
    m.table.reach access a length = length :=
  PageTable.reach_eq_length_iff.2 (rangeOk_iff.1 h).2

def afterRead (m : UserMemory) (a n : Nat) : UserMemory := ⟨m.table.touched .read a n, m.memory⟩

@[simp] theorem mapping_afterRead (m : UserMemory) (a n : Nat) :
    (m.afterRead a n).table.mapping = m.table.mapping := PageTable.mapping_touched ..

@[simp] theorem byte?_afterRead (m : UserMemory) (a n b : Nat) :
    (m.afterRead a n).byte? b = m.byte? b := byte?_touched ..

theorem fetch_eq (hf : m.Framed) (a length : Nat) :
    (fetch a length : EStateM (Stop ε) UserMemory Bytes) m =
      .ok (m.bytesAt a (m.table.reach .read a length))
        (m.afterRead a (m.table.reach .read a length)) := by
  obtain ⟨hbytes, htable, -, hframe⟩ := copyOut_ofRange hf a (m.clamp a length)
  have hreach : m.table.reach .read a (m.clamp a length) = m.table.reach .read a length :=
    PageTable.reach_clamp ..
  rw [hreach] at hbytes htable
  rcases hobstacle : (copyOut m.memory m.table (Span.ofRange a (m.clamp a length))).obstacle
    with _ | ⟨_, _⟩ | f
  · simp only [fetch, hobstacle, hbytes, htable, afterRead]
  · simp only [fetch, hobstacle, hbytes, htable, afterRead]
  · exact absurd hobstacle (hframe f)

/-- Data is written as far as a write reaches. -/
theorem store_eq (hf : m.Framed) (a : Nat) (data : Bytes) :
    let n := m.table.reach .write a data.length
    ∃ m', (store a data : EStateM (Stop ε) UserMemory Nat) m = .ok n m' ∧
      Wrote m m' a (data.take n) := by
  have hle : m.clamp a data.length ≤ data.length := Nat.min_le_left ..
  obtain ⟨hcount, hwrote, -, hframe⟩ := copyIn_ofRange hf a hle
  have hreach : m.table.reach .write a (m.clamp a data.length) =
      m.table.reach .write a data.length := PageTable.reach_clamp ..
  rw [hreach] at hcount hwrote
  refine ⟨_, ?_, hwrote⟩
  rcases hobstacle : (copyIn m (Span.ofRange a (m.clamp a data.length)) data).obstacle
    with _ | ⟨_, _⟩ | f
  · simp only [store, hobstacle, hcount]
  · simp only [store, hobstacle, hcount]
  · exact absurd hobstacle (hframe f)

theorem checkRange_eq (m : UserMemory) (a length : Nat) (access : Access) :
    checkRange a length access m =
      if m.rangeOk a length access then .ok () m else .error (.refused .badAddress) m := by
  change (if m.rangeOk a length access then pure () else refuse .badAddress :
    EStateM (Stop Errno) UserMemory Unit) m = _
  split <;> rfl

theorem ensures_checkRange : Ensures (checkRange a length access) m
    (fun _ m' => m' = m ∧ m.rangeOk a length access = true)
    (fun stop m' => ¬ m.rangeOk a length access = true ∧ m' = m ∧ stop = .refused .badAddress) := by
  unfold Ensures
  rw [checkRange_eq]
  by_cases hr : m.rangeOk a length access = true
  · rw [if_pos hr]
    exact ⟨rfl, hr⟩
  · rw [if_neg hr]
    exact ⟨hr, rfl, rfl⟩

private theorem ensures_getBytes (hf : m.Framed) : Ensures (getBytes a length) m
    (fun data m' => m.rangeOk a length .read = true ∧ data = m.bytesAt a length ∧
      m' = m.afterRead a length)
    (fun stop m' => m' = m ∧ stop = .refused .badAddress) := by
  refine ensures_checkRange.bind ?_ (fun _ _ h => h.2)
  rintro - m' ⟨hm, hr⟩
  rw [hm, ensures_bind, ensures_of_ok (fetch_eq hf a length), reach_of_rangeOk hr, length_bytesAt,
    if_pos rfl, ensures_pure]
  exact ⟨hr, rfl, rfl⟩

theorem ensures_putBytes (hf : m.Framed) (data : Bytes) : Ensures (putBytes a data) m
    (fun count m' => m.rangeOk a data.length .write = true ∧ count = data.length ∧
      Wrote m m' a data)
    (fun stop m' => ¬ m.rangeOk a data.length .write = true ∧ m' = m ∧
      stop = .refused .badAddress) := by
  refine ensures_checkRange.bind ?_ (fun _ _ h => h)
  rintro - m₁ ⟨hm, hr⟩
  obtain ⟨m', hstore, hwrote⟩ := store_eq (ε := Errno) hf a data
  rw [reach_of_rangeOk hr] at hstore hwrote
  rw [List.take_length] at hwrote
  rw [hm, ensures_bind, ensures_of_ok hstore, if_pos rfl, ensures_pure]
  exact ⟨hr, rfl, hwrote⟩

theorem ensures_getWord (hf : m.Framed) : Ensures (getWord a) m
    (fun w m' => m.rangeOk a 4 .read = true ∧ w = wordOfBytes (m.bytesAt a 4) ∧
      m' = m.afterRead a 4)
    (fun stop m' => m' = m ∧ stop = .refused .badAddress) := by
  refine (ensures_getBytes hf).bind ?_ (fun _ _ h => h)
  rintro data m' ⟨hr, rfl, rfl⟩
  exact ⟨hr, rfl, rfl⟩

theorem length_wordBytes (w : UInt32) : (wordBytes w).length = 4 := littleEndian_length 4 w.toNat

theorem ensures_putWord (hf : m.Framed) (w : UInt32) : Ensures (putWord a w) m
    (fun count m' => m.rangeOk a 4 .write = true ∧ count = 4 ∧ Wrote m m' a (wordBytes w))
    (fun stop m' => ¬ m.rangeOk a 4 .write = true ∧ m' = m ∧ stop = .refused .badAddress) := by
  have h := ensures_putBytes (a := a) hf (wordBytes w)
  rwa [length_wordBytes] at h

theorem ensures_pointer (r : Int32) : Ensures (pointer r) m
    (fun va m' => m' = m ∧ m.table.pointer? r = some va)
    (fun stop m' => m' = m ∧ stop = .refused .badAddress) := by
  unfold pointer
  rw [ensures_bind, ensures_get]
  apply ensures_orRefuse
  · intro va hva
    exact ⟨rfl, hva⟩
  · intro _
    exact ⟨rfl, rfl⟩

/-- A computation that keeps the mapping, and whose only faults are frames that are not there. -/
def MissingFrameOnly {α : Type} (x : EStateM (Stop ε) UserMemory α) : Prop :=
  ∀ m, Ensures x m (fun _ m' => Steady m m')
    (fun stop m' => Steady m m' ∧
      ∀ fault, stop = .fault fault → ∃ g, fault = .missingFrame g ∧ m.Lacks g)

section

variable {α β : Type} {x : EStateM (Stop ε) UserMemory α} {f : α → EStateM (Stop ε) UserMemory β}

private theorem MissingFrameOnly.pure (v : α) :
    MissingFrameOnly (pure v : EStateM (Stop ε) UserMemory α) := Steady.refl

private theorem MissingFrameOnly.refuse (e : ε) :
    MissingFrameOnly (refuse e : EStateM (Stop ε) UserMemory α) := by
  intro m
  refine ⟨Steady.refl m, ?_⟩
  intro fault h
  cases h

private theorem MissingFrameOnly.bind (hx : MissingFrameOnly x) (hf : ∀ v, MissingFrameOnly (f v)) :
    MissingFrameOnly (x >>= f) := by
  intro m
  refine (hx m).bind ?_ (fun _ _ h => h)
  intro v m' h
  refine (hf v m').mono (fun _ _ h' => h.trans h') ?_
  rintro stop m'' ⟨h', hfault⟩
  refine ⟨h.trans h', ?_⟩
  intro fault hstop
  obtain ⟨g, hg, hlacks⟩ := hfault fault hstop
  exact ⟨g, hg, h.lacks_iff.1 hlacks⟩

private theorem MissingFrameOnly.orRefuse (e : ε) (o : Option α) : MissingFrameOnly (orRefuse e o) := by
  cases o with
  | none => exact MissingFrameOnly.refuse e
  | some v => exact MissingFrameOnly.pure v

end

theorem missingFrameOnly_fetch (a length : Nat) :
    MissingFrameOnly (fetch a length : EStateM (Stop ε) _ _) := by
  intro m
  obtain ⟨hsteady, hlacks⟩ := copyOut_steady m (Span.ofRange a (m.clamp a length))
  unfold Ensures fetch
  rcases hobstacle : (copyOut m.memory m.table (Span.ofRange a (m.clamp a length))).obstacle
    with _ | ⟨_, _⟩ | g
  · simp only [hobstacle]
    exact hsteady
  · simp only [hobstacle]
    exact hsteady
  · simp only [hobstacle]
    refine ⟨hsteady, ?_⟩
    intro fault h
    cases h
    exact ⟨g, rfl, hlacks g hobstacle⟩

theorem missingFrameOnly_store (a : Nat) (data : Bytes) :
    MissingFrameOnly (store a data : EStateM (Stop ε) _ _) := by
  intro m
  obtain ⟨hsteady, hlacks⟩ := copyIn_steady m (Span.ofRange a (m.clamp a data.length)) data
  unfold Ensures store
  rcases hobstacle : (copyIn m (Span.ofRange a (m.clamp a data.length)) data).obstacle
    with _ | ⟨_, _⟩ | g
  · simp only [hobstacle]
    exact hsteady
  · simp only [hobstacle]
    exact hsteady
  · simp only [hobstacle]
    refine ⟨hsteady, ?_⟩
    intro fault h
    cases h
    exact ⟨g, rfl, hlacks g hobstacle⟩

private theorem missingFrameOnly_checkRange (a length : Nat) (access : Access) :
    MissingFrameOnly (checkRange a length access) := by
  intro m
  refine ensures_checkRange.mono ?_ ?_
  · rintro - m' ⟨rfl, -⟩
    exact Steady.refl _
  · rintro stop m' ⟨-, rfl, rfl⟩
    refine ⟨Steady.refl _, ?_⟩
    intro fault h
    cases h

theorem missingFrameOnly_getBytes (a length : Nat) : MissingFrameOnly (getBytes a length) := by
  refine (missingFrameOnly_checkRange a length .read).bind fun _ =>
    (missingFrameOnly_fetch a length).bind fun data => ?_
  split
  · exact MissingFrameOnly.pure _
  · exact MissingFrameOnly.refuse _

theorem missingFrameOnly_putBytes (a : Nat) (data : Bytes) : MissingFrameOnly (putBytes a data) := by
  refine (missingFrameOnly_checkRange a data.length .write).bind fun _ =>
    (missingFrameOnly_store a data).bind fun count => ?_
  split
  · exact MissingFrameOnly.pure _
  · exact MissingFrameOnly.refuse _

theorem missingFrameOnly_getWord (a : Nat) : MissingFrameOnly (getWord a) :=
  (missingFrameOnly_getBytes a 4).bind fun _ => .pure _

theorem missingFrameOnly_putWord (a : Nat) (w : UInt32) :
    MissingFrameOnly (putWord a w) := missingFrameOnly_putBytes a (wordBytes w)

theorem missingFrameOnly_getString (a most : Nat) : MissingFrameOnly (getString a most) := by
  refine (missingFrameOnly_fetch a (most + 1)).bind fun data => ?_
  split
  · exact MissingFrameOnly.orRefuse _ _
  · exact MissingFrameOnly.refuse _

end UserMemory

end PagedKernel

import PagedKernel.Proofs.Kernel.AddressSpaces
import PagedKernel.Proofs.Kernel.Reading

/-!
# Typed access, all or nothing

A typed access looks at the pages of its range first, and then copies byte by byte. The two agree on
every range: what the look lets through is copied to its last byte, so the count that the copy gives
back need not be looked at. What the look refuses leaves everything as it was.
-/

namespace PagedKernel

/-- A range that can be accessed as a whole: the machine can name its end, and every page that it
meets is valid and may be written if it is to be. An empty range meets no page. -/
structure PageTable.Grants (t : PageTable) (access : Access) (a length : Nat) : Prop where
  nameable : a + length ≤ addressLimit
  pages : ∀ p, (∃ b, a ≤ b ∧ b < a + length ∧ b / pageSize = p) →
    ∃ e, t.entries[p]? = some e ∧ e.flags.valid = true ∧ (access = .write → e.flags.readOnly = false)

namespace PageTable

variable {t t' : PageTable} {access : Access} {a length : Nat}

/-- Page by page or byte by byte, a range is granted or not. -/
theorem grants_iff : t.Grants access a length ↔
    a + length ≤ addressLimit ∧ ∀ i < length, t.Movable access (a + i) := by
  constructor
  · intro h
    refine ⟨h.nameable, fun i hi => ?_⟩
    have hnameable := h.nameable
    obtain ⟨e, he, hv, hw⟩ := h.pages ((a + i) / pageSize) ⟨a + i, by omega, by omega, rfl⟩
    exact movable_iff.2 (permits_iff.2 ⟨by omega, e, he, hv, e.permits_iff.2 hw⟩)
  · rintro ⟨hnameable, hmovable⟩
    refine ⟨hnameable, ?_⟩
    rintro p ⟨b, hlow, hup, rfl⟩
    have hpage := (hmovable (b - a) (by omega)).page
    rwa [Nat.add_sub_cancel' hlow] at hpage

private theorem grants_zero : t.Grants access a 0 ↔ a ≤ addressLimit := by
  rw [grants_iff]
  exact and_iff_left nofun

theorem Grants.congr (h : t.Grants access a length) (hmapping : t'.mapping = t.mapping) :
    t'.Grants access a length := by
  rw [grants_iff] at h ⊢
  exact ⟨h.1, fun i hi => (movable_congr hmapping).2 (h.2 i hi)⟩

theorem Grants.part {b n : Nat} (h : t.Grants access a length) (hstart : a ≤ b)
    (hstop : b + n ≤ a + length) : t.Grants access b n where
  nameable := hstop.trans h.nameable
  pages p := fun ⟨c, hlow, hup, hp⟩ => h.pages p ⟨c, hstart.trans hlow, hup.trans_le hstop, hp⟩

private theorem Grants.read (h : t.Grants access a length) : t.Grants .read a length := by
  rw [grants_iff] at h ⊢
  exact ⟨h.1, fun i hi => (h.2 i hi).read⟩

end PageTable

namespace UserMemory

variable {m m' : UserMemory} {access : Access} {a length : Nat} {data : Bytes}

theorem rangeOk_iff_grants : m.rangeOk a length access = true ↔ m.table.Grants access a length := by
  rw [rangeOk_iff, PageTable.grants_iff]
  simp only [PageTable.movable_iff]

/-- An access that comes to what it should where it is granted. Where it is not, it is refused and
nothing is different: no byte of the memory, and no mark of an entry. -/
structure AllOrNothing {α : Type} (granted : Prop) (m : UserMemory)
    (r : EStateM.Result (Stop Errno) UserMemory α) (done : α → UserMemory → Prop) : Prop where
  succeeds : (∃ v m', r = .ok v m') ↔ granted
  done : ∀ v m', r = .ok v m' → done v m'
  refused : ¬ granted → r = .error (.refused .badAddress) m

section

variable {α β : Type} {granted : Prop} {x : EStateM (Stop Errno) UserMemory α}
variable {done : α → UserMemory → Prop} {done' : β → UserMemory → Prop}

private theorem AllOrNothing.of_ok {v : α} {r : EStateM.Result (Stop Errno) UserMemory α}
    (hgranted : granted) (hr : r = .ok v m') (hdone : done v m') : AllOrNothing granted m r done := by
  subst hr
  refine ⟨⟨fun _ => hgranted, fun _ => ⟨v, m', rfl⟩⟩, ?_, fun h => absurd hgranted h⟩
  rintro _ _ ⟨⟩
  exact hdone

private theorem AllOrNothing.of_error {r : EStateM.Result (Stop Errno) UserMemory α}
    (hgranted : ¬ granted) (hr : r = .error (.refused .badAddress) m) :
    AllOrNothing granted m r done := by
  subst hr
  refine ⟨⟨?_, fun h => absurd h hgranted⟩, ?_, fun _ => rfl⟩
  · rintro ⟨_, _, ⟨⟩⟩
  · rintro _ _ ⟨⟩

private theorem checkRange_bind_of_grants (h : m.table.Grants access a length) :
    (checkRange a length access >>= fun _ => x) m = x m := by
  have hcheck := checkRange_eq m a length access
  rw [if_pos (rangeOk_iff_grants.2 h)] at hcheck
  exact bind_of_ok hcheck

private theorem checkRange_bind_of_not_grants (h : ¬ m.table.Grants access a length) :
    (checkRange a length access >>= fun _ => x) m = .error (.refused .badAddress) m := by
  have hcheck := checkRange_eq m a length access
  rw [if_neg (rangeOk_iff_grants.not.2 h)] at hcheck
  exact bind_of_error hcheck

/-- What follows the look at a range matters only if the range is granted. -/
theorem allOrNothing_checkRange
    (hx : m.table.Grants access a length → ∃ v m', x m = .ok v m' ∧ done v m') :
    AllOrNothing (m.table.Grants access a length) m
      ((checkRange a length access >>= fun _ => x) m) done := by
  by_cases hgranted : m.table.Grants access a length
  · obtain ⟨v, m', hrun, hdone⟩ := hx hgranted
    exact .of_ok hgranted ((checkRange_bind_of_grants hgranted).trans hrun) hdone
  · exact .of_error hgranted (checkRange_bind_of_not_grants hgranted)

private theorem AllOrNothing.map (h : AllOrNothing granted m (x m) done) (f : α → β)
    (hdone : ∀ v m', done v m' → done' (f v) m') :
    AllOrNothing granted m ((x >>= fun v => pure (f v)) m) done' := by
  by_cases hgranted : granted
  · obtain ⟨v, m', hrun⟩ := h.succeeds.2 hgranted
    exact .of_ok hgranted (bind_of_ok hrun) (hdone v m' (h.done v m' hrun))
  · exact .of_error hgranted (bind_of_error (h.refused hgranted))

end

private theorem fetch_of_grants {ε : Type} (hf : m.Framed) (h : m.table.Grants .read a length) :
    (fetch a length : EStateM (Stop ε) UserMemory Bytes) m =
      .ok (m.bytesAt a length) (m.afterRead a length) := by
  have hfetch := fetch_eq (ε := ε) hf a length
  rwa [reach_of_rangeOk (rangeOk_iff_grants.2 h)] at hfetch

private theorem store_of_grants {ε : Type} (hf : m.Framed) (h : m.table.Grants .write a data.length) :
    ∃ m', (store a data : EStateM (Stop ε) UserMemory Nat) m = .ok data.length m' ∧
      Wrote m m' a data := by
  obtain ⟨m', hstore, hwrote⟩ := store_eq (ε := ε) hf a data
  rw [reach_of_rangeOk (rangeOk_iff_grants.2 h)] at hstore hwrote
  rw [List.take_length] at hwrote
  exact ⟨m', hstore, hwrote⟩

theorem getBytes_of_grants (hf : m.Framed) (h : m.table.Grants .read a length) :
    getBytes a length m = .ok (m.bytesAt a length) (m.afterRead a length) := by
  rw [getBytes, checkRange_bind_of_grants h, bind_of_ok (fetch_of_grants hf h),
    if_pos (length_bytesAt ..)]
  rfl

private theorem getBytes_eq_fetch (hf : m.Framed) (a length : Nat) :
    getBytes a length m = (checkRange a length .read >>= fun _ => fetch a length) m := by
  by_cases h : m.table.Grants .read a length
  · rw [getBytes_of_grants hf h, checkRange_bind_of_grants h, fetch_of_grants hf h]
  · rw [getBytes, checkRange_bind_of_not_grants h, checkRange_bind_of_not_grants h]

private theorem putBytes_eq_store (hf : m.Framed) (a : Nat) (data : Bytes) :
    putBytes a data m = (checkRange a data.length .write >>= fun _ => store a data) m := by
  by_cases h : m.table.Grants .write a data.length
  · obtain ⟨m', hstore, -⟩ := store_of_grants (ε := Errno) hf h
    rw [putBytes, checkRange_bind_of_grants h, checkRange_bind_of_grants h, hstore,
      bind_of_ok hstore, if_pos rfl]
    rfl
  · rw [putBytes, checkRange_bind_of_not_grants h, checkRange_bind_of_not_grants h]

/-- The bytes from an address on are the given ones, and the memory was only looked at. -/
structure Gets (m m' : UserMemory) (a : Nat) (data : Bytes) : Prop where
  read : ∀ i < data.length, m.byte? (a + i) = data[i]?
  peeked : Peeked m m'

private theorem allOrNothing_getBytes (hf : m.Framed) (a length : Nat) :
    AllOrNothing (m.table.Grants .read a length) m (getBytes a length m) fun data m' =>
      data.length = length ∧ Gets m m' a data := by
  by_cases h : m.table.Grants .read a length
  · have hholds := holds_bytesAt hf (rangeOk_iff.1 (rangeOk_iff_grants.2 h)).2
    exact .of_ok h (getBytes_of_grants hf h)
      ⟨length_bytesAt .., fun i hi => (hholds i hi).2, peeked_afterRead ..⟩
  · exact .of_error h (checkRange_bind_of_not_grants h)

private theorem allOrNothing_getWord (hf : m.Framed) (a : Nat) :
    AllOrNothing (m.table.Grants .read a 4) m (getWord a m) fun w m' =>
      Gets m m' a (wordBytes w) := by
  refine (allOrNothing_getBytes hf a 4).map wordOfBytes ?_
  rintro data m' ⟨hlength, hgets⟩
  rwa [wordBytes_wordOfBytes hlength]

private theorem allOrNothing_getInt (hf : m.Framed) (a : Nat) :
    AllOrNothing (m.table.Grants .read a 4) m (getInt a m) fun n m' =>
      Gets m m' a (wordBytes n.toUInt32) :=
  (allOrNothing_getWord hf a).map UInt32.toInt32 fun _ _ h => h

private theorem allOrNothing_putBytes (hm : m.Proper) (a : Nat) (data : Bytes) :
    AllOrNothing (m.table.Grants .write a data.length) m (putBytes a data m) fun count m' =>
      count = data.length ∧ Stores m m' a data ∧
        getBytes a data.length m' = .ok data (m'.afterRead a data.length) := by
  apply allOrNothing_checkRange
  intro h
  obtain ⟨m', hstore, hwrote⟩ := store_of_grants (ε := Errno) hm.framed h
  have hstores := hwrote.stores hm
  have hback := getBytes_of_grants (hwrote.framed hm.framed) (h.read.congr hwrote.mapping)
  rw [hstores.stored] at hback
  refine ⟨data.length, m', ?_, rfl, hstores, hback⟩
  rw [bind_of_ok hstore, if_pos rfl]
  rfl

private theorem allOrNothing_putWord (hm : m.Proper) (a : Nat) (w : UInt32) :
    AllOrNothing (m.table.Grants .write a 4) m (putWord a w m) fun count m' =>
      count = 4 ∧ Stores m m' a (wordBytes w) ∧ getWord a m' = .ok w (m'.afterRead a 4) := by
  have hput := allOrNothing_putBytes hm a (wordBytes w)
  rw [length_wordBytes] at hput
  refine ⟨hput.succeeds, ?_, hput.refused⟩
  intro count m' hrun
  obtain ⟨hcount, hstores, hback⟩ := hput.done count m' hrun
  refine ⟨hcount, hstores, ?_⟩
  rw [getWord, bind_of_ok hback, wordOfBytes_wordBytes]
  rfl

private theorem allOrNothing_putInt (hm : m.Proper) (a : Nat) (n : Int32) :
    AllOrNothing (m.table.Grants .write a 4) m (putInt a n m) fun count m' =>
      count = 4 ∧ Stores m m' a (wordBytes n.toUInt32) ∧
        getInt a m' = .ok n (m'.afterRead a 4) := by
  have hput := allOrNothing_putWord hm a n.toUInt32
  refine ⟨hput.succeeds, ?_, hput.refused⟩
  intro count m' hrun
  obtain ⟨hcount, hstores, hback⟩ := hput.done count m' hrun
  refine ⟨hcount, hstores, ?_⟩
  rw [getInt, bind_of_ok hback, Int32.toInt32_toUInt32]
  rfl

theorem Reachable.proper (h : m.Reachable) : m.Proper := ⟨h.framed, h.nodup⟩

/-- Whatever address space there is, and whatever the address: byte strings and words are moved if
and only if the range is granted, which an empty range is wherever its address can be named. What is
not granted changes nothing. What was put is got back. The test of the count behind the copy decides
nothing: without it the access is the same. -/
theorem Reachable.typed_access (h : m.Reachable) (a : Nat) :
    (∀ length, AllOrNothing (m.table.Grants .read a length) m (getBytes a length m) fun data m' =>
      data.length = length ∧ Gets m m' a data) ∧
    (AllOrNothing (m.table.Grants .read a 4) m (getWord a m) fun w m' =>
      Gets m m' a (wordBytes w)) ∧
    (AllOrNothing (m.table.Grants .read a 4) m (getInt a m) fun n m' =>
      Gets m m' a (wordBytes n.toUInt32)) ∧
    (∀ length (data : Bytes), let n := min length data.length
      AllOrNothing (m.table.Grants .write a n) m (putSlice a length data m) fun count m' =>
        count = n ∧ Stores m m' a (data.take n) ∧
          getBytes a n m' = .ok (data.take n) (m'.afterRead a n)) ∧
    (∀ w, AllOrNothing (m.table.Grants .write a 4) m (putWord a w m) fun count m' =>
      count = 4 ∧ Stores m m' a (wordBytes w) ∧ getWord a m' = .ok w (m'.afterRead a 4)) ∧
    (∀ n, AllOrNothing (m.table.Grants .write a 4) m (putInt a n m) fun count m' =>
      count = 4 ∧ Stores m m' a (wordBytes n.toUInt32) ∧
        getInt a m' = .ok n (m'.afterRead a 4)) ∧
    (∀ access, m.table.Grants access a 0 ↔ a ≤ addressLimit) ∧
    (∀ length, getBytes a length m = (checkRange a length .read >>= fun _ => fetch a length) m) ∧
    ∀ data, putBytes a data m = (checkRange a data.length .write >>= fun _ => store a data) m := by
  refine ⟨allOrNothing_getBytes h.framed a, allOrNothing_getWord h.framed a,
    allOrNothing_getInt h.framed a, ?_, allOrNothing_putWord h.proper a,
    allOrNothing_putInt h.proper a, fun _ => PageTable.grants_zero, getBytes_eq_fetch h.framed a,
    putBytes_eq_store h.framed a⟩
  intro length data n
  have hslice : putSlice a length data = putBytes a (data.take n) := by
    rw [putSlice, ← List.take_length (l := data), List.take_take, List.take_length]
  have hlength : (data.take n).length = n := by
    rw [List.length_take, Nat.min_eq_left (Nat.min_le_right ..)]
  have hput := allOrNothing_putBytes h.proper a (data.take n)
  rw [hslice]
  rwa [hlength] at hput

/-- A word that lies in a page that may be written and in one that may not is got, and not put. One
page before it is put and got back. -/
theorem typed_access_sample : sampleMemory.Reachable ∧
    (∃ w m', getWord 8190 sampleMemory = .ok w m' ∧ Gets sampleMemory m' 8190 (wordBytes w)) ∧
    putWord 8190 7 sampleMemory = .error (.refused .badAddress) sampleMemory ∧
    ∃ m', putInt 8188 (-7) sampleMemory = .ok 4 m' ∧
      getInt 8188 m' = .ok (-7) (m'.afterRead 8188 4) := by
  have hread : sampleMemory.rangeOk 8190 4 .read = true := by decide +kernel
  have hwrite : ¬ sampleMemory.rangeOk 8190 4 .write = true := by decide +kernel
  have hpage : sampleMemory.rangeOk 8188 4 .write = true := by decide +kernel
  rw [rangeOk_iff_grants] at hread hwrite hpage
  obtain ⟨-, hget, -, -, hput, -⟩ := reachable_sampleMemory.typed_access 8190
  obtain ⟨-, -, -, -, -, hputInt, -⟩ := reachable_sampleMemory.typed_access 8188
  obtain ⟨w, m, hw⟩ := hget.succeeds.2 hread
  obtain ⟨count, m', hn⟩ := (hputInt (-7)).succeeds.2 hpage
  obtain ⟨rfl, -, hback⟩ := (hputInt (-7)).done count m' hn
  exact ⟨reachable_sampleMemory, ⟨w, m, hw, hget.done w m hw⟩, (hput 7).refused hwrite, m', hn, hback⟩

end UserMemory

end PagedKernel

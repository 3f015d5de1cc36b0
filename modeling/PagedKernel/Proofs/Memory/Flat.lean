import Mathlib.Order.Bounds.Basic
import PagedKernel.Proofs.Memory.Checked

/-!
# A program's memory as one row of bytes

A transfer goes page by page through frames that lie anywhere. Seen from the program it is a
transfer to or from a row of bytes, which ends before the first byte that the program may not use.
-/

namespace PagedKernel

/-- Whether the byte at an address may be moved: it is one of those of the pages, the machine can
name it, and its page is valid and may be written if it is to be. -/
structure PageTable.Movable (t : PageTable) (access : Access) (a : Nat) : Prop where
  inside : a < t.size
  nameable : a ≤ addressLimit
  page : ∃ e, t.entries[a / pageSize]? = some e ∧ e.flags.valid = true ∧
    (access = .write → e.flags.readOnly = false)

/-- The number of bytes of `length` from an address on that can be moved in a row. -/
def PageTable.Moves (t : PageTable) (access : Access) (a length n : Nat) : Prop :=
  IsGreatest {k | k ≤ length ∧ ∀ i < k, t.Movable access (a + i)} n

section

variable {t : PageTable} {access : Access} {a length : Nat}

theorem Entry.permits_iff (e : Entry) :
    PageTable.Entry.permits e access = true ↔ (access = .write → e.flags.readOnly = false) := by
  cases access <;> simp [PageTable.Entry.permits]

theorem PageTable.movable_iff : t.Movable access a ↔ t.permits access a = true := by
  rw [PageTable.permits_iff]
  constructor
  · intro h
    obtain ⟨e, he, hv, hw⟩ := h.page
    exact ⟨h.nameable, e, he, hv, e.permits_iff.2 hw⟩
  · rintro ⟨hl, e, he, hv, hp⟩
    refine ⟨?_, hl, e, he, hv, e.permits_iff.1 hp⟩
    obtain ⟨hlt, -⟩ := List.getElem?_eq_some_iff.1 he
    simp only [PageTable.size, PageTable.length, pageSize] at *
    omega

theorem PageTable.Movable.read (h : t.Movable access a) : t.Movable .read a := by
  obtain ⟨e, he, hv, -⟩ := h.page
  exact ⟨h.inside, h.nameable, e, he, hv, fun hw => by cases hw⟩

theorem PageTable.moves_reach (t : PageTable) (access : Access) (a length : Nat) :
    t.Moves access a length (t.reach access a length) := by
  constructor
  · refine ⟨t.reach_le access a length, ?_⟩
    intro i hi
    exact movable_iff.2 (permits_of_lt_reach hi)
  · intro k hk
    apply Nat.le_of_not_lt
    intro hreach
    have hstop := not_permits_reach (Nat.lt_of_lt_of_le hreach hk.1)
    rw [movable_iff.1 (hk.2 _ hreach)] at hstop
    cases hstop

private theorem PageTable.Moves.le_room {n : Nat} (h : t.Moves access a length n) : n ≤ t.size - a := by
  rcases Nat.eq_zero_or_pos n with rfl | hpos
  · exact Nat.zero_le _
  · have hlast := (h.1.2 (n - 1) (by omega)).inside
    omega

end

/-- The loop that moves spans comes to its end: each span takes a byte at least. -/
theorem Span.forall_ofRange_pos (a length : Nat) : ∀ span ∈ Span.ofRange a length,
    0 < span.length := by
  induction length using Nat.strongRecOn generalizing a with
  | ind length ih =>
    rcases Nat.eq_zero_or_pos length with rfl | hpos
    · simp
    · have hhead : 0 < UserMemory.headLength a length := UserMemory.headLength_pos hpos
      rw [Span.ofRange_of_pos a hpos, List.forall_mem_cons]
      exact ⟨hhead, ih (length - UserMemory.headLength a length) (by omega) _⟩

namespace UserMemory

variable {m m' : UserMemory} {a n : Nat} {buffer data : Bytes} {ε : Type}

/-- What a read from an address into a buffer does: as many bytes as can be moved are copied, and
the buffer is left alone behind them. -/
structure FlatRead (m : UserMemory) (a : Nat) (buffer : Bytes) (n : Nat) (buffer' : Bytes)
    (m' : UserMemory) : Prop where
  most : m.table.Moves .read a buffer.length n
  inside : n ≤ m.table.size - a
  length : buffer'.length = buffer.length
  copied : ∀ i < n, buffer'[i]? = m.byte? (a + i)
  rest : ∀ i, n ≤ i → buffer'[i]? = buffer[i]?
  memory : m'.memory = m.memory
  mapping : m'.table.mapping = m.table.mapping

/-- What a write of data to an address does: as many bytes as can be moved are changed, and no other
byte of the memory is, whether the program sees it or not. The bytes can be read back. -/
structure FlatWrite (m : UserMemory) (a : Nat) (data : Bytes) (n : Nat) (m' : UserMemory) :
    Prop where
  most : m.table.Moves .write a data.length n
  inside : n ≤ m.table.size - a
  written : ∀ i < n, m'.byte? (a + i) = data[i]?
  kept : ∀ b, (∀ i < n, b ≠ a + i) → m'.byte? b = m.byte? b
  elsewhere : ∀ f o, (∀ i < n, m.table.place? (a + i) ≠ some (f, o)) →
    m'.memory.at? f o = m.memory.at? f o
  size : m'.memory.size = m.memory.size
  mapping : m'.table.mapping = m.table.mapping
  back : ∀ buffer : Bytes, buffer.length = n →
    ∃ m'', (readInto a buffer m' : EStateM.Result (Stop Errno) _ _) = .ok (n, data.take n) m''

private theorem readInto_eq (hf : m.Framed) (a : Nat) (buffer : Bytes) :
    let n := m.table.reach .read a buffer.length
    (readInto a buffer m : EStateM.Result (Stop ε) _ _) =
      .ok (n, m.bytesAt a n ++ buffer.drop n) (m.afterRead a n) := by
  apply Ensures.eq_ok
  rw [readInto, ensures_bind, ensures_of_ok (fetch_eq hf a buffer.length), ensures_pure]
  simp

/-- A read copies the bytes that a flat memory would give. -/
theorem flatRead_readInto (hf : m.Framed) (a : Nat) (buffer : Bytes) :
    ∃ n buffer' m', (readInto a buffer m : EStateM.Result (Stop ε) _ _) = .ok (n, buffer') m' ∧
      FlatRead m a buffer n buffer' m' := by
  have hmost := m.table.moves_reach .read a buffer.length
  refine ⟨_, _, _, readInto_eq hf a buffer, hmost, hmost.le_room, ?_, ?_, ?_, rfl, ?_⟩
  · have hle := m.table.reach_le .read a buffer.length
    simp only [List.length_append, length_bytesAt, List.length_drop]
    omega
  · intro i hi
    obtain ⟨b, hb⟩ := exists_byte hf (PageTable.permits_of_lt_reach hi)
    rw [List.getElem?_append_left (by simpa using hi), getElem?_bytesAt hi, hb, Option.getD_some]
  · intro i hi
    rw [List.getElem?_append_right (by simpa using hi), length_bytesAt, List.getElem?_drop,
      Nat.add_sub_cancel' hi]
  · exact mapping_afterRead ..

/-- A write changes the bytes that a write to a flat memory would. That no other byte of the
program changes needs that no frame is named twice. -/
theorem flatWrite_store (hf : m.Framed) (hn : m.table.mapped.Nodup) (a : Nat) (data : Bytes) :
    ∃ n m', (store a data m : EStateM.Result (Stop ε) _ _) = .ok n m' ∧ FlatWrite m a data n m' := by
  obtain ⟨m', hstore, hwrote⟩ := store_eq (ε := ε) hf a data
  have hmost := m.table.moves_reach .write a data.length
  generalize m.table.reach .write a data.length = n at *
  have hlength : (data.take n).length = n := by
    rw [List.length_take, Nat.min_eq_left hmost.1.1]
  have hwritten : ∀ i < n, m'.byte? (a + i) = data[i]? := by
    intro i hi
    rw [hwrote.byte hn, if_pos (by omega), Nat.add_sub_cancel_left, List.getElem?_take_of_lt hi]
  refine ⟨n, m', hstore, hmost, hmost.le_room, hwritten, ?_, ?_, hwrote.size, hwrote.mapping, ?_⟩
  · intro b hb
    rw [hwrote.byte hn, if_neg]
    rintro ⟨hl, hu⟩
    exact hb (b - a) (by omega) (by omega)
  · intro f o ho
    apply hwrote.elsewhere f o
    intro b hl hu
    have hplace := ho (b - a) (by omega)
    rwa [Nat.add_sub_cancel' hl] at hplace
  · intro buffer hbuffer
    have hreach : m'.table.reach .read a buffer.length = n := by
      rw [PageTable.reach_congr hwrote.mapping, hbuffer, PageTable.reach_eq_length_iff]
      intro i hi
      exact PageTable.movable_iff.1 (hmost.1.2 i hi).read
    have hback : m'.bytesAt a n = data.take n := by
      apply List.ext_getElem?
      intro i
      by_cases hi : i < n
      · obtain ⟨b, hb⟩ : ∃ b, data[i]? = some b := by
          rw [List.getElem?_eq_getElem (Nat.lt_of_lt_of_le hi hmost.1.1)]
          exact ⟨_, rfl⟩
        rw [getElem?_bytesAt hi, hwritten i hi, List.getElem?_take_of_lt hi, hb, Option.getD_some]
      · rw [List.getElem?_eq_none (by simpa using hi), List.getElem?_eq_none (by omega)]
    have hread := readInto_eq (ε := Errno) (hwrote.framed hf) a buffer
    simp only [hreach, hback, List.drop_of_length_le (Nat.le_of_eq hbuffer), List.append_nil] at hread
    exact ⟨_, hread⟩

end UserMemory

end PagedKernel

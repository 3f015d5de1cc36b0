import PagedKernel.Proofs.Memory.Mapping

/-!
# The bytes behind virtual addresses

A program sees the byte that the frame of its page holds. Two address spaces whose tables name no
frame in common do not see each other's bytes, and within one space distinct addresses lead to
distinct bytes when no frame is named twice.
-/

namespace PagedKernel

theorem Frame.getElem?_slice (f : Frame) (offset length i : Nat) :
    (f.slice offset length)[i]? = if i < length then f[offset + i]? else none := by
  rw [Frame.slice, Array.getElem?_toList, Array.getElem?_extract, ← Vector.getElem?_toArray]
  by_cases hi : i < length
  · have hsize := f.size_toArray
    by_cases hf : offset + i < pageSize
    · have hl : i < min (offset + length) f.toArray.size - offset := by omega
      rw [if_pos hl, if_pos hi]
    · have hl : ¬ i < min (offset + length) f.toArray.size - offset := by omega
      rw [if_neg hl, if_pos hi, Array.getElem?_eq_none (by omega)]
  · have hl : ¬ i < min (offset + length) f.toArray.size - offset := by omega
    rw [if_neg hl, if_neg hi]

theorem Frame.getElem?_patch (f : Frame) (offset : Nat) (data : Bytes) (i : Nat) :
    (f.patch offset data)[i]? =
      if i < pageSize ∧ offset ≤ i ∧ i < offset + data.length then data[i - offset]? else f[i]? := by
  by_cases hi : i < pageSize
  · rw [Frame.patch, Vector.getElem?_ofFn, dif_pos hi, Vector.getElem?_eq_getElem hi]
    by_cases ho : offset ≤ i
    · by_cases hd : i < offset + data.length
      · have hlt : i - offset < data.length := by omega
        simp [hi, ho, hd, hlt]
      · have hge : ¬ i - offset < data.length := by omega
        simp [ho, hd, hge]
    · simp [ho]
  · simp [hi]

@[simp] theorem Frame.getElem?_zero (i : Nat) :
    Frame.zero[i]? = if i < pageSize then some 0 else none := by
  simp [Frame.zero, Frame.filled, Vector.getElem?_replicate]

theorem Frame.getElem?_ofBytes (data : Bytes) (i : Nat) :
    (Frame.ofBytes data)[i]? = if i < pageSize then some ((data[i]?).getD 0) else none := by
  simp [Frame.ofBytes, Vector.getElem?_ofFn]

def Memory.at? (m : Memory) (frame offset : Nat) : Option UInt8 :=
  (m.frame? frame).bind fun f => f[offset]?

theorem Memory.at?_congr {m m' : Memory} {frame : Nat} (h : m'.frame? frame = m.frame? frame)
    (offset : Nat) : m'.at? frame offset = m.at? frame offset := by
  rw [at?, h, at?]

theorem Memory.frame?_setFrame_of_ne (m : Memory) {n k : Nat} (f : Frame) (h : n ≠ k) :
    (m.setFrame n f).frame? k = m.frame? k := by
  rw [frame?_setFrame, if_neg (fun hk => h hk.1)]

theorem Memory.frame?_setFrame_self (m : Memory) {n : Nat} (f : Frame) (h : n < m.size) :
    (m.setFrame n f).frame? n = some f := by
  rw [frame?_setFrame, if_pos ⟨rfl, h⟩]

theorem Memory.at?_setFrame_of_ne (m : Memory) {n k : Nat} (f : Frame) (h : n ≠ k) (o : Nat) :
    (m.setFrame n f).at? k o = m.at? k o :=
  at?_congr (m.frame?_setFrame_of_ne f h) o

theorem Memory.at?_setFrame_self (m : Memory) {n : Nat} (f : Frame) (h : n < m.size) (o : Nat) :
    (m.setFrame n f).at? n o = f[o]? := by
  rw [at?, frame?_setFrame_self m f h, Option.bind_some]

theorem Memory.frame?_congr {m m' : Memory} {frame : Nat}
    (h : ∀ o, m'.at? frame o = m.at? frame o) : m'.frame? frame = m.frame? frame := by
  have hfirst := h 0
  cases hf : m.frame? frame with
  | none =>
    cases hf' : m'.frame? frame with
    | none => rfl
    | some f' => simp [at?, hf, hf'] at hfirst
  | some f =>
    cases hf' : m'.frame? frame with
    | none => simp [at?, hf, hf'] at hfirst
    | some f' =>
      congr 1
      apply Vector.ext
      intro o ho
      have hbyte := h o
      simpa [at?, hf, hf', ho] using hbyte

theorem Memory.exists_frame {m : Memory} {n : Nat} (h : n < m.size) : ∃ f, m.frame? n = some f :=
  Option.isSome_iff_exists.1 ((frame?_isSome_iff m n).2 h)

namespace PageTable

variable {t t' : PageTable} {access : Access} {a p n k : Nat} {e : PagedKernel.Entry}

/-- How many bytes of `length` from an address on an access goes through to, up to the first that it
does not. -/
def reach (t : PageTable) (access : Access) : (a length : Nat) → Nat
  | _, 0 => 0
  | a, length + 1 => if t.permits access a then t.reach access (a + 1) length + 1 else 0

theorem reach_le (t : PageTable) (access : Access) (a length : Nat) :
    t.reach access a length ≤ length := by
  induction length generalizing a with
  | zero => exact Nat.le_refl 0
  | succ length ih =>
    rw [reach]
    split
    · exact Nat.succ_le_succ (ih (a + 1))
    · exact Nat.zero_le _

theorem permits_of_lt_reach {length i : Nat} (h : i < t.reach access a length) :
    t.permits access (a + i) = true := by
  induction length generalizing a i with
  | zero => exact absurd h (Nat.not_lt_zero i)
  | succ length ih =>
    rw [reach] at h
    split at h
    · next ha =>
      cases i with
      | zero => exact ha
      | succ i =>
        have hi := ih (Nat.lt_of_succ_lt_succ h)
        rwa [Nat.add_assoc, Nat.add_comm 1 i] at hi
    · exact absurd h (Nat.not_lt_zero i)

/-- The byte behind the reach of an access is not permitted. -/
theorem not_permits_reach {length : Nat} (h : t.reach access a length < length) :
    t.permits access (a + t.reach access a length) = false := by
  induction length generalizing a with
  | zero => exact absurd h (Nat.not_lt_zero _)
  | succ length ih =>
    rw [reach] at h ⊢
    split
    · next ha =>
      rw [if_pos ha] at h
      have hl := ih (Nat.lt_of_succ_lt_succ h)
      rwa [Nat.add_assoc, Nat.add_comm 1] at hl
    · next ha => simpa using ha

/-- The reach is the greatest number of bytes, of those asked for, that are permitted in a row. -/
theorem reach_eq {length n : Nat} (hn : n ≤ length) (hp : ∀ i < n, t.permits access (a + i) = true)
    (hs : n < length → t.permits access (a + n) = false) : t.reach access a length = n := by
  rcases Nat.lt_trichotomy (t.reach access a length) n with h | h | h
  · have hfalse := not_permits_reach (Nat.lt_of_lt_of_le h hn)
    rw [hp _ h] at hfalse
    cases hfalse
  · exact h
  · have htrue := permits_of_lt_reach h
    rw [hs (Nat.lt_of_lt_of_le h (reach_le t access a length))] at htrue
    cases htrue

theorem reach_eq_length_iff {length : Nat} :
    t.reach access a length = length ↔ ∀ i < length, t.permits access (a + i) = true := by
  constructor
  · intro h i hi
    exact permits_of_lt_reach (h.symm ▸ hi)
  · intro h
    exact reach_eq (Nat.le_refl _) h (fun hlt => absurd hlt (Nat.lt_irrefl _))

theorem reach_congr (h : t'.mapping = t.mapping) (access : Access) (a length : Nat) :
    t'.reach access a length = t.reach access a length := by
  induction length generalizing a with
  | zero => rfl
  | succ length ih => rw [reach, reach, permits_congr h, ih]

theorem reach_of_not_permits (h : t.permits access a = false) (length : Nat) :
    t.reach access a length = 0 := by
  cases length with
  | zero => rfl
  | succ length => rw [reach, h, if_neg Bool.false_ne_true]

/-- Bytes that are permitted in a row are followed by the reach behind them. -/
theorem reach_add {head : Nat} (length : Nat)
    (h : ∀ i < head, t.permits access (a + i) = true) :
    t.reach access a (head + length) = head + t.reach access (a + head) length := by
  apply reach_eq
  · exact Nat.add_le_add_left (reach_le ..) head
  · intro i hi
    by_cases hh : i < head
    · exact h i hh
    · have hlt : i - head < t.reach access (a + head) length := by omega
      have hp := permits_of_lt_reach hlt
      rwa [show a + head + (i - head) = a + i by omega] at hp
  · intro hlt
    rw [← Nat.add_assoc]
    exact not_permits_reach (by omega)

/-- Bytes behind the last page are out of reach, whether they are asked for or not. -/
theorem reach_clamp (t : PageTable) (access : Access) (a length : Nat) :
    t.reach access a (min length (t.size - a)) = t.reach access a length := by
  symm
  apply reach_eq
  · exact Nat.le_trans (reach_le ..) (Nat.min_le_left ..)
  · intro i hi
    exact permits_of_lt_reach hi
  · intro hlt
    by_cases hc : t.reach access a (min length (t.size - a)) < min length (t.size - a)
    · exact not_permits_reach hc
    · have hle := reach_le t access a (min length (t.size - a))
      rw [Bool.eq_false_iff, Ne, permits_iff]
      rintro ⟨-, e, he, -⟩
      obtain ⟨hp, -⟩ := List.getElem?_eq_some_iff.1 he
      have hlen : t.size = t.entries.length * pageSize := rfl
      have hmod := Nat.div_add_mod (a + t.reach access a (min length (t.size - a))) pageSize
      simp only [pageSize] at *
      omega

def meets (a n p : Nat) : Bool := decide (0 < n ∧ a / pageSize ≤ p ∧ p ≤ (a + n - 1) / pageSize)

def touched (t : PageTable) (access : Access) (a n : Nat) : PageTable :=
  ⟨t.entries.mapIdx fun p e => if meets a n p then e.touch access else e⟩

theorem getElem?_touched (t : PageTable) (access : Access) (a n p : Nat) :
    (t.touched access a n).entries[p]? =
      (t.entries[p]?).map fun e => if meets a n p then e.touch access else e := by
  rw [touched, List.getElem?_mapIdx]

@[simp] theorem touched_zero (t : PageTable) (access : Access) (a : Nat) :
    t.touched access a 0 = t := by
  have hm : ∀ p, meets a 0 p = false := fun p => by simp [meets]
  refine congrArg PageTable.mk (List.ext_getElem? fun p => ?_)
  rw [List.getElem?_mapIdx, hm]
  simp

@[simp] theorem mapping_touched (t : PageTable) (access : Access) (a n : Nat) :
    (t.touched access a n).mapping = t.mapping := by
  apply List.ext_getElem?
  intro p
  rw [getElem?_mapping, getElem?_mapping, getElem?_touched]
  cases t.entries[p]? with
  | none => rfl
  | some e => by_cases hm : meets a n p <;> simp [hm]

private theorem meets_add (a n k p : Nat) : meets a (n + k) p = (meets a n p || meets (a + n) k p) := by
  rw [Bool.eq_iff_iff]
  simp only [meets, pageSize, Bool.or_eq_true, decide_eq_true_eq]
  omega

theorem touched_touched (t : PageTable) (access : Access) (a n k : Nat) :
    (t.touched access a n).touched access (a + n) k = t.touched access a (n + k) := by
  refine congrArg PageTable.mk (List.ext_getElem? fun p => ?_)
  change ((t.touched access a n).touched access (a + n) k).entries[p]? =
    (t.touched access a (n + k)).entries[p]?
  rw [getElem?_touched, getElem?_touched, getElem?_touched, meets_add, Option.map_map]
  congr 1
  funext e
  cases meets a n p <;> cases meets (a + n) k p <;>
    simp [Entry.touch, Flags.touch_touch]

theorem setEntry_touch (access : Access) (he : t.entries[a / pageSize]? = some e) (hn : 0 < n)
    (hp : a % pageSize + n ≤ pageSize) :
    t.setEntry (a / pageSize) (e.touch access) = t.touched access a n := by
  refine congrArg PageTable.mk (List.ext_getElem? fun p => ?_)
  change (t.entries.set (a / pageSize) (e.touch access))[p]? = (t.touched access a n).entries[p]?
  rw [getElem?_touched, List.getElem?_set]
  have hm : meets a n p = decide (a / pageSize = p) := by
    have hlast : (a + n - 1) / pageSize = a / pageSize := by
      simp only [pageSize] at *
      omega
    rw [Bool.eq_iff_iff]
    simp only [meets, decide_eq_true_eq, hlast]
    omega
  rw [hm]
  by_cases hpage : a / pageSize = p
  · subst hpage
    obtain ⟨hlt, rfl⟩ := List.getElem?_eq_some_iff.1 he
    simp [hlt]
  · simp [hpage]

/-- The frame that holds the byte at an address, and its place in there, whether the page is valid or
not. -/
def place? (t : PageTable) (a : Nat) : Option (Nat × Nat) :=
  (t.entries[a / pageSize]?).map fun e => (e.frame, a % pageSize)

theorem place?_of_entry (he : t.entries[a / pageSize]? = some e) :
    t.place? a = some (e.frame, a % pageSize) := by
  simp [place?, he]

theorem place?_congr (h : t'.mapping = t.mapping) (a : Nat) : t'.place? a = t.place? a := by
  have hframes : t'.mapped[a / pageSize]? = t.mapped[a / pageSize]? := by rw [mapped_congr h]
  simp only [mapped, List.getElem?_map] at hframes
  have hpair := congrArg (Option.map fun frame => (frame, a % pageSize)) hframes
  simpa [place?, Function.comp_def] using hpair

theorem mem_mapped_of_place? {f o : Nat} (h : t.place? a = some (f, o)) : f ∈ t.mapped := by
  obtain ⟨e, he, hplace⟩ := Option.map_eq_some_iff.1 h
  cases hplace
  exact List.mem_map_of_mem (List.mem_iff_getElem?.2 ⟨_, he⟩)

end PageTable

namespace UserMemory

variable {m m' : UserMemory} {a b n k : Nat} {e : Entry}

/-- The byte at an address, if a valid page holds it. -/
def byte? (m : UserMemory) (a : Nat) : Option UInt8 :=
  match m.table.entries[a / pageSize]? with
  | some e => if e.flags.valid then m.memory.at? e.frame (a % pageSize) else none
  | none => none

theorem byte?_of_entry (he : m.table.entries[a / pageSize]? = some e) (hv : e.flags.valid = true) :
    m.byte? a = m.memory.at? e.frame (a % pageSize) := by
  simp only [byte?, he, hv, if_true]

/-- The bytes that a table shows depend on the frames that it names, and on its mapping. -/
theorem byte?_congr (ht : m'.table.mapping = m.table.mapping)
    (hf : ∀ f ∈ m.table.mapped, m'.memory.frame? f = m.memory.frame? f) (a : Nat) :
    m'.byte? a = m.byte? a := by
  unfold byte?
  cases he : m.table.entries[a / pageSize]? with
  | none => rw [PageTable.getElem?_eq_none_congr ht he]
  | some e =>
    obtain ⟨e', he', hb⟩ := PageTable.getElem?_congr ht he
    have hframe := Entry.frame_congr hb
    have hvalid := Entry.valid_congr hb
    have hmem : e.frame ∈ m.table.mapped :=
      List.mem_map_of_mem (List.mem_iff_getElem?.2 ⟨_, he⟩)
    simp only [he', hframe, hvalid, Memory.at?_congr (hf _ hmem)]

theorem byte?_touched (m : UserMemory) (access : Access) (a n b : Nat) :
    (⟨m.table.touched access a n, m.memory⟩ : UserMemory).byte? b = m.byte? b := by
  apply byte?_congr
  · exact PageTable.mapping_touched ..
  · intro f _
    rfl

def Framed (m : UserMemory) : Prop := ∀ f ∈ m.table.mapped, f < m.memory.size

theorem Framed.congr (hf : m.Framed) (ht : m'.table.mapping = m.table.mapping)
    (hs : m'.memory.size = m.memory.size) : m'.Framed := by
  intro f h
  rw [PageTable.mapped_congr ht] at h
  rw [hs]
  exact hf f h

theorem Framed.entry (hf : m.Framed) {p : Nat} (he : m.table.entries[p]? = some e) :
    e.frame < m.memory.size :=
  hf _ (List.mem_map_of_mem (List.mem_iff_getElem?.2 ⟨_, he⟩))

theorem exists_byte (hf : m.Framed) (hp : m.table.permits .read a = true) :
    ∃ b, m.byte? a = some b := by
  obtain ⟨-, e, he, hv, -⟩ := PageTable.permits_iff.1 hp
  obtain ⟨f, hframe⟩ := Memory.exists_frame (hf.entry he)
  have hlt : a % pageSize < pageSize := Nat.mod_lt a pageSize_pos
  refine ⟨f[a % pageSize], ?_⟩
  rw [byte?_of_entry he hv, Memory.at?, hframe, Option.bind_some, Vector.getElem?_eq_getElem hlt]

/-- The `n` bytes from an address on, with zeros where there are none. -/
def bytesAt (m : UserMemory) (a n : Nat) : Bytes :=
  (List.range' a n).map fun i => (m.byte? i).getD 0

@[simp] theorem bytesAt_zero (m : UserMemory) (a : Nat) : m.bytesAt a 0 = [] := rfl

@[simp] theorem length_bytesAt (m : UserMemory) (a n : Nat) : (m.bytesAt a n).length = n := by
  simp [bytesAt]

theorem bytesAt_add (m : UserMemory) (a n k : Nat) :
    m.bytesAt a (n + k) = m.bytesAt a n ++ m.bytesAt (a + n) k := by
  rw [bytesAt, bytesAt, bytesAt, ← List.map_append, List.range'_append_1]

theorem bytesAt_congr (h : ∀ i < n, m'.byte? (a + i) = m.byte? (a + i)) :
    m'.bytesAt a n = m.bytesAt a n := by
  apply List.map_congr_left
  intro b hb
  obtain ⟨hl, hu⟩ := List.mem_range'_1.1 hb
  have hi := h (b - a) (by omega)
  rw [Nat.add_sub_cancel' hl] at hi
  rw [hi]

theorem getElem?_bytesAt {i : Nat} (hi : i < n) :
    (m.bytesAt a n)[i]? = some ((m.byte? (a + i)).getD 0) := by
  have hr : (List.range' a n)[i]? = some (a + i) := by
    rw [List.getElem?_range' hi, Nat.one_mul]
  rw [bytesAt, List.getElem?_map, hr]
  rfl

end UserMemory

end PagedKernel

import PagedKernel.Proofs.Memory.View

/-!
# Copies to and from a program's memory

A copy goes through as far as the access reaches. It notes the access in the pages of the bytes that
it moved, and a copy into the memory changes those bytes and no others: this is where it matters
that no frame is named twice.
-/

namespace PagedKernel.UserMemory

variable {m m' m'' : UserMemory} {a b n : Nat} {data rest : Bytes}

section Chunk

variable {e : Entry} {f : Frame}

private theorem page_of_head {head i : Nat} (hh : a % pageSize + head ≤ pageSize) (hi : i < head) :
    (a + i) / pageSize = a / pageSize ∧ (a + i) % pageSize = a % pageSize + i := by
  simp only [pageSize] at *
  omega

private theorem frame_of_entry {memory : Memory} (hf : e.frame < memory.size) (offset : Nat) :
    (PhysicalAddress.ofFrame e.frame offset).frame = e.frame :=
  PhysicalAddress.frame_ofFrame (Nat.lt_of_lt_of_le hf memory.size_le)

private theorem offset_of_entry (frame : Nat) :
    (PhysicalAddress.ofFrame frame (a % pageSize)).offset = a % pageSize := by
  rw [PhysicalAddress.offset_ofFrame, Nat.mod_mod]

private theorem slice_eq_bytesAt {head : Nat} (he : m.table.entries[a / pageSize]? = some e)
    (hv : e.flags.valid = true) (hf : m.memory.frame? e.frame = some f)
    (hh : a % pageSize + head ≤ pageSize) : f.slice (a % pageSize) head = m.bytesAt a head := by
  apply List.ext_getElem?
  intro i
  rw [Frame.getElem?_slice]
  by_cases hi : i < head
  · obtain ⟨hpage, hoffset⟩ := page_of_head hh hi
    have hb : m.byte? (a + i) = f[a % pageSize + i]? := by
      rw [byte?_of_entry (by rw [hpage, he]) hv, Memory.at?, hf, Option.bind_some, hoffset]
    have hlt : a % pageSize + i < pageSize := by omega
    rw [if_pos hi, getElem?_bytesAt hi, hb, Vector.getElem?_eq_getElem hlt, Option.getD_some]
  · rw [if_neg hi, List.getElem?_eq_none (by rw [length_bytesAt]; omega)]

private theorem byte?_patch (hn : m.table.mapped.Nodup)
    (he : m.table.entries[a / pageSize]? = some e) (hv : e.flags.valid = true)
    (hf : m.memory.frame? e.frame = some f) (hd : a % pageSize + data.length ≤ pageSize) (b : Nat) :
    (⟨m.table, m.memory.setFrame e.frame (f.patch (a % pageSize) data)⟩ : UserMemory).byte? b =
      if a ≤ b ∧ b < a + data.length then data[b - a]? else m.byte? b := by
  have hsize : e.frame < m.memory.size :=
    (Memory.frame?_isSome_iff ..).1 (Option.isSome_iff_exists.2 ⟨f, hf⟩)
  by_cases hpage : b / pageSize = a / pageSize
  · have hb : m.byte? b = f[b % pageSize]? := by
      rw [byte?_of_entry (hpage ▸ he) hv, Memory.at?, hf, Option.bind_some]
    rw [byte?_of_entry (hpage ▸ he) hv, hb]
    simp only
    rw [Memory.at?_setFrame_self _ _ hsize, Frame.getElem?_patch]
    have hmod : b % pageSize < pageSize := Nat.mod_lt b pageSize_pos
    have ha := Nat.div_add_mod a pageSize
    have hbm := Nat.div_add_mod b pageSize
    rw [hpage] at hbm
    have hiff : (b % pageSize < pageSize ∧ a % pageSize ≤ b % pageSize ∧
        b % pageSize < a % pageSize + data.length) ↔ (a ≤ b ∧ b < a + data.length) := by omega
    have hsub : b % pageSize - a % pageSize = b - a := by omega
    rw [hsub]
    simp only [hiff]
  · have hout : ¬ (a ≤ b ∧ b < a + data.length) := by
      rintro ⟨hl, hu⟩
      obtain ⟨hp, -⟩ := page_of_head hd (show b - a < data.length by omega)
      rw [Nat.add_sub_cancel' hl] at hp
      exact hpage hp
    rw [if_neg hout]
    unfold byte?
    cases hb : m.table.entries[b / pageSize]? with
    | none => rfl
    | some e' =>
      have hne : e.frame ≠ e'.frame := by
        intro heq
        apply hpage
        have hm : m.table.mapped[a / pageSize]? = m.table.mapped[b / pageSize]? := by
          simp only [PageTable.mapped, List.getElem?_map, he, hb, Option.map_some, heq]
        have hlt : a / pageSize < m.table.mapped.length := by
          obtain ⟨hlt, -⟩ := List.getElem?_eq_some_iff.1 he
          simpa [PageTable.length] using hlt
        exact ((List.getElem?_inj hlt hn).1 hm).symm
      simp only [Memory.at?_setFrame_of_ne _ _ hne]

private theorem at?_patch (he : m.table.entries[a / pageSize]? = some e)
    (hsize : e.frame < m.memory.size) (hf : m.memory.frame? e.frame = some f)
    (hd : a % pageSize + data.length ≤ pageSize) {g o : Nat}
    (ho : ∀ b, a ≤ b → b < a + data.length → m.table.place? b ≠ some (g, o)) :
    (m.memory.setFrame e.frame (f.patch (a % pageSize) data)).at? g o = m.memory.at? g o := by
  by_cases hg : e.frame = g
  · subst hg
    have hsame : m.memory.at? e.frame o = f[o]? := by rw [Memory.at?, hf, Option.bind_some]
    rw [Memory.at?_setFrame_self _ _ hsize, hsame, Frame.getElem?_patch, if_neg]
    rintro ⟨-, hl, hu⟩
    obtain ⟨hpage, hoffset⟩ := page_of_head hd (show o - a % pageSize < data.length by omega)
    apply ho (a + (o - a % pageSize)) (by omega) (by omega)
    rw [PageTable.place?_of_entry (hpage.symm ▸ he), hoffset, Nat.add_sub_cancel' hl]
  · exact Memory.at?_setFrame_of_ne _ _ hg o

end Chunk

/-- The memory `m'` is the memory `m` with `data` written at an address. -/
structure Wrote (m m' : UserMemory) (a : Nat) (data : Bytes) : Prop where
  table : m'.table = m.table.touched .write a data.length
  size : m'.memory.size = m.memory.size
  elsewhere : ∀ f o, (∀ b, a ≤ b → b < a + data.length → m.table.place? b ≠ some (f, o)) →
    m'.memory.at? f o = m.memory.at? f o
  byte : m.table.mapped.Nodup →
    ∀ b, m'.byte? b = if a ≤ b ∧ b < a + data.length then data[b - a]? else m.byte? b

theorem Wrote.refl (m : UserMemory) (a : Nat) : Wrote m m a [] where
  table := (PageTable.touched_zero ..).symm
  size := rfl
  elsewhere _ _ _ := rfl
  byte _ b := by
    have hout : ¬ (a ≤ b ∧ b < a + ([] : Bytes).length) := by
      simp only [List.length_nil]
      omega
    rw [if_neg hout]

theorem Wrote.foreign (h : Wrote m m' a data) (f : Nat) (hf : f ∉ m.table.mapped) :
    m'.memory.frame? f = m.memory.frame? f := by
  apply Memory.frame?_congr
  intro o
  apply h.elsewhere f o
  intro b _ _ hplace
  exact hf (PageTable.mem_mapped_of_place? hplace)

theorem Wrote.mapping (h : Wrote m m' a data) : m'.table.mapping = m.table.mapping := by
  rw [h.table, PageTable.mapping_touched]

theorem Wrote.framed (h : Wrote m m' a data) (hf : m.Framed) : m'.Framed :=
  hf.congr h.mapping h.size

theorem getElem?_pieces (first rest : Bytes) (a b : Nat) (old : Option UInt8) :
    (if a ≤ b ∧ b < a + (first ++ rest).length then (first ++ rest)[b - a]? else old) =
      if a + first.length ≤ b ∧ b < a + first.length + rest.length then
        rest[b - (a + first.length)]?
      else if a ≤ b ∧ b < a + first.length then first[b - a]? else old := by
  rw [List.length_append, List.getElem?_append]
  by_cases hfirst : a ≤ b ∧ b < a + first.length
  · have hrest : ¬ (a + first.length ≤ b ∧ b < a + first.length + rest.length) := by omega
    have hall : a ≤ b ∧ b < a + (first.length + rest.length) := by omega
    have hlt : b - a < first.length := by omega
    rw [if_neg hrest, if_pos hfirst, if_pos hall, if_pos hlt]
  · rw [if_neg hfirst]
    by_cases hrest : a + first.length ≤ b ∧ b < a + first.length + rest.length
    · have hall : a ≤ b ∧ b < a + (first.length + rest.length) := by omega
      have hlt : ¬ b - a < first.length := by omega
      rw [if_pos hrest, if_pos hall, if_neg hlt, Nat.sub_sub]
    · have hall : ¬ (a ≤ b ∧ b < a + (first.length + rest.length)) := by omega
      rw [if_neg hrest, if_neg hall]

theorem Wrote.trans (h : Wrote m m' a data) (h' : Wrote m' m'' (a + data.length) rest) :
    Wrote m m'' a (data ++ rest) where
  table := by rw [h'.table, h.table, PageTable.touched_touched, List.length_append]
  size := h'.size.trans h.size
  elsewhere f o ho := by
    rw [h'.elsewhere f o, h.elsewhere f o]
    · intro b hl hu
      exact ho b hl (by simp only [List.length_append]; omega)
    · intro b hl hu
      rw [PageTable.place?_congr h.mapping]
      exact ho b (by omega) (by simp only [List.length_append]; omega)
  byte hn b := by
    have hn' : m'.table.mapped.Nodup := by rwa [PageTable.mapped_congr h.mapping]
    rw [h'.byte hn' b, h.byte hn b, getElem?_pieces]

/-- Two memories of one size, with tables that map alike. -/
structure Steady (m m' : UserMemory) : Prop where
  mapping : m'.table.mapping = m.table.mapping
  size : m'.memory.size = m.memory.size

theorem Steady.refl (m : UserMemory) : Steady m m := ⟨rfl, rfl⟩

theorem Steady.trans (h : Steady m m') (h' : Steady m' m'') : Steady m m'' :=
  ⟨h'.mapping.trans h.mapping, h'.size.trans h.size⟩

def Lacks (m : UserMemory) (g : Nat) : Prop :=
  m.memory.size ≤ g ∧ ∃ f ∈ m.table.mapped, g ≤ f

theorem Steady.lacks_iff (h : Steady m m') {g : Nat} : m'.Lacks g ↔ m.Lacks g := by
  rw [Lacks, Lacks, h.size, PageTable.mapped_congr h.mapping]

private theorem lacks_of_none {p : Nat} {e : Entry} {offset : Nat}
    (he : m.table.entries[p]? = some e)
    (hn : m.memory.frame? (PhysicalAddress.ofFrame e.frame offset).frame = none) :
    m.Lacks (PhysicalAddress.ofFrame e.frame offset).frame := by
  refine ⟨?_, e.frame, List.mem_map_of_mem (List.mem_iff_getElem?.2 ⟨_, he⟩), ?_⟩
  · rw [← Nat.not_lt, ← Memory.frame?_isSome_iff, hn]
    exact Bool.false_ne_true
  · have hmod : e.frame * pageSize % counterRange ≤ e.frame * pageSize := Nat.mod_le ..
    simp only [PhysicalAddress.frame, PhysicalAddress.ofFrame, pageSize] at *
    omega

/-- Copies of any spans keep the mapping, and are stopped by nothing but an address that is refused
or a frame that is not there. -/
theorem copyOut_steady (m : UserMemory) (spans : List Span) :
    let copy := copyOut m.memory m.table spans
    Steady m ⟨copy.table, m.memory⟩ ∧ ∀ g, copy.obstacle = some (.noFrame g) → m.Lacks g := by
  induction spans generalizing m with
  | nil =>
    refine ⟨Steady.refl m, ?_⟩
    intro g hg
    cases hg
  | cons span rest ih =>
    cases hp : m.table.permits .read span.start with
    | false =>
      obtain ⟨cause, hc⟩ := PageTable.translateNat_of_not_permits hp
      simp only [copyOut, hc]
      refine ⟨Steady.refl m, ?_⟩
      intro g hg
      cases hg
    | true =>
      obtain ⟨e, he, -, -, ht⟩ := PageTable.translateNat_of_permits hp
      let table := m.table.setEntry (span.start / pageSize) (e.touch .read)
      have hstep : Steady m ⟨table, m.memory⟩ := ⟨PageTable.setEntry_touch_mapping he .read, rfl⟩
      cases hread : m.memory.read? (.ofFrame e.frame (span.start % pageSize)) span.length with
      | none =>
        simp only [copyOut, ht, hread]
        refine ⟨hstep, ?_⟩
        intro g hg
        cases hg
        exact lacks_of_none he (Option.map_eq_none_iff.1 hread)
      | some chunk =>
        simp only [copyOut, ht, hread]
        obtain ⟨hrest, hlacks⟩ := ih ⟨table, m.memory⟩
        exact ⟨hstep.trans hrest, fun g hg => hstep.lacks_iff.1 (hlacks g hg)⟩

theorem copyIn_steady (m : UserMemory) (spans : List Span) (data : Bytes) :
    let copy := copyIn m spans data
    Steady m copy.target ∧ ∀ g, copy.obstacle = some (.noFrame g) → m.Lacks g := by
  induction spans generalizing m data with
  | nil =>
    refine ⟨Steady.refl m, ?_⟩
    intro g hg
    cases hg
  | cons span rest ih =>
    cases hp : m.table.permits .write span.start with
    | false =>
      obtain ⟨cause, hc⟩ := PageTable.translateNat_of_not_permits hp
      simp only [copyIn, hc]
      refine ⟨Steady.refl m, ?_⟩
      intro g hg
      cases hg
    | true =>
      obtain ⟨e, he, -, -, ht⟩ := PageTable.translateNat_of_permits hp
      let table := m.table.setEntry (span.start / pageSize) (e.touch .write)
      have hmap : table.mapping = m.table.mapping := PageTable.setEntry_touch_mapping he .write
      cases hframe : m.memory.frame? (PhysicalAddress.ofFrame e.frame (span.start % pageSize)).frame
        with
      | none =>
        simp only [copyIn, ht, Memory.write?, hframe, Option.map_none]
        refine ⟨⟨hmap, rfl⟩, ?_⟩
        intro g hg
        cases hg
        exact lacks_of_none he hframe
      | some f =>
        simp only [copyIn, ht, Memory.write?, hframe, Option.map_some]
        let memory := m.memory.setFrame (PhysicalAddress.ofFrame e.frame
          (span.start % pageSize)).frame (f.patch (PhysicalAddress.ofFrame e.frame
          (span.start % pageSize)).offset (data.take span.length))
        have hstep : Steady m ⟨table, memory⟩ := ⟨hmap, Memory.size_setFrame ..⟩
        obtain ⟨hrest, hlacks⟩ := ih ⟨table, memory⟩ (data.drop span.length)
        exact ⟨hstep.trans hrest, fun g hg => hstep.lacks_iff.1 (hlacks g hg)⟩

def headLength (a length : Nat) : Nat := min length (pageSize - a % pageSize)

section

variable {length : Nat}

theorem headLength_pos (h : 0 < length) : 0 < headLength a length := by
  have hlt := Nat.mod_lt a pageSize_pos
  simp only [headLength]
  omega

theorem headLength_le : headLength a length ≤ length := Nat.min_le_left ..

theorem headLength_page : a % pageSize + headLength a length ≤ pageSize := by
  have hlt := Nat.mod_lt a pageSize_pos
  simp only [headLength]
  omega

theorem ofRange_head (hpos : 0 < length) :
    Span.ofRange a length = ⟨a, headLength a length⟩ ::
      Span.ofRange (a + headLength a length) (length - headLength a length) :=
  Span.ofRange_of_pos a hpos

/-- An access that is let through reaches the end of the page, and goes on from there. -/
theorem reach_headLength {t : PageTable} {access : Access} (hp : t.permits access a = true) :
    t.reach access a length = headLength a length +
      t.reach access (a + headLength a length) (length - headLength a length) := by
  have hall : ∀ i < headLength a length, t.permits access (a + i) = true := fun i hi =>
    PageTable.permits_of_page hp (page_of_head headLength_page hi).1
  have hadd := PageTable.reach_add (length - headLength a length) hall
  rwa [Nat.add_sub_cancel' headLength_le] at hadd

theorem exists_read (hf : m.Framed) (hp : m.table.permits .read a = true) (hpos : 0 < length) :
    ∃ pa, m.table.translateNat a .read =
        .ok (pa, m.table.touched .read a (headLength a length)) ∧
      m.memory.read? pa (headLength a length) = some (m.bytesAt a (headLength a length)) := by
  obtain ⟨e, he, hv, -, ht⟩ := PageTable.translateNat_of_permits hp
  obtain ⟨f, hframe⟩ := Memory.exists_frame (hf.entry he)
  have hset := PageTable.setEntry_touch .read he (headLength_pos hpos) headLength_page
  refine ⟨.ofFrame e.frame (a % pageSize), by rw [ht, hset], ?_⟩
  rw [Memory.read?, frame_of_entry (hf.entry he), hframe, Option.map_some, offset_of_entry,
    slice_eq_bytesAt he hv hframe headLength_page]

theorem copyOut_headLength (hf : m.Framed) (hp : m.table.permits .read a = true)
    (hpos : 0 < length) :
    copyOut m.memory m.table (Span.ofRange a length) =
      let tail := copyOut m.memory (m.table.touched .read a (headLength a length))
        (Span.ofRange (a + headLength a length) (length - headLength a length))
      { tail with bytes := m.bytesAt a (headLength a length) ++ tail.bytes } := by
  obtain ⟨pa, ht, hread⟩ := exists_read hf hp hpos
  rw [ofRange_head hpos]
  simp only [copyOut, ht, hread]

/-- The part of a range that lies in its first page is written, and the memory is `m₁` then. -/
structure WritesHead (m : UserMemory) (a length : Nat) (data : Bytes) (m₁ : UserMemory) : Prop where
  pos : 0 < length
  permits : m.table.permits .write a = true
  chunk : (data.take (headLength a length)).length = headLength a length
  steps : ∃ pa, m.table.translateNat a .write = .ok (pa, m₁.table) ∧
    m.memory.write? pa (data.take (headLength a length)) = some (headLength a length, m₁.memory)
  wrote : Wrote m m₁ a (data.take (headLength a length))

private theorem exists_writesHead (hf : m.Framed) (hp : m.table.permits .write a = true)
    (hpos : 0 < length) (hl : length ≤ data.length) : ∃ m₁, WritesHead m a length data m₁ := by
  obtain ⟨e, he, hv, -, ht⟩ := PageTable.translateNat_of_permits hp
  obtain ⟨f, hframe⟩ := Memory.exists_frame (hf.entry he)
  have hset := PageTable.setEntry_touch .write he (headLength_pos hpos) headLength_page
  have hchunk : (data.take (headLength a length)).length = headLength a length := by
    rw [List.length_take]
    exact Nat.min_eq_left (Nat.le_trans headLength_le hl)
  have hpage : a % pageSize + headLength a length ≤ pageSize := headLength_page
  let memory := m.memory.setFrame e.frame (f.patch (a % pageSize) (data.take (headLength a length)))
  refine ⟨⟨m.table.touched .write a (headLength a length), memory⟩, hpos, hp, hchunk,
    ⟨.ofFrame e.frame (a % pageSize), by rw [ht, hset], ?_⟩, ?_, ?_, ?_, ?_⟩
  · rw [Memory.write?, frame_of_entry (hf.entry he), hframe, Option.map_some, Memory.room,
      offset_of_entry, hchunk, Nat.min_eq_left (by omega)]
  · rw [hchunk]
  · exact Memory.size_setFrame ..
  · intro g o ho
    exact at?_patch he (hf.entry he) hframe (by rwa [hchunk]) ho
  · intro hn b
    rw [← byte?_patch hn he hv hframe (by rw [hchunk]; exact hpage)]
    exact byte?_touched ⟨m.table, memory⟩ .write a (headLength a length) b

/-- A copy into a page that can be written writes there, and goes on behind it. -/
theorem WritesHead.copyIn_eq {m₁ : UserMemory} (h : WritesHead m a length data m₁) :
    copyIn m (Span.ofRange a length) data =
      let tail := copyIn m₁ (Span.ofRange (a + headLength a length)
        (length - headLength a length)) (data.drop (headLength a length))
      { tail with count := headLength a length + tail.count } := by
  obtain ⟨pa, ht, hwrite⟩ := h.steps
  rw [ofRange_head h.pos]
  simp only [copyIn, ht, hwrite]

/-- A copy in goes from page to page. What holds when there is nothing to write, and when the first
byte may not be written, and for a whole range if it holds behind the first page, holds for all
ranges. -/
theorem write_induction {motive : UserMemory → Nat → Nat → Bytes → Prop}
    (done : ∀ m a data, motive m a 0 data)
    (refused : ∀ m a length data cause, 0 < length → m.table.permits .write a = false →
      m.table.translateNat a .write = .error cause → motive m a length data)
    (goesOn : ∀ m a length data m₁, WritesHead m a length data m₁ →
      motive m₁ (a + headLength a length) (length - headLength a length)
        (data.drop (headLength a length)) → motive m a length data)
    (hf : m.Framed) (a : Nat) (hl : length ≤ data.length) : motive m a length data := by
  induction length using Nat.strongRecOn generalizing m a data with
  | ind length ih =>
    rcases Nat.eq_zero_or_pos length with rfl | hpos
    · exact done m a data
    cases hp : m.table.permits .write a with
    | false =>
      obtain ⟨cause, hc⟩ := PageTable.translateNat_of_not_permits hp
      exact refused m a length data cause hpos hp hc
    | true =>
      obtain ⟨m₁, h⟩ := exists_writesHead hf hp hpos hl
      have hhead : 0 < headLength a length := headLength_pos hpos
      have hdrop : length - headLength a length ≤ (data.drop (headLength a length)).length := by
        rw [List.length_drop]
        omega
      exact goesOn m a length data m₁ h
        (ih (length - headLength a length) (by omega) (h.wrote.framed hf) _ hdrop)

end

/-- A copy out brings the bytes within reach of a read. -/
theorem copyOut_ofRange (hf : m.Framed) (a length : Nat) :
    let n := m.table.reach .read a length
    let copy := copyOut m.memory m.table (Span.ofRange a length)
    copy.bytes = m.bytesAt a n ∧ copy.table = m.table.touched .read a n ∧
      (copy.obstacle = none ↔ n = length) ∧ ∀ f, copy.obstacle ≠ some (.noFrame f) := by
  induction length using Nat.strongRecOn generalizing m a with
  | ind length ih =>
    rcases Nat.eq_zero_or_pos length with rfl | hpos
    · simp [copyOut, PageTable.reach]
    cases hp : m.table.permits .read a with
    | false =>
      obtain ⟨cause, hc⟩ := PageTable.translateNat_of_not_permits hp
      have hne : 0 ≠ length := by omega
      rw [ofRange_head hpos, PageTable.reach_of_not_permits hp]
      simp [copyOut, hc, hne]
    | true =>
      have hhead : 0 < headLength a length := headLength_pos hpos
      have hle : headLength a length ≤ length := headLength_le
      let m₁ : UserMemory := ⟨m.table.touched .read a (headLength a length), m.memory⟩
      have hmap : m₁.table.mapping = m.table.mapping := PageTable.mapping_touched ..
      have hf₁ : m₁.Framed := hf.congr hmap rfl
      obtain ⟨hbytes, htable, hnone, hframes⟩ :=
        ih (length - headLength a length) (by omega) hf₁ (a + headLength a length)
      rw [PageTable.reach_congr hmap] at hbytes htable hnone
      simp only [copyOut_headLength hf hp hpos, reach_headLength hp]
      refine ⟨?_, ?_, ?_, hframes⟩
      · have hsame : ∀ b k, m₁.bytesAt b k = m.bytesAt b k := fun b k =>
          bytesAt_congr fun i _ => byte?_touched ..
        rw [hbytes, bytesAt_add, hsame]
      · rw [htable, PageTable.touched_touched]
      · rw [hnone]
        omega

/-- A copy in writes the data within reach of a write. -/
theorem copyIn_ofRange (hf : m.Framed) (a : Nat) {length : Nat} (hl : length ≤ data.length) :
    let n := m.table.reach .write a length
    let copy := copyIn m (Span.ofRange a length) data
    copy.count = n ∧ Wrote m copy.target a (data.take n) ∧
      (copy.obstacle = none ↔ n = length) ∧ ∀ f, copy.obstacle ≠ some (.noFrame f) := by
  refine write_induction (motive := fun m a length data =>
    let n := m.table.reach .write a length
    let copy := copyIn m (Span.ofRange a length) data
    copy.count = n ∧ Wrote m copy.target a (data.take n) ∧
      (copy.obstacle = none ↔ n = length) ∧ ∀ f, copy.obstacle ≠ some (.noFrame f))
    ?done ?refused ?goesOn hf a hl
  case done =>
    intro m a data
    simp [copyIn, PageTable.reach, Wrote.refl]
  case refused =>
    intro m a length data cause hpos hp hc
    have hne : 0 ≠ length := by omega
    rw [ofRange_head hpos, PageTable.reach_of_not_permits hp]
    simp [copyIn, hc, hne, Wrote.refl]
  case goesOn =>
    rintro m a length data m₁ h ⟨hcount, hrest, hnone, hframes⟩
    have hle : headLength a length ≤ length := headLength_le
    rw [PageTable.reach_congr h.wrote.mapping] at hcount hrest hnone
    simp only [h.copyIn_eq, reach_headLength h.permits]
    refine ⟨by rw [hcount], ?_, ?_, hframes⟩
    · rw [List.take_add]
      exact h.wrote.trans (h.chunk.symm ▸ hrest)
    · rw [hnone]
      omega

end PagedKernel.UserMemory

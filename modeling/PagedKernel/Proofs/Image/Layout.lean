import PagedKernel.Image.Builder
import PagedKernel.Proofs.Image

/-!
# The layout of a built image

The headers that a builder writes are read as it meant them, but for numbers that are too large for
their fields, and the contents of each section lie where its header says.
-/

namespace PagedKernel

def carriedName (name : String) : String :=
  Text.ofUtf8Lossy (((Text.utf8 name).take Image.sectionNameSize).takeWhile (· ≠ 0))

section

variable (pre mid post : Bytes)

private theorem slice_append {position length : Nat} (hp : pre.length = position)
    (hm : mid.length = length) : (pre ++ (mid ++ post)).slice position length = mid := by
  rw [Bytes.slice, List.drop_left' hp, List.take_left' hm]

private theorem numberAt_append {place width : Nat} (hp : pre.length = place) (n : Nat) :
    numberAt (pre ++ (littleEndian width n ++ post)) place width = n % byteRange width := by
  have hslice := slice_append pre (littleEndian width n) post hp (littleEndian_length width n)
  rw [Bytes.slice] at hslice
  rw [numberAt, hslice, ofLittleEndian_littleEndian]

end

namespace ImageBuilder

variable {b : ImageBuilder} {plans : List SectionPlan} {rest : Bytes} {offset count : Nat}

@[simp] private theorem length_nameField (name : String) :
    (nameField name).length = Image.sectionNameSize := by
  simp only [nameField, List.length_append, List.length_take, List.length_replicate]
  omega

private theorem takeWhile_nameField (name : String) : (nameField name).takeWhile (· ≠ 0) =
    ((Text.utf8 name).take Image.sectionNameSize).takeWhile (· ≠ 0) := by
  rw [nameField, List.takeWhile_append]
  split
  · next hall =>
    have hwhole := (List.takeWhile_prefix _).eq_of_length hall
    rw [hwhole]
    simp
  · rfl

@[simp] private theorem length_sectionHeader (s : SectionPlan) (offset : Nat) :
    (sectionHeader s offset).length = Image.sectionHeaderSize := by
  simp [sectionHeader]

def writtenHeader (s : SectionPlan) (offset : Nat) : SectionHeader :=
  ⟨carriedName s.name, s.address % byteRange 4, s.size % byteRange 4, offset % byteRange 4,
    s.kind.code⟩

private theorem ofBytes_sectionHeader (s : SectionPlan) (offset : Nat) :
    SectionHeader.ofBytes (sectionHeader s offset) = writtenHeader s offset := by
  have hname : (sectionHeader s offset).take Image.sectionNameSize = nameField s.name := by
    rw [sectionHeader, List.append_assoc, List.append_assoc, List.append_assoc,
      List.take_left' (length_nameField s.name)]
  have haddress : numberAt (sectionHeader s offset) 8 4 = s.address % byteRange 4 := by
    rw [sectionHeader, List.append_assoc, List.append_assoc, List.append_assoc]
    exact numberAt_append _ _ (by simp) _
  have hsize : numberAt (sectionHeader s offset) 12 4 = s.size % byteRange 4 := by
    rw [sectionHeader, List.append_assoc, List.append_assoc]
    exact numberAt_append _ _ (by simp) _
  have hoffset : numberAt (sectionHeader s offset) 16 4 = offset % byteRange 4 := by
    rw [sectionHeader, List.append_assoc]
    exact numberAt_append _ _ (by simp) _
  have hkind : numberAt (sectionHeader s offset) 20 4 = s.kind.code := by
    have hcode : s.kind.code % byteRange 4 = s.kind.code := by
      cases s.kind <;> rfl
    rw [sectionHeader, ← List.append_nil (littleEndian 4 s.kind.code), numberAt_append _ _ (by simp),
      hcode]
  rw [SectionHeader.ofBytes, hname, takeWhile_nameField, haddress, hsize, hoffset, hkind]
  rfl

def writtenHeaders (offset : Nat) : List SectionPlan → List SectionHeader
  | [] => []
  | s :: rest => writtenHeader s offset :: writtenHeaders (offset + s.data.length) rest

@[simp] private theorem length_writtenHeaders (offset : Nat) (plans : List SectionPlan) :
    (writtenHeaders offset plans).length = plans.length := by
  induction plans generalizing offset with
  | nil => rfl
  | cons s plans ih => simp [writtenHeaders, ih]

@[simp] private theorem length_sectionTable (offset : Nat) (plans : List SectionPlan) :
    (sectionTable offset plans).length = plans.length * Image.sectionHeaderSize := by
  induction plans generalizing offset with
  | nil => rfl
  | cons s plans ih => simp [sectionTable, ih, Nat.succ_mul, Nat.add_comm]

private theorem sectionHeaders_sectionTable (hcount : count ≤ plans.length) :
    sectionHeaders count (sectionTable offset plans ++ rest) =
      (writtenHeaders offset plans).take count := by
  induction plans generalizing offset count with
  | nil =>
    rw [Nat.le_zero.1 hcount]
    rfl
  | cons s plans ih =>
    cases count with
    | zero => rfl
    | succ count =>
      have hrest : sectionHeaders count (sectionTable (offset + s.data.length) plans ++ rest) =
          (writtenHeaders (offset + s.data.length) plans).take count :=
        ih (Nat.le_of_succ_le_succ hcount)
      rw [sectionHeaders, sectionTable, List.append_assoc,
        List.take_left' (length_sectionHeader s offset),
        List.drop_left' (length_sectionHeader s offset), hrest, ofBytes_sectionHeader,
        writtenHeaders, List.take_succ_cons]

def fileHeader (b : ImageBuilder) : Bytes :=
  littleEndian 2 Image.magic ++ (littleEndian 2 b.sections.length ++ littleEndian 4 b.entry)

@[simp] private theorem length_fileHeader (b : ImageBuilder) :
    b.fileHeader.length = Image.headerSize := by
  simp [fileHeader]

def contentsStart (b : ImageBuilder) : Nat :=
  Image.headerSize + b.sections.length * Image.sectionHeaderSize

private theorem build_eq (b : ImageBuilder) : b.build =
    b.fileHeader ++ (sectionTable b.contentsStart b.sections ++ b.sections.flatMap (·.data)) := by
  simp [build, fileHeader, contentsStart]

private theorem magic_build (b : ImageBuilder) : numberAt b.build 0 2 = Image.magic := by
  rw [build_eq, fileHeader, List.append_assoc]
  exact numberAt_append [] _ rfl _

private theorem count_build (b : ImageBuilder) :
    numberAt b.build 2 2 = b.sections.length % byteRange 2 := by
  rw [build_eq, fileHeader, List.append_assoc, List.append_assoc]
  exact numberAt_append _ _ (littleEndian_length 2 Image.magic) _

private theorem entry_build (b : ImageBuilder) : numberAt b.build 4 4 = b.entry % byteRange 4 := by
  rw [build_eq, fileHeader, List.append_assoc, List.append_assoc, ← List.append_assoc]
  exact numberAt_append _ _ (by simp) _

theorem headers_build (b : ImageBuilder) : Image.headers b.build =
    (writtenHeaders b.contentsStart b.sections).take (b.sections.length % byteRange 2) := by
  have htable : b.build.drop Image.headerSize =
      sectionTable b.contentsStart b.sections ++ b.sections.flatMap (·.data) := by
    rw [build_eq, List.drop_left' (length_fileHeader b)]
  rw [Image.headers, ← sectionHeaders_drop, count_build, htable]
  exact sectionHeaders_sectionTable (Nat.mod_le ..)

def tableSections (offset : Nat) : List SectionPlan → List Section
  | [] => []
  | s :: rest => ⟨carriedName s.name, s.kind, s.address, s.size, offset⟩ ::
      tableSections (offset + s.data.length) rest

theorem getElem?_tableSections (offset : Nat) (plans : List SectionPlan) (i : Nat) :
    (tableSections offset plans)[i]? = (plans[i]?).map fun s =>
      ⟨carriedName s.name, s.kind, s.address, s.size,
        offset + ((plans.take i).flatMap (·.data)).length⟩ := by
  induction plans generalizing offset i with
  | nil => rfl
  | cons s plans ih =>
    cases i with
    | zero => rfl
    | succ i => simp [tableSections, ih, Nat.add_assoc]

private theorem map_header_tableSections
    (hfit : ∀ s ∈ plans, s.address < byteRange 4 ∧ s.size < byteRange 4)
    (hoffset : offset + (plans.flatMap (·.data)).length < byteRange 4) :
    (tableSections offset plans).map Section.header = writtenHeaders offset plans := by
  induction plans generalizing offset with
  | nil => rfl
  | cons s plans ih =>
    obtain ⟨⟨haddress, hsize⟩, hrest⟩ := List.forall_mem_cons.1 hfit
    rw [List.flatMap_cons, List.length_append] at hoffset
    rw [tableSections, writtenHeaders, List.map_cons, ih hrest (by omega), writtenHeader,
      Nat.mod_eq_of_lt haddress, Nat.mod_eq_of_lt hsize, Nat.mod_eq_of_lt (by omega)]
    rfl

theorem slice_tableSections {i : Nat} {s : SectionPlan} {sec : Section} (hs : plans[i]? = some s)
    (hsec : (tableSections offset plans)[i]? = some sec) {pre : Bytes} (hpre : pre.length = offset) :
    (pre ++ plans.flatMap (·.data)).slice sec.offset s.data.length = s.data ∧
      sec.offset + s.data.length ≤ (pre ++ plans.flatMap (·.data)).length := by
  rw [getElem?_tableSections, hs] at hsec
  cases hsec
  obtain ⟨hi, rfl⟩ := List.getElem?_eq_some_iff.1 hs
  have hsplit : plans.flatMap (·.data) = (plans.take i).flatMap (·.data) ++
      (plans[i].data ++ (plans.drop (i + 1)).flatMap (·.data)) := by
    rw [← List.flatMap_cons, ← List.flatMap_append, ← List.drop_eq_getElem_cons hi,
      List.take_append_drop]
  rw [hsplit, ← List.append_assoc]
  constructor
  · exact slice_append _ _ _ (by simp [hpre]) rfl
  · simp only [List.length_append, hpre]
    omega

/-- A builder whose image can be read back. -/
structure Writable (b : ImageBuilder) : Prop where
  count : b.sections.length < byteRange 2
  entry : b.entry < byteRange 4
  length : b.build.length < byteRange 4
  fits : ∀ s ∈ b.sections, s.address < byteRange 4 ∧ s.size < byteRange 4
  aligned : ∀ s ∈ b.sections, s.address % pageSize = 0
  contents : ∀ s ∈ b.sections, s.kind.initialized = true → s.data.length = s.size

private theorem length_build (b : ImageBuilder) :
    b.build.length = b.contentsStart + (b.sections.flatMap (·.data)).length := by
  rw [build_eq, contentsStart, List.length_append, List.length_append, length_fileHeader,
    length_sectionTable, Nat.add_assoc]

theorem build_eq_append (b : ImageBuilder) : ∃ pre, pre.length = b.contentsStart ∧
    b.build = pre ++ b.sections.flatMap (·.data) := by
  refine ⟨b.fileHeader ++ sectionTable b.contentsStart b.sections, ?_, ?_⟩
  · simp [contentsStart]
  · rw [build_eq, List.append_assoc]

theorem Writable.declares (h : b.Writable) :
    Image.Declares b.build b.entry (tableSections b.contentsStart b.sections) := by
  have hcount : numberAt b.build 2 2 = b.sections.length := by
    rw [count_build, Nat.mod_eq_of_lt h.count]
  have hheaders : Image.headers b.build =
      (tableSections b.contentsStart b.sections).map Section.header := by
    rw [headers_build, Nat.mod_eq_of_lt h.count,
      map_header_tableSections h.fits (length_build b ▸ h.length),
      List.take_of_length_le (by simp)]
  refine Image.declares_iff.2 ⟨magic_build b, ?_, ?_, checkHeaders_of_map ?_⟩
  · rw [entry_build, Nat.mod_eq_of_lt h.entry]
  · rw [hcount, length_build]
    exact Nat.le_add_right ..
  · rw [hheaders, List.map_map]
    apply List.map_congr_left
    intro sec hmem
    obtain ⟨i, hsec⟩ := List.mem_iff_getElem?.1 hmem
    have hplan := hsec
    rw [getElem?_tableSections] at hplan
    obtain ⟨s, hs, rfl⟩ := Option.map_eq_some_iff.1 hplan
    have hmem : s ∈ b.sections := List.mem_iff_getElem?.2 ⟨i, hs⟩
    refine SectionHeader.check_eq_ok_iff.2 ⟨rfl, h.aligned s hmem, ?_⟩
    intro hinit
    obtain ⟨pre, hpre, hbuild⟩ := build_eq_append b
    have hinside := (slice_tableSections hs hsec hpre).2
    rwa [← hbuild, h.contents s hmem hinit] at hinside

end ImageBuilder

end PagedKernel

import PagedKernel.Image.Builder
import PagedKernel.Proofs.Image

/-!
# Which files are images

A file is an image when it has a header with the magic number, a whole table, and section headers
that are all sound. The first of these that it lacks is what it is refused for. The pages of an
image are made of the bytes that its sections declare, and of no others.
-/

namespace PagedKernel

namespace SectionHeader

variable {h : SectionHeader} {length : Nat} {e : ImageError}

/-- What a section header has to say in a file of `length` bytes. -/
structure Sound (h : SectionHeader) (length : Nat) : Prop where
  kind : ∃ kind : SectionKind, kind.code = h.kind
  aligned : h.address % pageSize = 0
  inside : h.kind ≠ SectionKind.bss.code → h.offset + h.size ≤ length

/-- The first thing that is wrong with a section header in a file of `length` bytes. -/
inductive Flaw (h : SectionHeader) (length : Nat) : ImageError → Prop
  | unknownKind (hkind : ∀ kind : SectionKind, kind.code ≠ h.kind) :
      Flaw h length (.unknownKind h.name h.kind)
  | unaligned (hkind : ∃ kind : SectionKind, kind.code = h.kind)
      (haddress : h.address % pageSize ≠ 0) : Flaw h length (.unaligned h.name)
  | truncated (hkind : ∃ kind : SectionKind, kind.code = h.kind)
      (haddress : h.address % pageSize = 0) (hcontents : h.kind ≠ SectionKind.bss.code)
      (hend : length < h.offset + h.size) : Flaw h length .truncated

private theorem sound_or_flaw (h : SectionHeader) (length : Nat) :
    h.Sound length ∨ ∃ e, h.Flaw length e := by
  by_cases hkind : ∃ kind : SectionKind, kind.code = h.kind
  · by_cases haligned : h.address % pageSize = 0
    · by_cases hend : h.kind ≠ SectionKind.bss.code → h.offset + h.size ≤ length
      · exact Or.inl ⟨hkind, haligned, hend⟩
      · obtain ⟨hcontents, hlt⟩ := Classical.not_imp.1 hend
        exact Or.inr ⟨_, .truncated hkind haligned hcontents (Nat.lt_of_not_le hlt)⟩
    · exact Or.inr ⟨_, .unaligned hkind haligned⟩
  · exact Or.inr ⟨_, .unknownKind fun kind hcode => hkind ⟨kind, hcode⟩⟩

private theorem initialized_iff (kind : SectionKind) :
    kind.initialized = true ↔ kind.code ≠ SectionKind.bss.code := by
  cases kind <;> decide

private theorem Sound.exists_check (hs : h.Sound length) : ∃ s, h.check length = .ok s := by
  obtain ⟨kind, hkind⟩ := hs.kind
  refine ⟨⟨h.name, kind, h.address, h.size, h.offset⟩, check_eq_ok_iff.2 ⟨?_, hs.aligned, ?_⟩⟩
  · simp [Section.header, hkind]
  · intro hinit
    rw [initialized_iff, hkind] at hinit
    exact hs.inside hinit

private theorem Flaw.check_eq (hf : h.Flaw length e) : h.check length = .error e := by
  cases hf with
  | unknownKind hkind =>
    have hcode : SectionKind.ofCode? h.kind = none := by
      rw [Option.eq_none_iff_forall_ne_some]
      intro kind hcode
      exact hkind kind (SectionKind.ofCode?_eq_some_iff.1 hcode)
    simp [check, hcode]
  | unaligned hkind haddress =>
    obtain ⟨kind, hkind⟩ := hkind
    simp [check, SectionKind.ofCode?_eq_some_iff.2 hkind, haddress]
  | truncated hkind haddress hcontents hend =>
    obtain ⟨kind, hkind⟩ := hkind
    rw [← hkind, ← initialized_iff] at hcontents
    simp [check, SectionKind.ofCode?_eq_some_iff.2 hkind, haddress, hcontents, hend]

end SectionHeader

section

variable {length : Nat} {headers before after : List SectionHeader} {h : SectionHeader}
variable {e : ImageError}

private theorem checkHeaders_of_sound (hs : ∀ h ∈ headers, h.Sound length) :
    ∃ sections, checkHeaders length headers = (sections, none) := by
  induction headers with
  | nil => exact ⟨[], rfl⟩
  | cons header rest ih =>
    obtain ⟨hheader, hrest⟩ := List.forall_mem_cons.1 hs
    obtain ⟨s, hok⟩ := hheader.exists_check
    obtain ⟨sections, hsections⟩ := ih hrest
    exact ⟨s :: sections, by simp [checkHeaders, hok, hsections]⟩

/-- Headers are refused for the first of them that has a flaw. -/
theorem checkHeaders_of_flaw (hheaders : headers = before ++ h :: after)
    (hbefore : ∀ h' ∈ before, h'.Sound length) (hf : h.Flaw length e) :
    (checkHeaders length headers).2 = some e := by
  subst hheaders
  induction before with
  | nil => simp [checkHeaders, hf.check_eq]
  | cons header rest ih =>
    obtain ⟨hheader, hrest⟩ := List.forall_mem_cons.1 hbefore
    obtain ⟨s, hok⟩ := hheader.exists_check
    simp [checkHeaders, hok, ih hrest]

private theorem sound_or_first_flaw (length : Nat) (headers : List SectionHeader) :
    (∀ h ∈ headers, h.Sound length) ∨ ∃ before h after e, headers = before ++ h :: after ∧
      (∀ h' ∈ before, h'.Sound length) ∧ h.Flaw length e := by
  induction headers with
  | nil => simp
  | cons header rest ih =>
    rcases header.sound_or_flaw length with hs | ⟨e, hf⟩
    · rcases ih with hall | ⟨before, h, after, e, rfl, hbefore, hf⟩
      · exact Or.inl (List.forall_mem_cons.2 ⟨hs, hall⟩)
      · exact Or.inr ⟨header :: before, h, after, e, rfl, List.forall_mem_cons.2 ⟨hs, hbefore⟩, hf⟩
    · exact Or.inr ⟨[], header, rest, e, rfl, by simp, hf⟩

end

namespace Section

variable {data data' : Bytes} {s : Section} {page : Nat}

/-- The pages of a section depend on the bytes of its range only. -/
theorem page_congr
    (h : s.kind.initialized = true → data'.slice s.offset s.size = data.slice s.offset s.size)
    (page : Nat) : s.page data' page = s.page data page := by
  unfold Section.page
  split
  · next hinit =>
    have hpart : ∀ bs : Bytes, bs.slice (s.offset + page * pageSize)
        (min (s.size - page * pageSize) pageSize) =
        (bs.slice s.offset s.size).slice (page * pageSize)
          (min (s.size - page * pageSize) pageSize) := by
      intro bs
      simp only [Bytes.slice, List.drop_take, List.drop_drop, List.take_take]
      congr 1
      omega
    rw [hpart, hpart, h hinit]
  · rfl

end Section

namespace Image

/-- What the bytes of a file have to be for it to be an image. -/
structure WellFormed (data : Bytes) : Prop where
  header : headerSize ≤ data.length
  magic : numberAt data 0 2 = Image.magic
  table : headerSize + numberAt data 2 2 * sectionHeaderSize ≤ data.length
  sound : ∀ h ∈ headers data, h.Sound data.length

/-- The first thing that is wrong with the bytes of a file that is no image. -/
inductive Flaw (data : Bytes) : ImageError → Prop
  | headless (hheader : data.length < headerSize) : Flaw data .truncated
  | badMagic (hheader : headerSize ≤ data.length) (hmagic : numberAt data 0 2 ≠ magic) :
      Flaw data (.badMagic (numberAt data 0 2))
  | tableCut (hheader : headerSize ≤ data.length) (hmagic : numberAt data 0 2 = magic)
      (htable : data.length < headerSize + numberAt data 2 2 * sectionHeaderSize) :
      Flaw data .truncated
  | sectionHeader (hmagic : numberAt data 0 2 = magic)
      (htable : headerSize + numberAt data 2 2 * sectionHeaderSize ≤ data.length)
      {before after : List SectionHeader} {h : SectionHeader} {e : ImageError}
      (hheaders : headers data = before ++ h :: after)
      (hbefore : ∀ h' ∈ before, h'.Sound data.length) (hflaw : h.Flaw data.length e) : Flaw data e

variable {d : Devices} {file : OpenFile} {data : Bytes} {e : ImageError} {image : Image}

private theorem wellFormed_or_flaw (data : Bytes) : WellFormed data ∨ ∃ e, Flaw data e := by
  by_cases hheader : data.length < headerSize
  · exact Or.inr ⟨_, .headless hheader⟩
  have hheader' := Nat.le_of_not_lt hheader
  by_cases hmagic : numberAt data 0 2 = magic
  · by_cases htable : data.length < headerSize + numberAt data 2 2 * sectionHeaderSize
    · exact Or.inr ⟨_, .tableCut hheader' hmagic htable⟩
    have htable' := Nat.le_of_not_lt htable
    rcases sound_or_first_flaw data.length (headers data) with
      hs | ⟨before, h, after, e, hheaders, hbefore, hf⟩
    · exact Or.inl ⟨hheader', hmagic, htable', hs⟩
    · exact Or.inr ⟨e, .sectionHeader hmagic htable' hheaders hbefore hf⟩
  · exact Or.inr ⟨_, .badMagic hheader' hmagic⟩

private theorem WellFormed.exists_declares (hw : WellFormed data) :
    ∃ entry sections, Declares data entry sections := by
  obtain ⟨sections, hsections⟩ := checkHeaders_of_sound hw.sound
  exact ⟨_, sections, declares_iff.2 ⟨hw.magic, rfl, hw.table, hsections⟩⟩

private theorem outcome_of_flaw (h : file.Shows d data) (hf : Flaw data e) :
    (ofFile file d).outcome = .error e := by
  have hs := survey_eq h
  cases hf with
  | headless hheader =>
    rw [if_pos hheader] at hs
    simp [ofFile, hs]
  | badMagic hheader hmagic =>
    rw [if_neg (Nat.not_lt.2 hheader), if_pos hmagic] at hs
    simp [ofFile, hs]
  | tableCut hheader hmagic htable =>
    rw [if_neg (Nat.not_lt.2 hheader), if_neg (not_not_intro hmagic), if_pos htable] at hs
    simp [ofFile, hs]
  | sectionHeader hmagic htable hheaders hbefore hflaw =>
    have hheader : ¬ data.length < headerSize := by omega
    have hrefusal := checkHeaders_of_flaw hheaders hbefore hflaw
    rw [if_neg hheader, if_neg (not_not_intro hmagic), if_neg (Nat.not_lt.2 htable)] at hs
    simp [ofFile, hs, hrefusal]

/-- A file is accepted if it is an image. -/
theorem exists_outcome_iff (h : file.Shows d data) :
    (∃ image, (ofFile file d).outcome = .ok image) ↔ WellFormed data := by
  constructor
  · rintro ⟨image, hok⟩
    rcases wellFormed_or_flaw data with hw | ⟨e, hf⟩
    · exact hw
    · rw [outcome_of_flaw h hf] at hok
      cases hok
  · intro hw
    obtain ⟨entry, sections, hdeclares⟩ := hw.exists_declares
    rw [ofFile_of_declares h hdeclares]
    exact ⟨_, rfl⟩

/-- A file is refused for the first thing that is wrong with it. -/
theorem outcome_eq_error_iff (h : file.Shows d data) :
    (ofFile file d).outcome = .error e ↔ Flaw data e := by
  constructor
  · intro herror
    rcases wellFormed_or_flaw data with hw | ⟨e', hf⟩
    · obtain ⟨image, hok⟩ := (exists_outcome_iff h).2 hw
      rw [hok] at herror
      cases herror
    · rw [outcome_of_flaw h hf] at herror
      cases herror
      exact hf
  · exact outcome_of_flaw h

/-- Every page of every section can be loaded. It is made of the bytes of the section's range, and
another file with the same bytes there gives the same page. -/
structure Loads (d : Devices) (data : Bytes) (image : Image) : Prop where
  headers : image.sections.map Section.header = Image.headers data
  entry : image.entry = numberAt data 4 4
  page : ∀ (i : Nat) (s : Section), image.sections[i]? = some s → ∀ page < s.pages, ∃ frame,
    loadPage d i page image = .ok frame image ∧
    (∀ j < pageSize, frame[j]? =
      if s.kind.initialized = true ∧ page * pageSize + j < s.size then
        data[s.offset + (page * pageSize + j)]?
      else some 0) ∧
    ∀ (file' : OpenFile) (d' : Devices) (data' : Bytes), file'.Shows d' data' →
      (s.kind.initialized = true →
        data'.slice s.offset s.size = data.slice s.offset s.size) →
      loadPage d' i page { image with file := some file' } =
        .ok frame { image with file := some file' }

private theorem loads_of_outcome (h : file.Shows d data) (hok : (ofFile file d).outcome = .ok image) :
    Loads d data image := by
  rcases ofFile_cases h with ⟨e, herror, -⟩ | ⟨entry, sections, hopening, hdeclares⟩
  · rw [herror] at hok
    cases hok
  rw [hopening] at hok
  cases hok
  refine ⟨?_, hdeclares.entry.symm, ?_⟩
  · exact map_header_of_map_check (checkHeaders_eq_none (declares_iff.1 hdeclares).2.2.2)
  · intro i s hs page hp
    have hin := (hdeclares.stated i s hs).inside
    refine ⟨_, loadPage_eq rfl h hs hp hin, fun j hj => s.getElem?_page page hj hin, ?_⟩
    intro file' d' data' h' hslice
    have hin' : s.kind.initialized = true → s.offset + s.size ≤ data'.length := by
      intro hinit
      have hlength := congrArg List.length (hslice hinit)
      have hinside := hin hinit
      rw [Bytes.length_slice, Bytes.length_slice] at hlength
      simp only [Section.pages, pageSize] at hp
      omega
    rw [← Section.page_congr hslice page]
    exact loadPage_eq rfl h' hs hp hin'

/-- The bytes of a file are accepted if they are an image, and refused for the first thing that is
wrong with them if they are not. All pages of the sections of an image can be loaded, and are made of
the bytes that the sections declare. -/
theorem accepted_exactly (h : file.Shows d data) :
    ((∃ image, (ofFile file d).outcome = .ok image) ↔ WellFormed data) ∧
    (∀ e, (ofFile file d).outcome = .error e ↔ Flaw data e) ∧
    ∀ image, (ofFile file d).outcome = .ok image → Loads d data image :=
  ⟨exists_outcome_iff h, fun _ => outcome_eq_error_iff h, fun _ => loads_of_outcome h⟩

def sampleBytes : Bytes :=
  ((({ entry := 16 } : ImageBuilder).addSection "code" .text [1, 2, 3, 4]).addBss "zero" 10).build

def sampleDevices (data : Bytes) : Devices := { files := { files := [data] } }

def sampleFile : OpenFile := ⟨.file "" (some 0) 0, {}⟩

theorem sampleFile_shows (data : Bytes) : sampleFile.Shows (sampleDevices data) data :=
  ⟨"", 0, 0, rfl, rfl⟩

def refusal? : Except ImageError Image → Option ImageError
  | .ok _ => none
  | .error e => some e

theorem refusal?_eq_none_iff {outcome : Except ImageError Image} :
    refusal? outcome = none ↔ ∃ image, outcome = .ok image := by
  cases outcome <;> simp [refusal?]

private theorem eq_error_of_refusal? {outcome : Except ImageError Image} {e : ImageError}
    (h : refusal? outcome = some e) : outcome = .error e := by
  cases outcome with
  | ok image => cases h
  | error e' =>
    cases h
    rfl

theorem accepted_exactly_sample :
    sampleFile.Shows (sampleDevices sampleBytes) sampleBytes ∧ WellFormed sampleBytes ∧
    (∃ image, (ofFile sampleFile (sampleDevices sampleBytes)).outcome = .ok image ∧
      Loads (sampleDevices sampleBytes) sampleBytes image) ∧
    Flaw (sampleBytes.take 58) .truncated := by
  have hshows := sampleFile_shows sampleBytes
  obtain ⟨haccepted, -, hloads⟩ := accepted_exactly hshows
  have hok : refusal? (ofFile sampleFile (sampleDevices sampleBytes)).outcome = none := by
    decide +kernel
  have herror : refusal? (ofFile sampleFile (sampleDevices (sampleBytes.take 58))).outcome =
      some .truncated := by
    decide +kernel
  obtain ⟨image, himage⟩ := refusal?_eq_none_iff.1 hok
  have hflaw := (accepted_exactly (sampleFile_shows (sampleBytes.take 58))).2.1 .truncated
  exact ⟨hshows, haccepted.1 ⟨image, himage⟩, ⟨image, himage, hloads image himage⟩,
    hflaw.1 (eq_error_of_refusal? herror)⟩

end Image

end PagedKernel

import PagedKernel.Image.Reader
import PagedKernel.Proofs.Ensures
import PagedKernel.Proofs.Memory.View

/-!
# What an image declares

An image that is accepted says, number by number at fixed places, which sections it has. Reading an
unlimited file leaves it and the devices as they are, so that the pages of its sections are read from
the contents that the headers were checked against.
-/

namespace PagedKernel

/-- The file is open without limits, and has the contents `data`. -/
def OpenFile.Shows (file : OpenFile) (d : Devices) (data : Bytes) : Prop :=
  ∃ name id position, file = ⟨.file name (some id) position, {}⟩ ∧ d.files.bytes id = data

/-- A section as the header at a place states it. -/
structure Section.Stated (data : Bytes) (place : Nat) (s : Section) : Prop where
  name : s.name =
    Text.ofUtf8Lossy (((data.drop place).take Image.sectionNameSize).takeWhile (· ≠ 0))
  address : s.address = numberAt data (place + 8) 4
  size : s.size = numberAt data (place + 12) 4
  offset : s.offset = numberAt data (place + 16) 4
  kind : s.kind.code = numberAt data (place + 20) 4
  aligned : s.address % pageSize = 0
  inside : s.kind.initialized = true → s.offset + s.size ≤ data.length

/-- The entry point and the sections that an image with the contents `data` declares. -/
structure Image.Declares (data : Bytes) (entry : Nat) (sections : List Section) : Prop where
  magic : numberAt data 0 2 = Image.magic
  count : numberAt data 2 2 = sections.length
  entry : numberAt data 4 4 = entry
  complete : headerSize + sections.length * sectionHeaderSize ≤ data.length
  stated : ∀ (i : Nat) (s : Section), sections[i]? = some s →
    s.Stated data (headerSize + i * sectionHeaderSize)

def sectionHeaderAt (data : Bytes) (place : Nat) : SectionHeader where
  name := Text.ofUtf8Lossy (((data.drop place).take Image.sectionNameSize).takeWhile (· ≠ 0))
  address := numberAt data (place + 8) 4
  size := numberAt data (place + 12) 4
  offset := numberAt data (place + 16) 4
  kind := numberAt data (place + 20) 4

def Image.headers (data : Bytes) : List SectionHeader :=
  (List.range (numberAt data 2 2)).map fun i =>
    sectionHeaderAt data (headerSize + i * sectionHeaderSize)

variable {d : Devices} {file : OpenFile} {data : Bytes}

theorem numberAt_slice {position length place width : Nat} (h : place + width ≤ length) :
    numberAt (data.slice position length) place width = numberAt data (position + place) width := by
  rw [numberAt, numberAt, Bytes.slice, List.drop_take, List.take_take, List.drop_drop,
    Nat.min_eq_left (by omega)]

private theorem ofBytes_slice (data : Bytes) (place : Nat) :
    SectionHeader.ofBytes (data.slice place Image.sectionHeaderSize) =
      sectionHeaderAt data place := by
  have hname : (data.slice place Image.sectionHeaderSize).take Image.sectionNameSize =
      (data.drop place).take Image.sectionNameSize := by
    rw [Bytes.slice, List.take_take]
    rfl
  rw [SectionHeader.ofBytes, hname, numberAt_slice (by decide), numberAt_slice (by decide),
    numberAt_slice (by decide), numberAt_slice (by decide)]
  rfl

theorem sectionHeaders_drop (data : Bytes) (place count : Nat) :
    sectionHeaders count (data.drop place) =
      (List.range count).map fun i => sectionHeaderAt data (place + i * Image.sectionHeaderSize) := by
  induction count generalizing place with
  | zero => rfl
  | succ count ih =>
    have hhead : SectionHeader.ofBytes ((data.drop place).take Image.sectionHeaderSize) =
        sectionHeaderAt data place := ofBytes_slice data place
    rw [sectionHeaders, hhead, List.drop_drop, ih, List.range_succ_eq_map]
    simp [Nat.succ_mul, Nat.add_assoc, Nat.add_comm Image.sectionHeaderSize]

private theorem sectionHeaders_take (count : Nat) (raw : Bytes) :
    sectionHeaders count (raw.take (count * Image.sectionHeaderSize)) =
      sectionHeaders count raw := by
  induction count generalizing raw with
  | zero => rfl
  | succ count ih =>
    rw [sectionHeaders, sectionHeaders, List.take_take, List.drop_take, Nat.succ_mul,
      Nat.min_eq_left (by omega), Nat.add_sub_cancel, ih]

namespace OpenFile.Shows

variable (h : file.Shows d data)

include h

private theorem length_eq : (⟨file, d⟩ : Channel).length = data.length := by
  obtain ⟨name, id, position, rfl, rfl⟩ := h
  rfl

theorem readAt_eq (position length : Nat) :
    Channel.readAt position length ⟨file, d⟩ = .ok (data.slice position length) ⟨file, d⟩ := by
  obtain ⟨name, id, place, rfl, rfl⟩ := h
  rfl

private theorem readExact_eq {position : Nat} (hp : position ≤ data.length) (length : Nat) :
    Image.readExact position length ⟨file, d⟩ =
      if data.length < position + length then .error .truncated ⟨file, d⟩
      else .ok (data.slice position length) ⟨file, d⟩ := by
  have hread : mapStop ImageError.io (Channel.readAt position length) ⟨file, d⟩ =
      .ok (data.slice position length) ⟨file, d⟩ := by
    rw [mapStop, h.readAt_eq]
  have hlength : (data.slice position length).length = length ↔
      ¬ data.length < position + length := by
    rw [Bytes.length_slice]
    omega
  simp only [Image.readExact, bind, EStateM.bind, hread, hlength, ite_not]
  split <;> rfl

end OpenFile.Shows

theorem checkHeaders_eq_none {length : Nat} {headers : List SectionHeader}
    {sections : List Section} (h : checkHeaders length headers = (sections, none)) :
    headers.map (·.check length) = sections.map .ok := by
  induction headers generalizing sections with
  | nil =>
    cases h
    rfl
  | cons header rest ih =>
    rw [checkHeaders] at h
    split at h
    · cases h
    · next s hs =>
      rcases hrest : checkHeaders length rest with ⟨tail, refusal⟩
      rw [hrest] at h
      cases h
      rw [List.map_cons, List.map_cons, hs, ih hrest]

theorem checkHeaders_of_map {length : Nat} {headers : List SectionHeader}
    {sections : List Section} (h : headers.map (·.check length) = sections.map .ok) :
    checkHeaders length headers = (sections, none) := by
  induction headers generalizing sections with
  | nil =>
    rw [List.map_nil, eq_comm, List.map_eq_nil_iff] at h
    rw [h, checkHeaders]
  | cons header rest ih =>
    cases sections with
    | nil => cases h
    | cons s sections =>
      obtain ⟨hs, hrest⟩ := List.cons_eq_cons.1 h
      simp only [checkHeaders, hs, ih hrest]

def Section.header (s : Section) : SectionHeader :=
  ⟨s.name, s.address, s.size, s.offset, s.kind.code⟩

theorem SectionHeader.check_eq_ok_iff {h : SectionHeader} {length : Nat} {s : Section} :
    h.check length = .ok s ↔ h = s.header ∧ s.address % pageSize = 0 ∧
      (s.kind.initialized = true → s.offset + s.size ≤ length) := by
  constructor
  · intro hc
    unfold check at hc
    split at hc
    · cases hc
    · next kind hkind =>
      split at hc
      · cases hc
      · next haligned =>
        split at hc
        · cases hc
        · next hinside =>
          cases hc
          refine ⟨?_, Decidable.not_not.1 haligned, ?_⟩
          · rw [Section.header, SectionKind.ofCode?_eq_some_iff.1 hkind]
          · intro hinit
            exact Nat.le_of_not_lt fun hlt => hinside ⟨hinit, hlt⟩
  · rintro ⟨rfl, haligned, hinside⟩
    have hkind : SectionKind.ofCode? s.kind.code = some s.kind :=
      SectionKind.ofCode?_eq_some_iff.2 rfl
    have hin : ¬ (s.kind.initialized = true ∧ length < s.offset + s.size) :=
      fun hlt => Nat.not_lt.2 (hinside hlt.1) hlt.2
    simp [check, Section.header, hkind, haligned, hin]

theorem map_header_of_map_check {length : Nat} {headers : List SectionHeader}
    {sections : List Section} (h : headers.map (·.check length) = sections.map .ok) :
    sections.map Section.header = headers := by
  induction headers generalizing sections with
  | nil => simpa [eq_comm] using h
  | cons header rest ih =>
    cases sections with
    | nil => cases h
    | cons s sections =>
      obtain ⟨hs, hrest⟩ := List.cons_eq_cons.1 h
      rw [List.map_cons, ih hrest, (SectionHeader.check_eq_ok_iff.1 hs).1]

namespace Image

private theorem stated_iff {place : Nat} {s : Section} :
    s.Stated data place ↔ (sectionHeaderAt data place).check data.length = .ok s := by
  rw [SectionHeader.check_eq_ok_iff, sectionHeaderAt, Section.header, SectionHeader.mk.injEq]
  constructor
  · intro h
    exact ⟨⟨h.name.symm, h.address.symm, h.size.symm, h.offset.symm, h.kind.symm⟩, h.aligned,
      h.inside⟩
  · rintro ⟨⟨hname, haddress, hsize, hoffset, hkind⟩, haligned, hinside⟩
    exact ⟨hname.symm, haddress.symm, hsize.symm, hoffset.symm, hkind.symm, haligned, hinside⟩

theorem declares_iff {entry : Nat} {sections : List Section} : Declares data entry sections ↔
    numberAt data 0 2 = magic ∧ numberAt data 4 4 = entry ∧
      headerSize + numberAt data 2 2 * sectionHeaderSize ≤ data.length ∧
      checkHeaders data.length (headers data) = (sections, none) := by
  constructor
  · intro h
    refine ⟨h.magic, h.entry, by rw [h.count]; exact h.complete, checkHeaders_of_map ?_⟩
    apply List.ext_getElem?
    intro i
    by_cases hi : i < sections.length
    · have hs := List.getElem?_eq_getElem hi
      have hcheck := stated_iff.1 (h.stated i _ hs)
      simp [headers, h.count, hi, hcheck]
    · simp [headers, h.count, hi]
  · rintro ⟨hmagic, hentry, hcomplete, hcheck⟩
    have hmap := checkHeaders_eq_none hcheck
    have hcount : numberAt data 2 2 = sections.length := by
      simpa [headers] using congrArg List.length hmap
    refine ⟨hmagic, hcount, hentry, by rwa [← hcount], ?_⟩
    intro i s hs
    obtain ⟨hi, rfl⟩ := List.getElem?_eq_some_iff.1 hs
    have hget := congrArg (fun l => l[i]?) hmap
    apply stated_iff.2
    simpa [headers, hcount, hi] using hget

theorem survey_eq (h : file.Shows d data) : survey ⟨file, d⟩ =
    if data.length < headerSize then .error .truncated ⟨file, d⟩
    else if numberAt data 0 2 ≠ magic then .error (.badMagic (numberAt data 0 2)) ⟨file, d⟩
    else if data.length < headerSize + numberAt data 2 2 * sectionHeaderSize then
      .error .truncated ⟨file, d⟩
    else .ok ⟨numberAt data 4 4, (checkHeaders data.length (headers data)).1,
      (checkHeaders data.length (headers data)).2⟩ ⟨file, d⟩ := by
  have hnumber : ∀ place width, place + width ≤ headerSize →
      numberAt (data.slice 0 headerSize) place width = numberAt data place width := by
    intro place width hle
    rw [numberAt_slice hle, Nat.zero_add]
  apply Ensures.eq
  rw [survey, ensures_bind]
  by_cases hheader : data.length < headerSize
  · have hread := h.readExact_eq (Nat.zero_le _) headerSize
    rw [Nat.zero_add, if_pos hheader] at hread
    rw [ensures_of_error hread, if_pos hheader]
  · have hread := h.readExact_eq (Nat.zero_le _) headerSize
    rw [Nat.zero_add, if_neg hheader] at hread
    rw [ensures_of_ok hread, if_neg hheader]
    simp only [hnumber 0 2 (by decide), hnumber 2 2 (by decide), hnumber 4 4 (by decide)]
    by_cases hmagic : numberAt data 0 2 = magic
    · have htable := h.readExact_eq (Nat.le_of_not_lt hheader)
        (numberAt data 2 2 * sectionHeaderSize)
      rw [if_neg (not_not_intro hmagic), if_neg (not_not_intro hmagic), ensures_bind]
      by_cases hcut : data.length < headerSize + numberAt data 2 2 * sectionHeaderSize
      · rw [if_pos hcut] at htable
        rw [ensures_of_error htable, if_pos hcut]
      · rw [if_neg hcut] at htable
        rw [ensures_of_ok htable, if_neg hcut, ensures_bind, ensures_get, h.length_eq,
          Bytes.slice, sectionHeaders_take, sectionHeaders_drop]
        rfl
    · rw [if_pos hmagic, if_pos hmagic]
      rfl

theorem ofFile_cases (h : file.Shows d data) :
    (∃ e, (ofFile file d).outcome = .error e ∧ (ofFile file d).devices = (file.close d).2) ∨
    ∃ entry sections, ofFile file d = ⟨sections, .ok ⟨entry, sections, some file⟩, d⟩ ∧
      Declares data entry sections := by
  have hs := survey_eq h
  split at hs
  · simp [ofFile, hs, Channel.close]
  · split at hs
    · simp [ofFile, hs, Channel.close]
    · next hmagic =>
      split at hs
      · simp [ofFile, hs, Channel.close]
      · next hcut =>
        rcases hcheck : checkHeaders data.length (headers data) with ⟨accepted, _ | e⟩
        · have hdeclares : Declares data (numberAt data 4 4) accepted :=
            declares_iff.2 ⟨Decidable.not_not.1 hmagic, rfl, Nat.le_of_not_lt hcut, hcheck⟩
          exact Or.inr ⟨_, _, by simp only [ofFile, hs, hcheck], hdeclares⟩
        · simp [ofFile, hs, hcheck, Channel.close]

theorem ofFile_of_declares {entry : Nat} {sections : List Section} (h : file.Shows d data)
    (hdeclares : Declares data entry sections) :
    ofFile file d = ⟨sections, .ok ⟨entry, sections, some file⟩, d⟩ := by
  obtain ⟨hmagic, hentry, hcomplete, hcheck⟩ := declares_iff.1 hdeclares
  have hheader : ¬ data.length < headerSize := by omega
  have htable : ¬ data.length < headerSize + numberAt data 2 2 * sectionHeaderSize :=
    Nat.not_lt.2 hcomplete
  simp only [ofFile, survey_eq h, hheader, htable, hmagic, hcheck, hentry, ne_eq,
    not_true_eq_false, if_false]

theorem Declares.unique {entry entry' : Nat} {sections sections' : List Section}
    (h : Declares data entry sections) (h' : Declares data entry' sections') :
    entry = entry' ∧ sections = sections' := by
  have hshows : OpenFile.Shows ⟨.file "" (some 0) 0, {}⟩ { files := { files := [data] } } data :=
    ⟨"", 0, 0, rfl, rfl⟩
  have hsame := (ofFile_of_declares hshows h).symm.trans (ofFile_of_declares hshows h')
  simp only [Opening.mk.injEq, Except.ok.injEq, Image.mk.injEq] at hsame
  exact ⟨hsame.2.1.1, hsame.1⟩

end Image

def Section.page (data : Bytes) (s : Section) (page : Nat) : Frame :=
  if s.kind.initialized then
    Frame.ofBytes (data.slice (s.offset + page * pageSize)
      (min (s.size - page * pageSize) pageSize))
  else Frame.zero

theorem Section.getElem?_page (s : Section) (page : Nat) {i : Nat}
    (hi : i < pageSize) (h : s.kind.initialized = true → s.offset + s.size ≤ data.length) :
    (s.page data page)[i]? =
      if s.kind.initialized = true ∧ page * pageSize + i < s.size then
        data[s.offset + (page * pageSize + i)]?
      else some 0 := by
  unfold Section.page
  by_cases hinit : s.kind.initialized = true
  · rw [if_pos hinit, Frame.getElem?_ofBytes, if_pos hi, Bytes.slice, List.getElem?_take,
      List.getElem?_drop]
    by_cases hin : page * pageSize + i < s.size
    · have hlt : i < min (s.size - page * pageSize) pageSize := by omega
      have hdata : s.offset + page * pageSize + i < data.length := by
        have := h hinit
        omega
      rw [if_pos hlt, if_pos ⟨hinit, hin⟩, List.getElem?_eq_getElem hdata, Option.getD_some,
        ← Nat.add_assoc, List.getElem?_eq_getElem hdata]
    · have hge : ¬ i < min (s.size - page * pageSize) pageSize := by omega
      rw [if_neg hge, if_neg (fun hc => hin hc.2), Option.getD_none]
  · rw [if_neg hinit, if_neg (fun hc => hinit hc.1), Frame.getElem?_zero, if_pos hi]

theorem Image.loadPage_eq {image : Image} {index page : Nat} {s : Section}
    (hfile : image.file = some file) (h : file.Shows d data)
    (hs : image.sections[index]? = some s) (hp : page < s.pages)
    (hin : s.kind.initialized = true → s.offset + s.size ≤ data.length) :
    Image.loadPage d index page image = .ok (s.page data page) image := by
  apply Ensures.eq_ok
  unfold loadPage
  rw [ensures_bind, ensures_get]
  have hpage : ¬ s.pages ≤ page := Nat.not_le.2 hp
  simp only [hs, hfile, if_neg hpage]
  by_cases hinit : s.kind.initialized = true
  · have hlength : (data.slice (s.offset + page * pageSize)
        (min (s.size - page * pageSize) pageSize)).length =
        min (s.size - page * pageSize) pageSize := by
      have hsize := hin hinit
      have hpages : page * pageSize < s.size := by
        simp only [Section.pages, pageSize] at hp ⊢
        omega
      rw [Bytes.length_slice]
      omega
    have himage : ({ image with file := some file } : Image) = image := by
      rw [← hfile]
    rw [if_pos hinit, h.readAt_eq]
    simp only [ensures_bind, ensures_set, if_pos hlength, ensures_pure]
    exact ⟨by rw [Section.page, if_pos hinit], himage⟩
  · rw [if_neg hinit, ensures_pure]
    exact ⟨by rw [Section.page, if_neg hinit], rfl⟩

end PagedKernel

import PagedKernel.Proofs.Files.Stream
import PagedKernel.Proofs.Image.Acceptance

/-!
# Images behind limited files

A limited file gives fewer bytes than were asked for, or none at all once it was called too often. An
image behind it is either read exactly, or the read fails: no page and no section header is ever made
of bytes that did not come. The file is closed once, when its image is refused or closed.
-/

namespace PagedKernel

namespace OpenFile

def unlimited (file : OpenFile) : OpenFile := { file with limits := {} }

def spent (file : OpenFile) (calls : Nat) : OpenFile :=
  { file with limits := file.limits.spend calls }

@[simp] private theorem unlimited_spent (file : OpenFile) (calls : Nat) :
    (file.spent calls).unlimited = file.unlimited := rfl

@[simp] private theorem limits_spent (file : OpenFile) (calls : Nat) :
    (file.spent calls).limits = file.limits.spend calls := rfl

private theorem spent_zero (file : OpenFile) : file.spent 0 = file := by
  obtain ⟨source, _, _, _ | most⟩ := file <;> rfl

private theorem spent_of_exhausted {file : OpenFile} (h : file.limits.calls = some 0) (calls : Nat) :
    file.spent calls = file := by
  obtain ⟨source, _, _, most⟩ := file
  cases h
  simp [spent, Limits.spend]

private theorem spent_spent (file : OpenFile) (calls more : Nat) :
    (file.spent calls).spent more = file.spent (calls + more) := by
  obtain ⟨source, _, _, _ | most⟩ := file
  · rfl
  · simp [spent, Limits.spend, Nat.sub_sub]

end OpenFile

/-- Whether a file with these limits gives all of `length` bytes that are there. -/
def Limits.Admits (l : Limits) (length : Nat) : Prop :=
  l.calls ≠ some 0 ∧ OpenFile.within length l.maxRead = length

instance (l : Limits) (length : Nat) : Decidable (l.Admits length) :=
  inferInstanceAs (Decidable (_ ∧ _))

/-- Whether a file with these limits gives all headers of an image with the contents `data`. -/
def Limits.Opens (l : Limits) (data : Bytes) : Prop :=
  l.Admits Image.headerSize ∧ (l.spend 1).Admits (numberAt data 2 2 * Image.sectionHeaderSize)

section

variable {d : Devices} {file : OpenFile} {data : Bytes}

private theorem OpenFile.Shows.close_eq (h : file.unlimited.Shows d data) :
    (file.close d).2 = { d with files := d.files.closed } := by
  obtain ⟨source, limits⟩ := file
  obtain ⟨name, id, place, hfile, rfl⟩ := h
  cases hfile
  rfl

/-- A limited file refuses to be read, or gives the start of what was asked for. -/
theorem OpenFile.Shows.readAt_limited (h : file.unlimited.Shows d data) (position length : Nat) :
    Channel.readAt position length ⟨file, d⟩ =
      if file.limits.calls = some 0 then .error .ioError ⟨file, d⟩
      else .ok (data.slice position (OpenFile.within length file.limits.maxRead))
        ⟨file.spent 1, d⟩ := by
  obtain ⟨source, limits⟩ := file
  obtain ⟨name, id, place, hfile, rfl⟩ := h
  cases hfile
  obtain ⟨maxRead, maxWrite, _ | _ | calls⟩ := limits <;> rfl

namespace Image

/-- Bytes that are read exactly are those of the file. If the limits admit the read, it fails only
where it fails without limits. -/
theorem ensures_readExact (h : file.unlimited.Shows d data) (position length : Nat) :
    Ensures (readExact position length) ⟨file, d⟩
      (fun bs c => c = ⟨file.spent 1, d⟩ ∧ file.limits.Admits length ∧
        bs = data.slice position length ∧
        readExact position length ⟨file.unlimited, d⟩ = .ok bs ⟨file.unlimited, d⟩)
      (fun e c => (∃ calls, c = ⟨file.spent calls, d⟩) ∧ (file.limits.Admits length →
        readExact position length ⟨file.unlimited, d⟩ = .error e ⟨file.unlimited, d⟩)) := by
  have hfree : mapStop ImageError.io (Channel.readAt position length) ⟨file.unlimited, d⟩ =
      .ok (data.slice position length) ⟨file.unlimited, d⟩ := by
    rw [mapStop, h.readAt_eq]
  unfold readExact
  rw [ensures_bind, ensures_mapStop, bind_of_ok hfree]
  by_cases hcalls : file.limits.calls = some 0
  · have hread := h.readAt_limited position length
    rw [if_pos hcalls] at hread
    rw [ensures_of_error hread]
    exact ⟨⟨0, by rw [file.spent_zero]⟩, fun hadmits => absurd hcalls hadmits.1⟩
  · have hread := h.readAt_limited position length
    rw [if_neg hcalls] at hread
    rw [ensures_of_ok hread]
    by_cases hwithin : OpenFile.within length file.limits.maxRead = length
    · rw [hwithin]
      split
      · exact ⟨rfl, ⟨hcalls, hwithin⟩, rfl, rfl⟩
      · exact ⟨⟨1, rfl⟩, fun _ => rfl⟩
    · have hshort : (data.slice position (OpenFile.within length file.limits.maxRead)).length ≠
          length := by
        have hle := OpenFile.within_le length file.limits.maxRead
        rw [Bytes.length_slice]
        omega
      rw [if_neg hshort]
      exact ⟨⟨1, rfl⟩, fun hadmits => absurd hadmits.2 hwithin⟩

/-- What is found out about a file within limits is what is found out without them. -/
theorem ensures_survey (h : file.unlimited.Shows d data) : Ensures survey ⟨file, d⟩
    (fun s c => c = ⟨file.spent 2, d⟩ ∧ file.limits.Opens data ∧
      survey ⟨file.unlimited, d⟩ = .ok s ⟨file.unlimited, d⟩)
    (fun e c => (∃ calls, c = ⟨file.spent calls, d⟩) ∧ (file.limits.Opens data →
      survey ⟨file.unlimited, d⟩ = .error e ⟨file.unlimited, d⟩)) := by
  have hnumber : ∀ place width, place + width ≤ headerSize →
      numberAt (data.slice 0 headerSize) place width = numberAt data place width := by
    intro place width hle
    rw [numberAt_slice hle, Nat.zero_add]
  rw [survey]
  refine (ensures_readExact h 0 headerSize).bind ?_ ?_
  · rintro header c ⟨rfl, hadmits, rfl, hfree⟩
    simp only [bind_of_ok hfree, hnumber 0 2 (by decide), hnumber 2 2 (by decide),
      hnumber 4 4 (by decide)]
    by_cases hmagic : numberAt data 0 2 = magic
    · simp only [hmagic, ne_eq, not_true_eq_false, if_false]
      have hspent : (file.spent 1).unlimited.Shows d data := h
      refine (ensures_readExact hspent headerSize _).bind ?_ ?_
      · rintro table c ⟨rfl, htable, rfl, hfree'⟩
        rw [OpenFile.unlimited_spent] at hfree'
        rw [ensures_bind, ensures_get, bind_of_ok hfree', ensures_pure, file.spent_spent]
        exact ⟨rfl, ⟨hadmits, htable⟩, rfl⟩
      · rintro e c ⟨⟨calls, rfl⟩, hfails⟩
        rw [file.spent_spent]
        exact ⟨⟨1 + calls, rfl⟩, fun hopens => bind_of_error (hfails hopens.2)⟩
    · simp only [hmagic, ne_eq, not_false_eq_true, if_true]
      exact ⟨⟨1, rfl⟩, fun _ => rfl⟩
  · rintro e c ⟨hspent, hfails⟩
    exact ⟨hspent, fun hopens => bind_of_error (hfails hopens.1)⟩

/-- A file whose image is refused is closed, and one whose image is accepted stays open. -/
theorem ofFile_limited (h : file.unlimited.Shows d data) :
    (∃ e, (ofFile file d).outcome = .error e ∧
      (ofFile file d).devices = { d with files := d.files.closed } ∧
      (file.limits.Opens data → (ofFile file.unlimited d).outcome = .error e)) ∨
    ∃ entry sections, file.limits.Opens data ∧ Declares data entry sections ∧
      ofFile file d = ⟨sections, .ok ⟨entry, sections, some (file.spent 2)⟩, d⟩ ∧
      ofFile file.unlimited d = ⟨sections, .ok ⟨entry, sections, some file.unlimited⟩, d⟩ := by
  have hclose : ∀ calls, ((⟨file.spent calls, d⟩ : Channel).close).devices =
      { d with files := d.files.closed } := by
    intro calls
    have hspent : (file.spent calls).unlimited.Shows d data := h
    exact hspent.close_eq
  have hsurvey := ensures_survey h
  rcases hlimited : survey ⟨file, d⟩ with ⟨s, c⟩ | ⟨e, c⟩
  · obtain ⟨rfl, hopens, hfree⟩ := hsurvey.of_ok hlimited
    rcases hrefusal : s.refusal with _ | e
    · have hwhole : ofFile file.unlimited d =
          ⟨s.accepted, .ok ⟨s.entry, s.accepted, some file.unlimited⟩, d⟩ := by
        simp only [ofFile, hfree, hrefusal]
      rcases ofFile_cases h with ⟨e, herror, -⟩ | ⟨entry, sections, hopening, hdeclares⟩
      · rw [hwhole] at herror
        cases herror
      · rw [hwhole] at hopening
        cases hopening
        exact .inr ⟨_, _, hopens, hdeclares, by simp only [ofFile, hlimited, hrefusal], hwhole⟩
    · left
      refine ⟨e, ?_, ?_, fun _ => ?_⟩ <;> simp only [ofFile, hlimited, hfree, hrefusal, hclose]
  · obtain ⟨⟨calls, rfl⟩, hfails⟩ := hsurvey.of_error hlimited
    refine .inl ⟨e, ?_, ?_, fun hopens => ?_⟩
    · simp only [ofFile, hlimited]
    · simp only [ofFile, hlimited, hclose]
    · simp only [ofFile, hfails hopens]

end Image

end

def Section.sizeOn (s : Section) (page : Nat) : Nat := min (s.size - page * pageSize) pageSize

private theorem Section.length_sizeOn {s : Section} {data : Bytes} {page : Nat} (hpage : page < s.pages)
    (hin : s.offset + s.size ≤ data.length) :
    (data.slice (s.offset + page * pageSize) (s.sizeOn page)).length = s.sizeOn page := by
  have hstart : page * pageSize < s.size := by
    simp only [Section.pages, pageSize] at hpage ⊢
    omega
  rw [Bytes.length_slice, Section.sizeOn]
  omega

/-- What can be done to an image that is open. -/
inductive ImageCall where
  | loadPage (index page : Nat)
  | close
deriving DecidableEq, Repr

inductive ImageReply where
  | page (contents : Except Errno Frame)
  | closed

namespace Image

variable {d : Devices} {file : OpenFile} {data : Bytes} {image : Image} {calls : List ImageCall}
variable {index page : Nat} {s : Section}

def section? (image : Image) (index page : Nat) : Option Section :=
  (image.sections[index]?).filter fun s => page < s.pages

def serve (image : Image) (d : Devices) : ImageCall → ImageReply × Image × Devices
  | .loadPage index page =>
    match loadPage d index page image with
    | .ok frame image => (.page (.ok frame), image, d)
    | .error e image => (.page (.error e), image, d)
  | .close => (.closed, image.close d)

def serveAll (image : Image) (d : Devices) : List ImageCall → List ImageReply × Image × Devices
  | [] => ([], image, d)
  | call :: calls =>
    let (reply, image, d) := image.serve d call
    let (replies, image, d) := image.serveAll d calls
    (reply :: replies, image, d)

def reads (image : Image) : ImageCall → Bool
  | .loadPage index page => (image.section? index page).any (·.kind.initialized)
  | .close => false

/-- The answer to a call behind the calls `past`, from an image whose file has the limits `l` and
was called twice for the headers. The same image without limits is `whole`. -/
inductive Answers (whole : Image) (d : Devices) (l : Limits) (past : List ImageCall) :
    ImageCall → ImageReply → Prop
  | close : Answers whole d l past .close .closed
  | outside {index page : Nat} (hsection : whole.section? index page = none) :
      Answers whole d l past (.loadPage index page) (.page (.error .invalidArgument))
  | afterClose {index page : Nat} {s : Section} (hsection : whole.section? index page = some s)
      (hclosed : .close ∈ past) :
      Answers whole d l past (.loadPage index page) (.page (.error .badFileDescriptor))
  | exact {index page : Nat} {s : Section} {frame : Frame}
      (hsection : whole.section? index page = some s) (hopen : .close ∉ past)
      (hadmits : s.kind.initialized = true →
        (l.spend (2 + past.countP whole.reads)).Admits (s.sizeOn page))
      (hframe : loadPage d index page whole = .ok frame whole) :
      Answers whole d l past (.loadPage index page) (.page (.ok frame))
  | failed {index page : Nat} {s : Section} (hsection : whole.section? index page = some s)
      (hopen : .close ∉ past) (hinit : s.kind.initialized = true)
      (hrefuses : ¬ (l.spend (2 + past.countP whole.reads)).Admits (s.sizeOn page)) :
      Answers whole d l past (.loadPage index page) (.page (.error .ioError))

private theorem section?_eq_some_iff :
    image.section? index page = some s ↔ image.sections[index]? = some s ∧ page < s.pages := by
  simp [section?, Option.filter_eq_some_iff]

private theorem loadPage_of_outside (h : image.section? index page = none) (d : Devices) :
    loadPage d index page image = .error .invalidArgument image := by
  apply Ensures.eq
  unfold loadPage
  rw [ensures_bind, ensures_get]
  cases hs : image.sections[index]? with
  | none => rfl
  | some s =>
    have hpage : s.pages ≤ page := by
      apply Nat.le_of_not_lt
      intro hlt
      rw [section?_eq_some_iff.2 ⟨hs, hlt⟩] at h
      cases h
    simp only [if_pos hpage]
    rfl

private theorem loadPage_of_closed (h : image.section? index page = some s) (hfile : image.file = none)
    (d : Devices) : loadPage d index page image = .error .badFileDescriptor image := by
  obtain ⟨hs, hpage⟩ := section?_eq_some_iff.1 h
  apply Ensures.eq
  unfold loadPage
  rw [ensures_bind, ensures_get]
  simp only [hs, hfile, if_neg (Nat.not_le.2 hpage)]
  rfl

/-- A page is read in one piece, or not at all. -/
theorem loadPage_limited (hsection : image.section? index page = some s)
    (hfile : image.file = some file) (h : file.unlimited.Shows d data)
    (hin : s.kind.initialized = true → s.offset + s.size ≤ data.length) :
    loadPage d index page image =
      if s.kind.initialized then
        if file.limits.Admits (s.sizeOn page) then
          .ok (s.page data page) { image with file := some (file.spent 1) }
        else .error .ioError { image with file := some (file.spent 1) }
      else .ok Frame.zero image := by
  obtain ⟨hs, hpage⟩ := section?_eq_some_iff.1 hsection
  have hsize : min (s.size - page * pageSize) pageSize = s.sizeOn page := rfl
  apply Ensures.eq
  unfold loadPage
  rw [ensures_bind, ensures_get]
  simp only [hs, hfile, if_neg (Nat.not_le.2 hpage), hsize]
  by_cases hinit : s.kind.initialized = true
  · simp only [hinit, if_true, h.readAt_limited]
    by_cases hcalls : file.limits.calls = some 0
    · have hrefuses : ¬ file.limits.Admits (s.sizeOn page) := fun hadmits => hadmits.1 hcalls
      simp only [if_pos hcalls, if_neg hrefuses, ensures_bind, ensures_set, ensures_throw,
        OpenFile.spent_of_exhausted hcalls]
    · by_cases hwithin : OpenFile.within (s.sizeOn page) file.limits.maxRead = s.sizeOn page
      · have hadmits : file.limits.Admits (s.sizeOn page) := ⟨hcalls, hwithin⟩
        have hlength := Section.length_sizeOn hpage (hin hinit)
        simp only [if_neg hcalls, if_pos hadmits, hwithin, ensures_bind, ensures_set]
        rw [Section.page, if_pos hinit, hsize, if_pos hlength]
        exact rfl
      · have hrefuses : ¬ file.limits.Admits (s.sizeOn page) := fun hadmits => hwithin hadmits.2
        have hshort : (data.slice (s.offset + page * pageSize)
            (OpenFile.within (s.sizeOn page) file.limits.maxRead)).length ≠ s.sizeOn page := by
          have hle := OpenFile.within_le (s.sizeOn page) file.limits.maxRead
          rw [Bytes.length_slice]
          omega
        simp only [if_neg hcalls, if_neg hrefuses, ensures_bind, ensures_set]
        rw [if_neg hshort]
        exact rfl
  · simp only [hinit]
    rfl

private theorem serveAll_cons (image : Image) (d : Devices) (call : ImageCall)
    (calls : List ImageCall) :
    image.serveAll d (call :: calls) =
      let next := (image.serve d call).2
      ((image.serve d call).1 :: (next.1.serveAll next.2 calls).1,
        (next.1.serveAll next.2 calls).2) := rfl

private theorem length_serveAll (image : Image) (d : Devices) (calls : List ImageCall) :
    (image.serveAll d calls).1.length = calls.length := by
  induction calls generalizing image d with
  | nil => rfl
  | cons call calls ih =>
    rw [serveAll_cons]
    exact congrArg Nat.succ (ih ..)

private theorem getElem?_serveAll (image : Image) (d : Devices) (calls : List ImageCall) (i : Nat) :
    (image.serveAll d calls).1[i]? = (calls[i]?).map fun call =>
      let before := (image.serveAll d (calls.take i)).2
      (before.1.serve before.2 call).1 := by
  induction calls generalizing image d i with
  | nil => rfl
  | cons call calls ih =>
    rw [serveAll_cons]
    cases i with
    | zero => rfl
    | succ i =>
      rw [List.getElem?_cons_succ, List.getElem?_cons_succ, ih]
      rfl

private theorem serve_of_closed (hfile : image.file = none) (d : Devices) (call : ImageCall) :
    (image.serve d call).2 = (image, d) := by
  cases call with
  | loadPage index page =>
    simp only [serve]
    cases hsection : image.section? index page with
    | none => rw [loadPage_of_outside hsection]
    | some s => rw [loadPage_of_closed hsection hfile]
  | close =>
    simp only [serve, close, hfile]

private theorem serveAll_of_closed (hfile : image.file = none) (d : Devices) (calls : List ImageCall) :
    (image.serveAll d calls).2 = (image, d) := by
  induction calls with
  | nil => rfl
  | cons call calls ih =>
    rw [serveAll_cons]
    simp only [serve_of_closed hfile, ih]

def Inside (image : Image) (data : Bytes) : Prop :=
  ∀ (i : Nat) (s : Section), image.sections[i]? = some s → s.kind.initialized = true →
    s.offset + s.size ≤ data.length

section

variable (h : file.unlimited.Shows d data) (hin : image.Inside data)

include h hin

private theorem serve_loadPage (hfile : image.file = some file) (index page : Nat) :
    (image.serve d (.loadPage index page)).2 =
      ({ image with
          file := some (file.spent (image.reads (.loadPage index page)).toNat) }, d) := by
  have hsame : ({ image with file := some (file.spent 0) } : Image) = image := by
    rw [file.spent_zero, ← hfile]
  simp only [serve, reads]
  cases hsection : image.section? index page with
  | none =>
    rw [loadPage_of_outside hsection]
    exact congrArg (·, d) hsame.symm
  | some s =>
    have hs := (section?_eq_some_iff.1 hsection).1
    rw [loadPage_limited hsection hfile h (hin index s hs)]
    by_cases hinit : s.kind.initialized = true
    · by_cases hadmits : file.limits.Admits (s.sizeOn page) <;> simp [hinit, hadmits]
    · simpa [hinit] using hsame.symm

private theorem state_serveAll (hfile : image.file = some file) (calls : List ImageCall) :
    (image.serveAll d calls).2 =
      if .close ∈ calls then ({ image with file := none }, { d with files := d.files.closed })
      else ({ image with file := some (file.spent (calls.countP image.reads)) }, d) := by
  induction calls generalizing image file with
  | nil =>
    simp only [serveAll, List.not_mem_nil, if_false, List.countP_nil, file.spent_zero, ← hfile]
  | cons call calls ih =>
    rw [serveAll_cons]
    cases call with
    | close =>
      have hclose : (image.serve d .close).2 =
          ({ image with file := none }, { d with files := d.files.closed }) := by
        simp only [serve, close, hfile, h.close_eq]
      simp only [hclose, List.mem_cons_self, if_true]
      exact serveAll_of_closed rfl _ calls
    | loadPage index page =>
      have hopen : ImageCall.close ∈ ImageCall.loadPage index page :: calls ↔
          ImageCall.close ∈ calls := by simp
      have hcount : (ImageCall.loadPage index page :: calls).countP image.reads =
          (image.reads (.loadPage index page)).toNat + calls.countP image.reads := by
        rw [List.countP_cons, Nat.add_comm, Bool.toNat, Bool.cond_eq_ite]
      let read : OpenFile := file.spent (image.reads (.loadPage index page)).toNat
      have hspent : read.unlimited.Shows d data := h
      have hrest : (serveAll { image with file := some read } d calls).2 = _ := ih hspent hin rfl
      simp only [serve_loadPage h hin hfile, hopen, hcount, ← file.spent_spent]
      exact hrest

end

/-- An image answers as it would without limits, or with the failure that the limits cause. -/
theorem answers_serve {entry : Nat} {sections : List Section} (h : file.unlimited.Shows d data)
    (hin : Inside ⟨entry, sections, none⟩ data) (past : List ImageCall) (call : ImageCall) :
    let before := (serveAll ⟨entry, sections, some (file.spent 2)⟩ d past).2
    Answers ⟨entry, sections, some file.unlimited⟩ d file.limits past call
      (before.1.serve before.2 call).1 := by
  intro before
  have hspent : (file.spent 2).unlimited.Shows d data := h
  have hinside : Inside ⟨entry, sections, some (file.spent 2)⟩ data := hin
  have hbefore : before = _ := state_serveAll hspent hinside rfl past
  cases call with
  | close => exact .close
  | loadPage index page =>
    have hsame : before.1.section? index page = section? ⟨entry, sections, some file.unlimited⟩
        index page := by
      rw [hbefore]
      split <;> rfl
    simp only [serve]
    cases hsection : section? ⟨entry, sections, some file.unlimited⟩ index page with
    | none =>
      rw [loadPage_of_outside (hsame.trans hsection)]
      exact .outside hsection
    | some s =>
      by_cases hclosed : .close ∈ past
      · have hfile : before.1.file = none := by rw [hbefore, if_pos hclosed]
        rw [loadPage_of_closed (hsame.trans hsection) hfile]
        exact .afterClose hsection hclosed
      · obtain ⟨hs, hpage⟩ := section?_eq_some_iff.1 hsection
        have hfree : (⟨entry, sections, some file.unlimited⟩ : Image).file = some file.unlimited :=
          rfl
        have hread := loadPage_eq hfree h hs hpage (hin index s hs)
        have hbefore' := hbefore.trans (if_neg hclosed)
        rw [OpenFile.spent_spent] at hbefore'
        have hdevices : before.2 = d := by rw [hbefore']
        have hfile : before.1.file = some (file.spent
            (2 + past.countP (reads ⟨entry, sections, some file.unlimited⟩))) := by
          rw [hbefore']
          rfl
        rw [hdevices, loadPage_limited (hsame.trans hsection) hfile h (hin index s hs)]
        by_cases hinit : s.kind.initialized = true
        · by_cases hadmits : (file.limits.spend (2 + past.countP
              (reads ⟨entry, sections, some file.unlimited⟩))).Admits (s.sizeOn page)
          · rw [if_pos hinit, OpenFile.limits_spent, if_pos hadmits]
            exact .exact hsection hclosed (fun _ => hadmits) hread
          · rw [if_pos hinit, OpenFile.limits_spent, if_neg hadmits]
            exact .failed hsection hclosed hinit hadmits
        · rw [Section.page, if_neg hinit] at hread
          rw [if_neg hinit]
          exact .exact hsection hclosed (fun h => absurd h hinit) hread

/-- An image behind a limited file is accepted if it is an image and the limits let its headers be
read, and its file is closed if it is refused. It is the image that the file without limits gives.
Each of its pages is given as that one gives it, or fails; and it closes its file once. -/
theorem exact_or_failed (h : file.unlimited.Shows d data) :
    (∀ e, (ofFile file d).outcome = .error e →
      (ofFile file d).devices = { d with files := d.files.closed }) ∧
    ((∃ image, (ofFile file d).outcome = .ok image) ↔
      WellFormed data ∧ file.limits.Opens data) ∧
    ∀ image, (ofFile file d).outcome = .ok image →
      ∃ whole, (ofFile file.unlimited d).outcome = .ok whole ∧
        image.entry = whole.entry ∧ image.sections = whole.sections ∧
        (ofFile file d).devices = d ∧
        ∀ calls : List ImageCall,
          let run := image.serveAll d calls
          run.2.2 = (if .close ∈ calls then { d with files := d.files.closed } else d) ∧
          run.1.length = calls.length ∧
          ∀ i call reply, calls[i]? = some call → run.1[i]? = some reply →
            Answers whole d file.limits (calls.take i) call reply := by
  rcases ofFile_limited h with ⟨e, herror, hdevices, hfree⟩ |
    ⟨entry, sections, hopens, hdeclares, hopening, hwhole⟩
  · have hrefused : ¬ ∃ image, (ofFile file d).outcome = .ok image := by
      rintro ⟨image, hok⟩
      rw [herror] at hok
      cases hok
    refine ⟨fun _ _ => hdevices, iff_of_false hrefused ?_, fun image hok => ?_⟩
    · rintro ⟨hwell, hopens⟩
      obtain ⟨image, hok⟩ := (exists_outcome_iff h).2 hwell
      rw [hfree hopens] at hok
      cases hok
    · exact absurd ⟨image, hok⟩ hrefused
  · rw [hopening, hwhole]
    refine ⟨nofun, iff_of_true ⟨_, rfl⟩ ⟨?_, hopens⟩, ?_⟩
    · exact (exists_outcome_iff h).1 ⟨_, congrArg Opening.outcome hwhole⟩
    · rintro image ⟨⟩
      have hin : Inside ⟨entry, sections, none⟩ data :=
        fun i s hs => (hdeclares.stated i s hs).inside
      refine ⟨_, rfl, rfl, rfl, rfl, fun calls => ⟨?_, length_serveAll .., ?_⟩⟩
      · have hspent : (file.spent 2).unlimited.Shows d data := h
        have hinside : Inside ⟨entry, sections, some (file.spent 2)⟩ data := hin
        rw [state_serveAll hspent hinside rfl calls]
        split <;> rfl
      · intro i call reply hcall hreply
        rw [getElem?_serveAll, hcall] at hreply
        cases hreply
        exact answers_serve h hin (calls.take i) call

def sampleLimited : OpenFile := ⟨.file "" (some 0) 0, { maxRead := some 60, calls := some 4 }⟩

def sampleOpened : Devices := { files := { files := [sampleBytes], openHandles := 1 } }

def sampleCalls : List ImageCall :=
  [.loadPage 0 0, .loadPage 0 1, .loadPage 0 0, .loadPage 0 0, .loadPage 1 0, .close,
    .loadPage 1 0, .close]

theorem exact_or_failed_sample :
    sampleLimited.unlimited.Shows sampleOpened sampleBytes ∧
    ∃ image whole, (ofFile sampleLimited sampleOpened).outcome = .ok image ∧
      (ofFile sampleLimited.unlimited sampleOpened).outcome = .ok whole ∧
      image.sections = whole.sections ∧
      (image.serveAll sampleOpened sampleCalls).2.2.files.openHandles = 0 ∧
      ∀ i call reply, sampleCalls[i]? = some call →
        (image.serveAll sampleOpened sampleCalls).1[i]? = some reply →
        Answers whole sampleOpened sampleLimited.limits (sampleCalls.take i) call reply := by
  have hshows : sampleLimited.unlimited.Shows sampleOpened sampleBytes := ⟨"", 0, 0, rfl, rfl⟩
  have haccepted : refusal? (ofFile sampleLimited sampleOpened).outcome = none := by
    decide +kernel
  obtain ⟨image, himage⟩ := refusal?_eq_none_iff.1 haccepted
  obtain ⟨whole, hwhole, -, hsections, -, hcalls⟩ :=
    (exact_or_failed hshows).2.2 image himage
  obtain ⟨hdevices, -, hanswers⟩ := hcalls sampleCalls
  exact ⟨hshows, image, whole, himage, hwhole, hsections, by rw [hdevices]; rfl, hanswers⟩

end Image

end PagedKernel

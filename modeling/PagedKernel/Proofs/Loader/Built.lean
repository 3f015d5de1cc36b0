import Mathlib.Algebra.Group.Nat.Defs
import PagedKernel.Proofs.Image.Acceptance
import PagedKernel.Proofs.Image.Layout
import PagedKernel.Proofs.Loader.Load

/-!
# Images that were built

Whatever calls build an image, it is read back as the calls meant it, and its pages hold what they
put there. Without sections at addresses of their own it leaves no gap.
-/

namespace PagedKernel

/-- A call that adds a section to an image under construction. -/
inductive SectionCall where
  | append (name : String) (kind : SectionKind) (data : Bytes)
  | bss (name : String) (size : Nat)
  | place (name : String) (kind : SectionKind) (address : Nat) (data : Bytes)

namespace SectionCall

def run (b : ImageBuilder) : SectionCall → ImageBuilder
  | append name kind data => b.addSection name kind data
  | bss name size => b.addBss name size
  | place name kind address data => b.addSectionAt name kind address data

def name : SectionCall → String
  | append name _ _ | bss name _ | place name _ _ _ => name

def kind : SectionCall → SectionKind
  | append _ kind _ | place _ kind _ _ => kind
  | bss _ _ => .bss

def size : SectionCall → Nat
  | append _ _ data | place _ _ _ data => data.length
  | bss _ size => size

def address? : SectionCall → Option Nat
  | place _ _ address _ => some address
  | append _ _ _ | bss _ _ => none

/-- What the section starts with. Zeros follow, up to the end of its last page. -/
def contents : SectionCall → Bytes
  | append _ kind data | place _ kind _ data => if kind.initialized then data else []
  | bss _ _ => []

private theorem length_contents {c : SectionCall} (h : c.kind.initialized = true) :
    c.contents.length = c.size := by
  cases c with
  | bss _ _ => cases h
  | _ => simp_all [contents, kind, size]

private theorem contents_eq_nil {c : SectionCall} (h : ¬ c.kind.initialized = true) :
    c.contents = [] := by
  cases c with
  | bss _ _ => rfl
  | _ => simp_all [contents, kind]

/-- The section that a call makes when `page` is the first page behind the section before it. -/
structure Makes (c : SectionCall) (page : Nat) (s : Section) : Prop where
  name : s.name = Text.ofUtf8Lossy (((Text.utf8 c.name).take 8).takeWhile (· ≠ 0))
  kind : s.kind = c.kind
  firstPage : s.firstPage = (c.address?.map (· / pageSize)).getD page
  pages : s.pages = (c.size + 4095) / 4096
  readOnly : s.readOnly = true ↔ c.kind = .text ∨ c.kind = .rdata

/-- The sections that calls make, one after another. -/
inductive Made : Nat → List SectionCall → List Section → Prop
  | nil {page : Nat} : Made page [] []
  | cons {page : Nat} {c : SectionCall} {s : Section} {calls : List SectionCall}
      {sections : List Section} (hs : c.Makes page s)
      (hrest : Made (s.firstPage + s.pages) calls sections) : Made page (c :: calls) (s :: sections)

def plan (next : Nat) (c : SectionCall) : SectionPlan :=
  ⟨c.name, c.kind, c.address?.getD next, c.size, c.contents⟩

private theorem run_eq (b : ImageBuilder) (c : SectionCall) :
    c.run b = b.push (c.plan b.nextAddress) := by
  cases c <;> rfl

private theorem address_plan_mod {next : Nat} (c : SectionCall) (hnext : next % pageSize = 0)
    (haligned : ∀ a, c.address? = some a → a % pageSize = 0) :
    (c.plan next).address % pageSize = 0 := by
  cases h : c.address? with
  | none => simpa [plan, h] using hnext
  | some a => simpa [plan, h] using haligned a h

private theorem getElem?_page {c : SectionCall} {s : Section} {data : Bytes} {page o : Nat}
    (hkind : s.kind = c.kind) (hsize : s.size = c.size)
    (hslice : data.slice s.offset c.contents.length = c.contents)
    (hin : s.kind.initialized = true → s.offset + s.size ≤ data.length) (ho : o < pageSize) :
    (s.page data page)[o]? = some ((c.contents[page * pageSize + o]?).getD 0) := by
  rw [s.getElem?_page page ho hin]
  by_cases hinit : c.kind.initialized = true
  · by_cases hlt : page * pageSize + o < c.size
    · have hbyte := congrArg (·[page * pageSize + o]?) hslice
      simp only [Bytes.slice, List.getElem?_take, List.getElem?_drop, length_contents hinit, hlt,
        if_true] at hbyte
      have hend := hin (hkind ▸ hinit)
      rw [hsize] at hend
      rw [if_pos ⟨hkind ▸ hinit, hsize ▸ hlt⟩, ← hbyte, List.getElem?_eq_getElem (by omega)]
      rfl
    · have hge : c.contents.length ≤ page * pageSize + o := by
        rw [length_contents hinit]
        omega
      rw [if_neg (fun h => hlt (hsize ▸ h.2)), List.getElem?_eq_none hge, Option.getD_none]
  · rw [if_neg (fun h => hinit (hkind ▸ h.1)), contents_eq_nil hinit]
    rfl

def plans (next : Nat) : List SectionCall → List SectionPlan
  | [] => []
  | c :: rest => c.plan next :: plans (ImageBuilder.roundUp ((c.plan next).address + c.size)) rest

variable {next offset : Nat} {calls : List SectionCall}

private theorem le_roundUp (n : Nat) : n ≤ ImageBuilder.roundUp n := by
  simp only [ImageBuilder.roundUp, pageSize]
  omega

private theorem roundUp_mod (n : Nat) : ImageBuilder.roundUp n % pageSize = 0 :=
  Nat.mul_mod_left ..

private theorem roundUp_div {address size : Nat} (h : address % pageSize = 0) :
    ImageBuilder.roundUp (address + size) / pageSize =
      address / pageSize + (size + (pageSize - 1)) / pageSize := by
  simp only [ImageBuilder.roundUp, pageSize] at *
  omega

private theorem getElem?_plans {i : Nat} {s : SectionPlan} (hnext : next % pageSize = 0)
    (h : (plans next calls)[i]? = some s) :
    ∃ c next', calls[i]? = some c ∧ next' % pageSize = 0 ∧ s = c.plan next' := by
  induction calls generalizing next i with
  | nil => simp [plans] at h
  | cons c calls ih =>
    cases i with
    | zero =>
      cases h
      exact ⟨c, next, rfl, hnext, rfl⟩
    | succ i =>
      rw [plans, List.getElem?_cons_succ] at h
      exact ih (roundUp_mod _) h

@[simp] private theorem length_plans (next : Nat) (calls : List SectionCall) :
    (plans next calls).length = calls.length := by
  induction calls generalizing next with
  | nil => rfl
  | cons c calls ih => simp [plans, ih]

/-- The sections of a table are those that the calls make. -/
theorem made_tableSections (hnext : next % pageSize = 0)
    (haligned : ∀ c ∈ calls, ∀ a, c.address? = some a → a % pageSize = 0) (offset : Nat) :
    Made (next / pageSize) calls (ImageBuilder.tableSections offset (plans next calls)) := by
  induction calls generalizing next offset with
  | nil => exact .nil
  | cons c calls ih =>
    obtain ⟨hc, hrest⟩ := List.forall_mem_cons.1 haligned
    have haddress := c.address_plan_mod hnext hc
    refine .cons ⟨rfl, rfl, ?_, rfl, ?_⟩ ?_
    · cases h : c.address? <;> simp [Section.firstPage, plan, h]
    · simp only [Section.readOnly, plan]
      cases c.kind <;> decide
    · have hmade := ih (roundUp_mod ((c.plan next).address + c.size)) hrest
        (offset + (c.plan next).data.length)
      rwa [roundUp_div haddress] at hmade

/-- Sections without addresses of their own follow each other without a gap, as many of them as are
read back. -/
theorem misplaced?_eq_none {sections : List Section} {count : Nat} (hnext : next % pageSize = 0)
    (hplain : ∀ c ∈ calls, c.address? = none)
    (hends : ∀ s ∈ plans next calls, ImageBuilder.roundUp (s.address + s.size) < byteRange 4)
    (hheaders : sections.map Section.header =
      (ImageBuilder.writtenHeaders offset (plans next calls)).take count) :
    Section.misplaced? (next / pageSize) sections = none := by
  induction calls generalizing next offset sections count with
  | nil =>
    have hnil : sections = [] := by simpa [plans, ImageBuilder.writtenHeaders] using hheaders
    rw [hnil, Section.misplaced?]
  | cons c calls ih =>
    obtain ⟨hc, hplain⟩ := List.forall_mem_cons.1 hplain
    obtain ⟨hend, hends⟩ := List.forall_mem_cons.1 hends
    have haddress : (c.plan next).address = next := by simp [plan, hc]
    cases sections with
    | nil => rfl
    | cons sec sections =>
      cases count with
      | zero => cases hheaders
      | succ count =>
        rw [plans, ImageBuilder.writtenHeaders, List.map_cons, List.take_succ_cons] at hheaders
        obtain ⟨hheader, hheaders⟩ := List.cons_eq_cons.1 hheaders
        have hrest := ih (roundUp_mod _) hplain hends hheaders
        have hfit : next + c.size < byteRange 4 := by
          rw [← haddress]
          exact Nat.lt_of_le_of_lt (le_roundUp _) hend
        have hfirst : sec.address = next := by
          have hfield := congrArg SectionHeader.address hheader
          simp only [Section.header, ImageBuilder.writtenHeader, haddress] at hfield
          rw [hfield, Nat.mod_eq_of_lt (by omega)]
        have hsize : sec.size = c.size := by
          have hfield := congrArg SectionHeader.size hheader
          simp only [Section.header, ImageBuilder.writtenHeader, plan] at hfield
          rw [hfield, Nat.mod_eq_of_lt (Nat.lt_of_le_of_lt (Nat.le_add_left ..) hfit)]
        rw [haddress, roundUp_div hnext] at hrest
        simp only [Section.misplaced?, Section.firstPage, hfirst, if_true, Section.pages, hsize]
        exact hrest

end SectionCall

namespace ImageBuilder

def ofCalls (entry : Nat) (calls : List SectionCall) : ImageBuilder :=
  calls.foldl SectionCall.run { entry }

private theorem foldl_run (b : ImageBuilder) (calls : List SectionCall) :
    (calls.foldl SectionCall.run b).entry = b.entry ∧
      (calls.foldl SectionCall.run b).sections =
        b.sections ++ SectionCall.plans b.nextAddress calls := by
  induction calls generalizing b with
  | nil => simp [SectionCall.plans]
  | cons c calls ih =>
    rw [List.foldl_cons, SectionCall.run_eq]
    obtain ⟨hentry, hsections⟩ := ih (b.push (c.plan b.nextAddress))
    refine ⟨hentry, ?_⟩
    rw [hsections, push, List.append_assoc]
    rfl

variable (entry : Nat) (calls : List SectionCall)

@[simp] private theorem entry_ofCalls : (ofCalls entry calls).entry = entry := (foldl_run _ calls).1

@[simp] private theorem sections_ofCalls :
    (ofCalls entry calls).sections = SectionCall.plans 0 calls := (foldl_run _ calls).2

/-- An image that was built, as it is read back: its entry point, its sections, and their pages. -/
structure ReadBack (d : Devices) (image : Image) : Prop where
  entry : image.entry = entry
  made : SectionCall.Made 0 calls image.sections
  page : ∀ i c s, calls[i]? = some c → image.sections[i]? = some s → ∀ page < s.pages, ∃ frame,
    Image.loadPage d i page image = .ok frame image ∧
    ∀ o < pageSize, frame[o]? = some ((c.contents[page * pageSize + o]?).getD 0)

variable {entry calls}
variable (hentry : entry < byteRange 4)
variable (hends : ∀ s ∈ (ofCalls entry calls).sections, roundUp (s.address + s.size) < byteRange 4)
variable (haligned : ∀ c ∈ calls, ∀ a, c.address? = some a → a % pageSize = 0)

include hentry hends haligned

private theorem writable_ofCalls (hcount : calls.length < byteRange 2)
    (hlength : (ofCalls entry calls).build.length < byteRange 4) : (ofCalls entry calls).Writable := by
  have hplan : ∀ s ∈ (ofCalls entry calls).sections, ∃ c ∈ calls, ∃ next,
      next % pageSize = 0 ∧ s = c.plan next := by
    intro s hs
    rw [sections_ofCalls] at hs
    obtain ⟨i, hi⟩ := List.mem_iff_getElem?.1 hs
    obtain ⟨c, next, hc, hnext, rfl⟩ := SectionCall.getElem?_plans rfl hi
    exact ⟨c, List.mem_iff_getElem?.2 ⟨i, hc⟩, next, hnext, rfl⟩
  refine ⟨by simpa using hcount, by simpa using hentry, hlength, ?_, ?_, ?_⟩
  · intro s hs
    have hend := Nat.lt_of_le_of_lt (SectionCall.le_roundUp _) (hends s hs)
    omega
  · intro s hs
    obtain ⟨c, hc, next, hnext, rfl⟩ := hplan s hs
    exact c.address_plan_mod hnext (haligned c hc)
  · intro s hs hinit
    obtain ⟨c, hc, next, hnext, rfl⟩ := hplan s hs
    exact SectionCall.length_contents hinit

omit hentry hends haligned in
private theorem section_of_call {i : Nat} {c : SectionCall} {s : Section} (hc : calls[i]? = some c)
    (hs : (tableSections (ofCalls entry calls).contentsStart (ofCalls entry calls).sections)[i]? =
      some s) :
    s.kind = c.kind ∧ s.size = c.size ∧
      (ofCalls entry calls).build.slice s.offset c.contents.length = c.contents := by
  obtain ⟨plan, hplan, hfields⟩ := Option.map_eq_some_iff.1 (getElem?_tableSections .. ▸ hs)
  obtain ⟨pre, hpre, hbuild⟩ := build_eq_append (ofCalls entry calls)
  have hslice := (slice_tableSections hplan hs hpre).1
  rw [← hbuild] at hslice
  rw [sections_ofCalls] at hplan
  obtain ⟨c', next, hc', -, rfl⟩ := SectionCall.getElem?_plans (Nat.zero_mod _) hplan
  rw [hc, Option.some.injEq] at hc'
  subst hc'
  exact ⟨by rw [← hfields]; rfl, by rw [← hfields]; rfl, hslice⟩

/-- A built image is read back as it was meant. -/
theorem readBack_ofCalls (hcount : calls.length < byteRange 2)
    (hlength : (ofCalls entry calls).build.length < byteRange 4) {d : Devices} {file : OpenFile}
    (h : file.Shows d (ofCalls entry calls).build) :
    ∃ image, (Image.ofFile file d).outcome = .ok image ∧ ReadBack entry calls d image := by
  have hdeclares := (writable_ofCalls hentry hends haligned hcount hlength).declares
  refine ⟨_, by rw [Image.ofFile_of_declares h hdeclares], ?_, ?_, ?_⟩
  · exact entry_ofCalls entry calls
  · rw [sections_ofCalls]
    exact SectionCall.made_tableSections (Nat.zero_mod _) haligned _
  · intro i c s hc hs page hp
    have hin := (hdeclares.stated i s hs).inside
    obtain ⟨hkind, hsize, hslice⟩ := section_of_call hc hs
    refine ⟨_, Image.loadPage_eq rfl h hs hp hin, ?_⟩
    intro o ho
    exact SectionCall.getElem?_page hkind hsize hslice hin ho

omit hentry haligned in
/-- What an image declares that was built without sections at addresses of their own is in one
piece. -/
theorem contiguous_ofCalls (hplain : ∀ c ∈ calls, c.address? = none) {entry' : Nat}
    {sections : List Section} (h : Image.Declares (ofCalls entry calls).build entry' sections) :
    Section.ContiguousFrom 0 sections := by
  have hmap := map_header_of_map_check (checkHeaders_eq_none (Image.declares_iff.1 h).2.2.2)
  rw [headers_build, sections_ofCalls] at hmap
  rw [sections_ofCalls] at hends
  apply Section.misplaced?_eq_none_iff.1
  exact SectionCall.misplaced?_eq_none (Nat.zero_mod _) hplain hends hmap

end ImageBuilder

namespace Loader

/-- An image that calls build is read back as they meant it, while its numbers fit their fields.
Built without sections at addresses of their own, it is never refused for a gap. -/
theorem build_decoded (entry : Nat) (calls : List SectionCall) (hentry : entry < 2 ^ 32)
    (hends : ∀ s ∈ (ImageBuilder.ofCalls entry calls).sections,
      ImageBuilder.roundUp (s.address + s.size) < 2 ^ 32) :
    (calls.length ≤ 65535 → (∀ c ∈ calls, ∀ a, c.address? = some a → a % pageSize = 0) →
      (ImageBuilder.ofCalls entry calls).build.length < 2 ^ 32 →
      ∀ (d : Devices) (file : OpenFile), file.Shows d (ImageBuilder.ofCalls entry calls).build →
        ∃ image, (Image.ofFile file d).outcome = .ok image ∧
          ImageBuilder.ReadBack entry calls d image) ∧
    ((∀ c ∈ calls, c.address? = none) →
      ∀ (machine : Machine) (name : String) (args : List String),
        machine.devices.files.contents? name = some (ImageBuilder.ofCalls entry calls).build →
        ∀ sec machine', load name args machine ≠ .error (.refused (.fragmented sec)) machine') := by
  constructor
  · intro hcount haligned hlength d file hshows
    exact ImageBuilder.readBack_ofCalls hentry hends haligned (Nat.lt_succ_of_le hcount) hlength
      hshows
  · intro hplain machine name args hcontents sec machine' hload
    cases obstacle_of_load hload with
    | hindered hcontents' hdeclares hhindered =>
      rw [hcontents] at hcontents'
      cases hcontents'
      have hplaced := ImageBuilder.contiguous_ofCalls hends hplain hdeclares
      cases hhindered with
      | fragmented hbefore hsec => exact hsec (hplaced _ _ _ rfl)

def builtCalls : List SectionCall :=
  [.append "sectioné" .text [1, 2, 3, 4], .bss "zero" 5000, .append "tail" .rdata [9]]

def builtImage : Bytes := (ImageBuilder.ofCalls 16 builtCalls).build

def builtMachine : Machine :=
  .build { physPages := 2 } { files := ({} : FileSystem).insert "a.coff" builtImage }

theorem build_decoded_sample :
    16 < 2 ^ 32 ∧ (∀ s ∈ (ImageBuilder.ofCalls 16 builtCalls).sections,
      ImageBuilder.roundUp (s.address + s.size) < 2 ^ 32) ∧
    (∃ image, (Image.ofFile Image.sampleFile (Image.sampleDevices builtImage)).outcome =
      .ok image ∧ ImageBuilder.ReadBack 16 builtCalls (Image.sampleDevices builtImage) image) ∧
    ∀ sec machine',
      load "a.coff" [] builtMachine ≠ .error (.refused (.fragmented sec)) machine' := by
  have hends : ∀ s ∈ (ImageBuilder.ofCalls 16 builtCalls).sections,
      ImageBuilder.roundUp (s.address + s.size) < 2 ^ 32 := by decide +kernel
  have hplain : ∀ c ∈ builtCalls, c.address? = none := by decide
  have haligned : ∀ c ∈ builtCalls, ∀ a, c.address? = some a → a % pageSize = 0 := by
    intro c hc a ha
    rw [hplain c hc] at ha
    cases ha
  have hcontents : builtMachine.devices.files.contents? "a.coff" = some builtImage := by
    decide +kernel
  obtain ⟨hread, hload⟩ := build_decoded 16 builtCalls (by decide) hends
  exact ⟨by decide, hends,
    hread (by decide) haligned (by decide +kernel) _ _ (Image.sampleFile_shows builtImage),
    hload hplain builtMachine "a.coff" [] hcontents⟩

end Loader

end PagedKernel

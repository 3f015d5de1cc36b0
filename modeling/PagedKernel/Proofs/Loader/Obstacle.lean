import PagedKernel.Loader
import PagedKernel.Proofs.Image

/-!
# What stands in the way of a load

The reasons for which a program is not loaded, each of them where none before it applies: there is
no file, the file is no image, the sections leave a gap, the arguments need more than a page, or the
pages are more than are free or than a program can name. They are read off the file system, the
image, the arguments and the pool, and there is one at most.
-/

namespace PagedKernel

namespace Section

variable {first : Nat} {sections before after : List Section} {sec : Section}

/-- Every section starts where those before it end, the first of them at the page `first`. -/
def ContiguousFrom (first : Nat) (sections : List Section) : Prop :=
  ∀ before sec after, sections = before ++ sec :: after →
    sec.firstPage = first + totalPages before

private theorem contiguousFrom_nil : ContiguousFrom first [] := by
  intro before sec after h
  simp at h

private theorem contiguousFrom_cons : ContiguousFrom first (sec :: sections) ↔
    sec.firstPage = first ∧ ContiguousFrom (first + sec.pages) sections := by
  constructor
  · intro h
    refine ⟨h [] sec sections rfl, ?_⟩
    rintro before s after rfl
    rw [h (sec :: before) s after rfl, totalPages, Nat.add_assoc]
  · rintro ⟨hfirst, hrest⟩ before s after h
    cases before with
    | nil =>
      cases h
      exact hfirst
    | cons s' before =>
      cases h
      rw [hrest before s after rfl, totalPages, Nat.add_assoc]

theorem misplaced?_eq_none_iff : misplaced? first sections = none ↔
    ContiguousFrom first sections := by
  induction sections generalizing first with
  | nil => exact ⟨fun _ => contiguousFrom_nil, fun _ => rfl⟩
  | cons s rest ih =>
    rw [misplaced?, contiguousFrom_cons]
    by_cases hfirst : s.firstPage = first
    · rw [if_pos hfirst, ih]
      exact (and_iff_right hfirst).symm
    · rw [if_neg hfirst]
      simp [hfirst]

private theorem misplaced?_eq_some_iff : misplaced? first sections = some sec ↔
    ∃ before after, sections = before ++ sec :: after ∧ ContiguousFrom first before ∧
      sec.firstPage ≠ first + totalPages before := by
  induction sections generalizing first with
  | nil => simp [misplaced?]
  | cons s rest ih =>
    rw [misplaced?]
    by_cases hfirst : s.firstPage = first
    · rw [if_pos hfirst, ih]
      constructor
      · rintro ⟨before, after, rfl, hbefore, hsec⟩
        refine ⟨s :: before, after, rfl, contiguousFrom_cons.2 ⟨hfirst, hbefore⟩, ?_⟩
        rwa [totalPages, ← Nat.add_assoc]
      · rintro ⟨before, after, h, hbefore, hsec⟩
        cases before with
        | nil =>
          cases h
          exact absurd hfirst hsec
        | cons s' before =>
          cases h
          rw [totalPages, ← Nat.add_assoc] at hsec
          exact ⟨before, after, rfl, (contiguousFrom_cons.1 hbefore).2, hsec⟩
    · rw [if_neg hfirst, Option.some.injEq]
      constructor
      · rintro rfl
        exact ⟨[], rest, rfl, contiguousFrom_nil, hfirst⟩
      · rintro ⟨before, after, h, hbefore, hsec⟩
        cases before with
        | nil =>
          cases h
          rfl
        | cons s' before =>
          cases h
          exact absurd (contiguousFrom_cons.1 hbefore).1 hfirst

end Section

namespace Loader

/-- The pages of a program: those of its sections, its stack, and one for its arguments. -/
def pagesNeeded (sections : List Section) (stackPages : Nat) : Nat :=
  Section.totalPages sections + stackPages + 1

abbrev maxPages : Nat := 0x100000

/-- What keeps sections and arguments from getting their pages. -/
inductive Hindrance (available stackPages : Nat) (args : List String) :
    List Section → LoadError → Prop where
  | fragmented {before sec after} (hbefore : Section.ContiguousFrom 0 before)
      (hsec : sec.firstPage ≠ 0 + Section.totalPages before) :
      Hindrance available stackPages args (before ++ sec :: after) (.fragmented sec.name)
  | argumentsTooLong {sections} (hplaced : Section.ContiguousFrom 0 sections)
      (hsize : pageSize < ArgumentArea.sizeOf args) :
      Hindrance available stackPages args sections (.argumentsTooLong (ArgumentArea.sizeOf args))
  | outOfMemory {sections} (hplaced : Section.ContiguousFrom 0 sections)
      (hsize : ArgumentArea.sizeOf args ≤ pageSize)
      (hpages : available < pagesNeeded sections stackPages ∨
        maxPages < pagesNeeded sections stackPages) :
      Hindrance available stackPages args sections (.outOfMemory (pagesNeeded sections stackPages))

/-- What keeps a program from being loaded. -/
inductive Obstacle (machine : Machine) (name : String) (args : List String) : LoadError → Prop where
  | missing (hnone : machine.devices.files.contents? name = none) :
      Obstacle machine name args (.cannotOpen name)
  | malformed {file d e} (hopen : machine.devices.open? name false = some (file, d))
      (hrefused : (Image.ofFile file d).outcome = .error e) :
      Obstacle machine name args (.malformed e)
  | hindered {data entry sections e} (hcontents : machine.devices.files.contents? name = some data)
      (hdeclares : Image.Declares data entry sections)
      (hhindered : Hindrance machine.pool.available machine.config.stackPages args sections e) :
      Obstacle machine name args e

variable {available stackPages : Nat} {args : List String} {sections : List Section}
variable {machine : Machine} {name : String} {e e' : LoadError}

/-- The first section that is misplaced stands in the way, whatever comes behind it. -/
theorem hindrance_of_misplaced {sec : Section} (h : Section.misplaced? 0 sections = some sec) :
    Hindrance available stackPages args sections e ↔ e = .fragmented sec.name := by
  constructor
  · intro he
    cases he with
    | @fragmented before sec' after hbefore hsec =>
      have hsome := Section.misplaced?_eq_some_iff.2 ⟨before, after, rfl, hbefore, hsec⟩
      rw [h, Option.some.injEq] at hsome
      rw [hsome]
    | argumentsTooLong hplaced _ | outOfMemory hplaced _ _ =>
      rw [Section.misplaced?_eq_none_iff.2 hplaced] at h
      cases h
  · rintro rfl
    obtain ⟨before, after, rfl, hbefore, hsec⟩ := Section.misplaced?_eq_some_iff.1 h
    exact .fragmented hbefore hsec

theorem hindrance_of_placed (h : Section.misplaced? 0 sections = none) :
    Hindrance available stackPages args sections e ↔
      (pageSize < ArgumentArea.sizeOf args ∧ e = .argumentsTooLong (ArgumentArea.sizeOf args)) ∨
      (ArgumentArea.sizeOf args ≤ pageSize ∧ (available < pagesNeeded sections stackPages ∨
        maxPages < pagesNeeded sections stackPages) ∧
        e = .outOfMemory (pagesNeeded sections stackPages)) := by
  have hplaced := Section.misplaced?_eq_none_iff.1 h
  constructor
  · intro he
    cases he with
    | fragmented _ hsec => exact absurd (hplaced _ _ _ rfl) hsec
    | argumentsTooLong _ hlong => exact Or.inl ⟨hlong, rfl⟩
    | outOfMemory _ hsize hpages => exact Or.inr ⟨hsize, hpages, rfl⟩
  · rintro (⟨hlong, rfl⟩ | ⟨hsize, hpages, rfl⟩)
    · exact .argumentsTooLong hplaced hlong
    · exact .outOfMemory hplaced hsize hpages

private theorem Hindrance.unique (h : Hindrance available stackPages args sections e)
    (h' : Hindrance available stackPages args sections e') : e = e' := by
  cases hm : Section.misplaced? 0 sections with
  | some sec => rw [(hindrance_of_misplaced hm).1 h, (hindrance_of_misplaced hm).1 h']
  | none =>
    rcases (hindrance_of_placed hm).1 h with ⟨_, rfl⟩ | ⟨_, _, rfl⟩ <;>
      rcases (hindrance_of_placed hm).1 h' with ⟨_, rfl⟩ | ⟨_, _, rfl⟩ <;>
      first | rfl | omega

/-- A file that can be opened shows its contents, and stays as it is while it is open. Closed again,
it leaves the devices as they were. -/
theorem shows_of_open? {d d' : Devices} {file : OpenFile}
    (h : d.open? name false = some (file, d')) :
    ∃ data, d.files.contents? name = some data ∧ file.Shows d' data ∧ (file.close d').2 = d := by
  rw [Devices.open?, FileSystem.open?] at h
  cases hfind : d.files.names.find? name with
  | none =>
    rw [hfind] at h
    cases h
  | some id =>
    rw [hfind] at h
    cases h
    refine ⟨d.files.bytes id, ?_, ⟨name, id, 0, rfl, rfl⟩, rfl⟩
    rw [FileSystem.contents?, hfind, Option.map_some]

theorem open?_eq_none_iff {d : Devices} :
    d.open? name false = none ↔ d.files.contents? name = none := by
  simp only [Devices.open?, FileSystem.open?, FileSystem.contents?]
  cases d.files.names.find? name <;> simp

private theorem not_malformed {data : Bytes} {entry : Nat} {file : OpenFile} {d : Devices}
    {error : ImageError} (hcontents : machine.devices.files.contents? name = some data)
    (hdeclares : Image.Declares data entry sections)
    (hopen : machine.devices.open? name false = some (file, d)) :
    (Image.ofFile file d).outcome ≠ .error error := by
  intro hrefused
  obtain ⟨data', hdata, hshows, -⟩ := shows_of_open? hopen
  rw [hcontents] at hdata
  cases hdata
  rw [Image.ofFile_of_declares hshows hdeclares] at hrefused
  cases hrefused

/-- A load has one obstacle at most. -/
theorem Obstacle.unique (h : Obstacle machine name args e) (h' : Obstacle machine name args e') :
    e = e' := by
  cases h with
  | missing hnone =>
    cases h' with
    | missing _ => rfl
    | malformed hopen _ => rw [open?_eq_none_iff.2 hnone] at hopen; cases hopen
    | hindered hcontents _ _ => rw [hnone] at hcontents; cases hcontents
  | malformed hopen hrefused =>
    cases h' with
    | missing hnone => rw [open?_eq_none_iff.2 hnone] at hopen; cases hopen
    | malformed hopen' hrefused' =>
      rw [hopen] at hopen'
      cases hopen'
      rw [hrefused] at hrefused'
      cases hrefused'
      rfl
    | hindered hcontents hdeclares _ => exact absurd hrefused (not_malformed hcontents hdeclares hopen)
  | hindered hcontents hdeclares hhindered =>
    cases h' with
    | missing hnone => rw [hnone] at hcontents; cases hcontents
    | malformed hopen hrefused => exact absurd hrefused (not_malformed hcontents hdeclares hopen)
    | hindered hcontents' hdeclares' hhindered' =>
      rw [hcontents] at hcontents'
      cases hcontents'
      obtain ⟨-, rfl⟩ := hdeclares.unique hdeclares'
      exact hhindered.unique hhindered'

/-- Nothing stands in the way of a load. -/
def Loadable (machine : Machine) (name : String) (args : List String) : Prop :=
  ∃ data entry sections, machine.devices.files.contents? name = some data ∧
    Image.Declares data entry sections ∧
    ∀ e, ¬ Hindrance machine.pool.available machine.config.stackPages args sections e

theorem Loadable.unhindered (h : Loadable machine name args) :
    ¬ Obstacle machine name args e := by
  obtain ⟨data, entry, sections, hcontents, hdeclares, hnone⟩ := h
  intro hobstacle
  cases hobstacle with
  | missing hmissing =>
    rw [hcontents] at hmissing
    cases hmissing
  | malformed hopen hrefused => exact not_malformed hcontents hdeclares hopen hrefused
  | hindered hcontents' hdeclares' hhindered =>
    rw [hcontents] at hcontents'
    cases hcontents'
    obtain ⟨-, rfl⟩ := hdeclares.unique hdeclares'
    exact hnone _ hhindered

end Loader

end PagedKernel

import PagedKernel.Loader
import PagedKernel.Proofs.Image
import PagedKernel.Proofs.Memory.Pages

/-!
# Filling pages from an image

Sections without gaps between them fill the first pages of the table one after another. Which frame
a page has does not matter, as long as no two pages share one.
-/

namespace PagedKernel

namespace Memory

variable {m : Memory} {gs : List Nat} {fs fs' : List Frame} {g i : Nat}

def fill : Memory → List Nat → List Frame → Memory
  | m, g :: gs, f :: fs => (m.setFrame g f).fill gs fs
  | m, [], _ => m
  | m, _ :: _, [] => m

@[simp] theorem fill_nil (m : Memory) (gs : List Nat) : m.fill gs [] = m := by
  cases gs <;> rfl

@[simp] theorem size_fill (m : Memory) (gs : List Nat) (fs : List Frame) :
    (m.fill gs fs).size = m.size := by
  induction fs generalizing m gs with
  | nil => rw [fill_nil]
  | cons f fs ih =>
    cases gs with
    | nil => rfl
    | cons g gs => rw [fill, ih, size_setFrame]

private theorem fill_append (m : Memory) (gs : List Nat) (fs fs' : List Frame) :
    m.fill gs (fs ++ fs') = (m.fill gs fs).fill (gs.drop fs.length) fs' := by
  induction fs generalizing m gs with
  | nil => rw [fill_nil]; rfl
  | cons f fs ih =>
    cases gs with
    | nil => cases fs' <;> rfl
    | cons g gs => exact ih (m.setFrame g f) gs

theorem frame?_fill_of_notMem (h : g ∉ gs) : (m.fill gs fs).frame? g = m.frame? g := by
  induction fs generalizing m gs with
  | nil => rw [fill_nil]
  | cons f fs ih =>
    cases gs with
    | nil => rfl
    | cons k gs =>
      have hne : g ≠ k := List.ne_of_not_mem_cons h
      have hrest : g ∉ gs := List.not_mem_of_not_mem_cons h
      rw [fill, ih hrest, frame?_setFrame_of_ne _ _ (Ne.symm hne)]

theorem frame?_fill (hn : gs.Nodup) (hg : gs[i]? = some g) (hs : g < m.size) :
    (m.fill gs fs).frame? g = (fs[i]?).or (m.frame? g) := by
  induction fs generalizing m gs i with
  | nil => rw [fill_nil]; rfl
  | cons f fs ih =>
    cases gs with
    | nil => cases hg
    | cons k gs =>
      obtain ⟨hk, hrest⟩ := List.nodup_cons.1 hn
      rw [fill]
      cases i with
      | zero =>
        cases hg
        rw [frame?_fill_of_notMem hk, frame?_setFrame_self _ _ hs]
        rfl
      | succ i =>
        have hmem : g ∈ gs := List.mem_iff_getElem?.2 ⟨i, hg⟩
        have hne : k ≠ g := fun heq => hk (heq ▸ hmem)
        rw [ih hrest hg (by rwa [size_setFrame]), frame?_setFrame_of_ne _ _ hne]
        rfl

end Memory

def Section.allPages (data : Bytes) (sections : List Section) : List Frame :=
  sections.flatMap fun s => (List.range s.pages).map (s.page data)

theorem Section.misplaced?_cons {first : Nat} {s : Section} {rest : List Section}
    (h : Section.misplaced? first (s :: rest) = none) :
    s.firstPage = first ∧ Section.misplaced? (first + s.pages) rest = none := by
  rw [misplaced?] at h
  split at h
  · next hfirst => exact ⟨hfirst, h⟩
  · cases h

theorem Section.getElem?_flatMap {α : Type} {first page : Nat} {sections : List Section}
    {s : Section} {g : Section → List α} (hg : ∀ s, (g s).length = s.pages)
    (h : Section.misplaced? first sections = none) (hs : s ∈ sections) (hp : page < s.pages) :
    first ≤ s.firstPage ∧ s.firstPage + s.pages ≤ first + Section.totalPages sections ∧
      (sections.flatMap g)[s.firstPage - first + page]? = (g s)[page]? := by
  induction sections generalizing first with
  | nil => cases hs
  | cons s' rest ih =>
    obtain ⟨hfirst, hrest⟩ := misplaced?_cons h
    have htotal : totalPages (s' :: rest) = s'.pages + totalPages rest := rfl
    have hlength := hg s'
    rw [List.flatMap_cons]
    rcases List.mem_cons.1 hs with rfl | hs
    · refine ⟨Nat.le_of_eq hfirst.symm, by omega, ?_⟩
      rw [hfirst, Nat.sub_self, Nat.zero_add, List.getElem?_append_left (hlength.symm ▸ hp)]
    · obtain ⟨hle, hend, hget⟩ := ih hrest hs
      have hplace : s.firstPage - first + page - s'.pages =
          s.firstPage - (first + s'.pages) + page := by omega
      refine ⟨by omega, by omega, ?_⟩
      rw [List.getElem?_append_right (by omega), hlength, hplace, hget]

theorem Section.length_flatMap {α : Type} {sections : List Section} {g : Section → List α}
    (hg : ∀ s, (g s).length = s.pages) :
    (sections.flatMap g).length = Section.totalPages sections := by
  induction sections with
  | nil => rfl
  | cons s rest ih =>
    rw [List.flatMap_cons, List.length_append, ih, hg]
    rfl

def AddressSpace.fill (s : AddressSpace) (first : Nat) (fs : List Frame) : AddressSpace :=
  { s with machine.memory := s.machine.memory.fill (s.table.mapped.drop first) fs }

private theorem AddressSpace.fill_nil (s : AddressSpace) (first : Nat) : s.fill first [] = s := by
  rw [fill, Memory.fill_nil]

private theorem AddressSpace.fill_fill (s : AddressSpace) (first : Nat) (fs fs' : List Frame) :
    (s.fill first fs).fill (first + fs.length) fs' = s.fill first (fs ++ fs') := by
  rw [fill, fill, fill, Memory.fill_append, List.drop_drop]

def AddressSpace.withLog (s : AddressSpace) (log : List Event) : AddressSpace :=
  { s with machine.log := log }

namespace Loader

variable {s : AddressSpace} {image : Image} {file : OpenFile} {data : Bytes} {sec : Section}
variable {index first : Nat} {rest : List Section}

section

variable (hfile : image.file = some file) (hshows : file.Shows s.machine.devices data)
variable (hf : UserMemory.Framed ⟨s.table, s.machine.memory⟩)

include hfile hshows hf

/-- Pages of a section that have entries are filled one after another. -/
theorem loadPages_eq (hs : image.sections[index]? = some sec)
    (hin : sec.kind.initialized = true → sec.offset + sec.size ≤ data.length) (page count : Nat)
    (hp : page + count ≤ sec.pages) (ht : sec.firstPage + page + count ≤ s.table.length) :
    loadPages image index sec page count s =
      .ok image (s.fill (sec.firstPage + page) ((List.range' page count).map (sec.page data))) := by
  induction count generalizing s page with
  | zero =>
    rw [List.range'_zero, List.map_nil, AddressSpace.fill_nil]
    rfl
  | succ count ih =>
    have hlt : sec.firstPage + page < s.table.entries.length := by
      have hlength : s.table.length = s.table.entries.length := rfl
      omega
    obtain ⟨entry, hentry⟩ : ∃ e, s.table.entries[sec.firstPage + page]? = some e :=
      ⟨_, List.getElem?_eq_getElem hlt⟩
    have hframe : entry.frame < s.machine.memory.size := hf.entry hentry
    have hload : Image.loadPage s.machine.devices index page image =
        .ok (sec.page data page) image :=
      Image.loadPage_eq hfile hshows hs (by omega) hin
    have hmapped : s.table.mapped[sec.firstPage + page]? = some entry.frame := by
      rw [PageTable.mapped, List.getElem?_map, hentry]
      rfl
    let s' := s.fill (sec.firstPage + page) [sec.page data page]
    have hset : s' = { s with machine.memory :=
        s.machine.memory.setFrame entry.frame (sec.page data page) } := by
      obtain ⟨hl, hget⟩ := List.getElem?_eq_some_iff.1 hmapped
      simp only [s', AddressSpace.fill, List.drop_eq_getElem_cons hl, hget, Memory.fill,
        Memory.fill_nil]
    have hf' : UserMemory.Framed ⟨s'.table, s'.machine.memory⟩ :=
      hf.congr rfl (Memory.size_fill ..)
    have hrest := ih (s := s') hshows hf' (page + 1) (by omega) (by
      have hlength : s'.table.length = s.table.length := rfl
      omega)
    apply Ensures.eq_ok
    rw [loadPages, ensures_bind, ensures_get]
    simp only [hentry, if_neg (Nat.not_le.2 hframe), hload]
    rw [ensures_bind, ensures_set, ← hset, ensures_of_ok hrest]
    refine ⟨rfl, ?_⟩
    rw [List.range'_succ, List.map_cons, ← List.singleton_append, ← AddressSpace.fill_fill,
      List.length_singleton, Nat.add_assoc]

/-- Sections without gaps fill all pages from the first on. -/
theorem loadSections_eq (hs : image.sections.drop index = rest)
    (hin : ∀ sec ∈ rest, sec.kind.initialized = true → sec.offset + sec.size ≤ data.length)
    (hplaced : Section.misplaced? first rest = none)
    (ht : first + Section.totalPages rest ≤ s.table.length) :
    ∃ log, loadSections image index rest s =
      .ok image ((s.fill first (Section.allPages data rest)).withLog log) := by
  induction rest generalizing s index first with
  | nil =>
    refine ⟨s.machine.log, ?_⟩
    rw [Section.allPages, List.flatMap_nil, AddressSpace.fill_nil]
    rfl
  | cons sec rest ih =>
    obtain ⟨rfl, hplaced'⟩ := Section.misplaced?_cons hplaced
    have htotal : Section.totalPages (sec :: rest) = sec.pages + Section.totalPages rest := rfl
    have hget : image.sections[index]? = some sec := by
      rw [← List.head?_drop, hs]
      rfl
    have hdrop : image.sections.drop (index + 1) = rest := by
      rw [← List.drop_drop, hs]
      rfl
    have hpages := loadPages_eq hfile hshows hf hget (hin sec (List.mem_cons_self ..)) 0 sec.pages
      (by omega) (by omega)
    rw [Nat.add_zero, ← List.range_eq_range'] at hpages
    let s₁ := s.fill sec.firstPage ((List.range sec.pages).map (sec.page data))
    let s₂ : AddressSpace := s₁.withLog (.sectionLoaded sec :: s.machine.log)
    have hf₂ : UserMemory.Framed ⟨s₂.table, s₂.machine.memory⟩ :=
      hf.congr rfl (Memory.size_fill ..)
    obtain ⟨log, hrest⟩ := ih (s := s₂) hshows hf₂ hdrop
      (fun sec h => hin sec (List.mem_cons_of_mem _ h)) hplaced' (by
        have hlength : s₂.table.length = s.table.length := rfl
        omega)
    refine ⟨log, ?_⟩
    apply Ensures.eq_ok
    rw [loadSections, ensures_bind, ensures_of_ok hpages, ensures_bind, AddressSpace.report,
      ensures_modify]
    change Ensures (loadSections image (index + 1) rest) s₂ _ _
    rw [ensures_of_ok hrest]
    refine ⟨rfl, ?_⟩
    have hlength : ((List.range sec.pages).map (sec.page data)).length = sec.pages := by
      rw [List.length_map, List.length_range]
    have hall : Section.allPages data (sec :: rest) =
        (List.range sec.pages).map (sec.page data) ++ Section.allPages data rest := rfl
    rw [hall, ← AddressSpace.fill_fill, hlength]
    rfl

end

end Loader

end PagedKernel

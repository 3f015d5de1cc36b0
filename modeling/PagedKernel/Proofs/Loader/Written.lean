import PagedKernel.Proofs.Loader.Load
import PagedKernel.Proofs.Memory.Passages

/-!
# What the loader does to the pages of a program

The loader maps the pages, copies the sections into their frames, and writes the arguments. The
sections go into the frames directly, and no page is marked by it; the arguments are written through
the pages, as everything else is from then on.
-/

namespace PagedKernel

def PageTable.Unused (t : PageTable) : Prop :=
  ∀ e ∈ t.entries, e.flags.used = false ∧ e.flags.dirty = false

namespace Loader

open UserMemory

variable {machine machine' : Machine} {name : String} {args : List String} {s s' : AddressSpace}

/-- The address space that a load has got to when the arguments are about to be written: the pages of
the program have been mapped, and its sections have been copied. -/
inductive Filled (machine : Machine) (name : String) (args : List String) : AddressSpace → Prop
  | intro {image image' : Image} {s₀ s₁ s₂ : AddressSpace} {count : Nat}
      (hopen : openImage name { machine } = .ok image s₀)
      (hmap : AddressSpace.map (regions image.sections s₀.machine.config.stackPages) s₀ =
        .ok count s₁)
      (hsections : loadSections image 0 image.sections s₁ = .ok image' s₂) :
      Filled machine name args s₂

def Copied (s s' : AddressSpace) : Prop :=
  s'.table = s.table ∧ s'.machine.memory.size = s.machine.memory.size

private theorem ensures_loadPages (image : Image) (index : Nat) (sec : Section) (page count : Nat)
    (s : AddressSpace) : Ensures (loadPages image index sec page count) s
    (fun _ s' => Copied s s') fun _ _ => True := by
  induction count generalizing image page s with
  | zero => exact ⟨rfl, rfl⟩
  | succ count ih =>
    rw [loadPages, ensures_bind, ensures_get]
    cases s.table.entries[sec.firstPage + page]? with
    | none => trivial
    | some entry =>
      dsimp only
      split
      · trivial
      · split
        · trivial
        · rw [ensures_bind, ensures_set]
          apply (ih _ _ _).mono
          · rintro _ s' ⟨htable, hsize⟩
            exact ⟨htable, hsize.trans (Memory.size_setFrame ..)⟩
          · exact fun _ _ h => h

theorem ensures_loadSections (image : Image) (index : Nat) (sections : List Section)
    (s : AddressSpace) : Ensures (loadSections image index sections) s
    (fun _ s' => Copied s s') fun _ _ => True := by
  induction sections generalizing image index s with
  | nil => exact ⟨rfl, rfl⟩
  | cons sec rest ih =>
    rw [loadSections]
    apply (ensures_loadPages image index sec 0 sec.pages s).bind
    · rintro image' s₁ ⟨htable, hsize⟩
      rw [ensures_bind, AddressSpace.report, ensures_modify]
      apply (ih _ _ _).mono
      · rintro _ s' ⟨htable', hsize'⟩
        exact ⟨htable'.trans htable, hsize'.trans hsize⟩
      · exact fun _ _ h => h
    · exact fun _ _ h => h

/-- Neither mapping nor copying sections marks a page, and every page has its frame. -/
theorem Filled.fresh (h : Filled machine name args s) :
    s.table.Unused ∧ UserMemory.Framed ⟨s.table, s.machine.memory⟩ := by
  obtain ⟨hopen, hmap, hsections⟩ := h
  rename_i image image' s₀ s₁ count
  obtain ⟨-, hempty, -⟩ := (ensures_openImage args).of_ok hopen
  obtain ⟨-, frames, pool, -, hframes, rfl⟩ := AddressSpace.ensures_map.of_ok hmap
  obtain ⟨htable, hsize⟩ := (ensures_loadSections image 0 image.sections _).of_ok hsections
  simp only [AddressSpace.withPages, hempty, Memory.size_clear] at htable hsize
  constructor
  · intro e he
    obtain ⟨i, hi⟩ := List.mem_iff_getElem?.1 he
    rw [htable, PageTable.getElem?_extend] at hi
    split at hi
    · cases hi
    · obtain ⟨page, -, rfl⟩ := Option.map_eq_some_iff.1 hi
      exact ⟨rfl, rfl⟩
  · intro f hf
    simp only [htable, PageTable.mapped_extend] at hf
    obtain ⟨page, hpage, rfl⟩ := List.mem_map.1 hf
    have hlt := hframes page.1 (List.of_mem_zip hpage).1
    rwa [← hsize] at hlt

private theorem ensures_loadImage_filled {image : Image} {s₀ : AddressSpace}
    (hopen : openImage name { machine } = .ok image s₀) (args : List String) :
    Ensures (loadImage image args) s₀
      (fun _ s' => ∃ s argv va, Filled machine name args s ∧
        (ArgumentArea.start argv args.length).finish args ⟨s.table, s.machine.memory⟩ =
          .ok va ⟨s'.table, s'.machine.memory⟩)
      fun _ _ => True := by
  unfold loadImage
  cases Section.misplaced? 0 image.sections with
  | some sec => trivial
  | none =>
    simp only
    rw [ensures_bind, ensures_get]
    split
    · trivial
    · rw [ensures_bind, ensures_mapStop]
      apply ensures_intro
      · intro count s₁ hmap
        rw [ensures_bind]
        apply ensures_intro
        · intro image' s₂ hsections
          rw [ensures_bind]
          apply ensures_orRefuse
          · intro argv _
            rw [ensures_bind, ensures_mapStop, AddressSpace.onMemory, ensures_zoom]
            apply ensures_intro
            · intro va m hfinish
              exact ⟨s₂, argv, va, .intro hopen hmap hsections, hfinish⟩
            · exact fun _ _ _ => trivial
          · exact fun _ => trivial
        · exact fun _ _ _ => trivial
      · exact fun _ _ _ => trivial

private theorem ensures_fill_filled (machine : Machine) (name : String) (args : List String) :
    Ensures (fill name args) { machine }
      (fun _ s' => ∃ s argv va, Filled machine name args s ∧
        (ArgumentArea.start argv args.length).finish args ⟨s.table, s.machine.memory⟩ =
          .ok va ⟨s'.table, s'.machine.memory⟩)
      fun _ _ => True := by
  have hopened : Ensures (openImage name) { machine }
      (fun image s₀ => openImage name { machine } = .ok image s₀) fun _ _ => True :=
    ensures_intro (fun _ _ h => h) fun _ _ _ => trivial
  unfold fill
  refine hopened.bind ?_ fun _ _ h => h
  intro image s₀ hopen
  have himage := ensures_loadImage_filled hopen args
  unfold Ensures
  rcases hload : loadImage image args s₀ with ⟨r, s₁⟩ | ⟨stop, s₁⟩
  · obtain ⟨s, argv, va, hwritten⟩ := himage.of_ok hload
    simp only [hload]
    exact ⟨s, argv, va, hwritten⟩
  · simp only [hload]
    trivial

/-- A load that succeeds: from the pages with the sections in them, the passages of the arguments lead
to the pages of the loaded program. -/
inductive Loads (machine : Machine) (name : String) (args : List String) :
    UserMemory → List Passage → UserMemory → Prop
  | intro {table : PageTable} {registers : Registers} {machine' : Machine} {s : AddressSpace}
      {argv va : VirtualAddress} {log : List Passage}
      (hload : load name args machine = .ok (table, registers) machine')
      (hfilled : Filled machine name args s)
      (hmakes : Makes ((ArgumentArea.start argv args.length).finish args)
        ⟨s.table, s.machine.memory⟩ log)
      (hfinish : (ArgumentArea.start argv args.length).finish args ⟨s.table, s.machine.memory⟩ =
        .ok va ⟨table, machine'.memory⟩) :
      Loads machine name args ⟨s.table, s.machine.memory⟩ log ⟨table, machine'.memory⟩

theorem exists_loads {table : PageTable} {r : Registers}
    (h : load name args machine = .ok (table, r) machine') :
    ∃ mapped log, Loads machine name args mapped log ⟨table, machine'.memory⟩ := by
  have hwritten : ∃ s argv va, Filled machine name args s ∧
      (ArgumentArea.start argv args.length).finish args ⟨s.table, s.machine.memory⟩ =
        .ok va ⟨table, machine'.memory⟩ := by
    have hsplit := h
    unfold load at hsplit
    rcases hfill : fill name args { machine } with ⟨r', s'⟩ | ⟨stop, s'⟩
    · rw [hfill] at hsplit
      cases hsplit
      exact (ensures_fill_filled machine name args).of_ok hfill
    · rw [hfill] at hsplit
      simp only at hsplit
      split at hsplit <;> cases hsplit
  obtain ⟨s, argv, va, hfilled, hfinish⟩ := hwritten
  obtain ⟨log, hmakes⟩ :=
    ArgumentArea.traced_finish (.start argv args.length) args ⟨s.table, s.machine.memory⟩
  exact ⟨_, log, .intro h hfilled hmakes hfinish⟩

/-- Only the arguments are written through the pages, which no one had used before. -/
theorem Loads.passed {mapped loaded : UserMemory} {log : List Passage}
    (h : Loads machine name args mapped log loaded) :
    mapped.table.Unused ∧ UserMemory.Passed log mapped loaded := by
  obtain ⟨-, hfilled, hmakes, hfinish⟩ := h
  obtain ⟨hunused, hframed⟩ := hfilled.fresh
  have hpassed := (hmakes.passed hframed).1
  rw [reached_of_ok hfinish] at hpassed
  exact ⟨hunused, hpassed⟩

end Loader

end PagedKernel

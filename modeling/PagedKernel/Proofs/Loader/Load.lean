import PagedKernel.Image.Builder
import PagedKernel.Proofs.Loader.Loaded
import PagedKernel.Proofs.Loader.Obstacle

/-!
# The run of the loader

The loader takes its frames in one go and touches no others. If it succeeds the program is loaded;
if it fails it is refused, and all that was taken goes back.
-/

namespace PagedKernel.Loader

variable {machine : Machine} {s : AddressSpace} {image : Image} {file : OpenFile} {d : Devices}
variable {data : Bytes} {name : String} {args : List String} {n : Nat} {held : List Nat}

/-- The queue is that of a pool in order, and the memory has all its frames. -/
def Orderly (machine : Machine) : Prop :=
  ∃ n held, machine.pool.Ledger n held ∧ n ≤ machine.memory.size

private theorem forM_report (l : List Section) (f : Section → Event) :
    ∃ log, (l.forM (fun sec => AddressSpace.report (f sec)) : LoadM PUnit) s =
      .ok ⟨⟩ (s.withLog log) := by
  induction l generalizing s with
  | nil => exact ⟨s.machine.log, rfl⟩
  | cons sec rest ih =>
    obtain ⟨log, hrest⟩ := ih (s := s.withLog (f sec :: s.machine.log))
    exact ⟨log, hrest⟩

/-- An image is opened as its file declares, or there is an obstacle. Nothing but devices and the log
changes, and the devices are as they were once the file is closed. -/
theorem ensures_openImage (args : List String) : Ensures (openImage name) { machine }
    (fun image s => Mapped machine s ∧ s.table = {} ∧ s.machine.pool = machine.pool ∧
      s.machine.memory = machine.memory ∧
      ∃ file data, image.file = some file ∧ file.Shows s.machine.devices data ∧
        (file.close s.machine.devices).2 = machine.devices ∧
        machine.devices.files.contents? name = some data ∧
        Image.Declares data image.entry image.sections)
    (fun stop s => (∃ e, stop = .refused e ∧ Obstacle machine name args e) ∧ Mapped machine s ∧
      s.machine.devices = machine.devices) := by
  have hstart := Mapped.start machine
  unfold openImage
  rw [ensures_bind, ensures_get]
  simp only
  cases hopen : machine.devices.open? name false with
  | none => exact ⟨⟨_, rfl, .missing (open?_eq_none_iff.1 hopen)⟩, hstart.congr rfl rfl, rfl⟩
  | some opened =>
    obtain ⟨file, devices⟩ := opened
    obtain ⟨data, hcontents, hshows, hclose⟩ := shows_of_open? hopen
    obtain ⟨log, hreport⟩ := forM_report (Image.ofFile file devices).accepted
      (fun sec => .sectionAccepted file.name sec)
      (s := { machine := { machine with devices := (Image.ofFile file devices).devices } })
    simp only
    rw [ensures_bind, ensures_modify, ensures_bind]
    simp only
    rw [ensures_of_ok hreport]
    rcases Image.ofFile_cases hshows with ⟨e, hout, hdevices⟩ | ⟨entry, sections, hout, hdeclares⟩
    · have hback : (Image.ofFile file devices).devices = machine.devices := by rw [hdevices, hclose]
      have hobstacle : Obstacle machine name args (.malformed e) := .malformed hopen hout
      rw [hout]
      exact ⟨⟨_, rfl, hobstacle⟩, hstart.congr rfl rfl, hback⟩
    · rw [hout]
      exact ⟨hstart.congr rfl rfl, rfl, rfl, rfl, file, data, rfl, hshows, hclose, hcontents,
        hdeclares⟩

private theorem stated_of_declares {entry : Nat} {sections : List Section}
    (h : Image.Declares data entry sections) :
    ∀ sec ∈ sections, ∃ place, sec.Stated data place := by
  intro sec hsec
  obtain ⟨i, hi⟩ := List.mem_iff_getElem?.1 hsec
  exact ⟨_, h.stated i sec hi⟩

section

variable {frames : List Nat} {pool : FramePool} {sections : List Section} {stackPages : Nat}

/-- An address space with the pages of a program, none of which has been filled. -/
structure Fresh (machine : Machine) (s : AddressSpace) (frames : List Nat) (sections : List Section)
    (stackPages : Nat) : Prop extends Mapped machine s where
  length : frames.length = Section.totalPages sections + stackPages + 1
  table : s.table = freshTable frames sections stackPages
  memory : s.machine.memory = machine.memory.clear frames
  held : ∀ f ∈ frames, f < machine.memory.size

theorem Mapped.fresh (hs : Mapped machine s) (hempty : s.table = {})
    (hmemory : s.machine.memory = machine.memory)
    (htaken : machine.pool.acquireMany? (Section.totalPages sections + stackPages + 1) =
      some (frames, pool)) (hheld : ∀ f ∈ frames, f < machine.memory.size) :
    Fresh machine ({ s with machine.pool := pool }.withPages frames
      (Region.protections (regions sections stackPages))) frames sections stackPages := by
  have hlength := (FramePool.available_of_acquireMany? htaken).1
  have hmapped : (s.table.extend (frames.zip (Region.protections
      (regions sections stackPages)))).mapped = frames := by
    rw [hempty]
    exact mapped_freshTable hlength
  refine ⟨⟨hs.config, hs.power, ⟨Section.totalPages sections + stackPages + 1, ?_⟩,
    hs.numbered.extend _, hs.valid.extend _, ?_, ?_⟩, hlength, ?_, ?_, hheld⟩
  · simp only [AddressSpace.withPages, hmapped]
    exact htaken
  · simp only [AddressSpace.withPages, Memory.size_clear, hmemory]
  · intro f hf
    simp only [AddressSpace.withPages, hmapped, hmemory] at hf ⊢
    exact Memory.frame?_clear_of_notMem _ hf
  · simp only [AddressSpace.withPages, hempty, freshTable]
  · simp only [AddressSpace.withPages, hmemory]

private theorem Fresh.mapped_eq (h : Fresh machine s frames sections stackPages) :
    s.table.mapped = frames := by
  rw [h.table, mapped_freshTable h.length]

private theorem Fresh.framed (h : Fresh machine s frames sections stackPages) :
    UserMemory.Framed ⟨s.table, s.machine.memory⟩ := by
  intro f hf
  rw [h.memory, Memory.size_clear]
  exact h.held f (h.mapped_eq ▸ hf)

private theorem Fresh.writable {argv : VirtualAddress} (h : Fresh machine s frames sections stackPages)
    (hargv : argv.toNat = (Section.totalPages sections + stackPages) * pageSize) :
    s.table.Writable argv.toNat pageSize := by
  intro i hi
  have hlimit := argv.le_limit
  have hpage : (argv.toNat + i) / pageSize = Section.totalPages sections + stackPages :=
    div_pageSize_eq_iff.2 (by omega)
  obtain ⟨f, readOnly, -, hprotection, hentry⟩ :=
    getElem?_freshTable h.length (Nat.lt_succ_self (Section.totalPages sections + stackPages))
  rw [getElem?_protections_stack (Nat.le_add_right ..) (Nat.le_refl _)] at hprotection
  cases hprotection
  rw [h.table, PageTable.permits_iff, hpage]
  refine ⟨?_, _, hentry, rfl, rfl⟩
  simp only [pageSize, addressLimit] at *
  omega

private theorem Fresh.ensures_arguments {entry : Nat} {argv : VirtualAddress} {log : List Event}
    (h : Fresh machine s frames sections stackPages)
    (hplaced : Section.misplaced? 0 sections = none)
    (hstated : ∀ sec ∈ sections, ∃ place, sec.Stated data place)
    (hsize : ArgumentArea.sizeOf args ≤ pageSize)
    (hargv : argv.toNat = (Section.totalPages sections + stackPages) * pageSize) :
    Ensures (AddressSpace.onMemory ((ArgumentArea.start argv args.length).finish args))
      ((s.fill 0 (Section.allPages data sections)).withLog log)
      (fun argv' s' => s'.machine.devices = s.machine.devices ∧ Mapped machine s' ∧
        (machine.pool.queue.Nodup →
          Loaded data entry sections stackPages args ⟨s'.table, s'.machine.memory⟩
            (initialRegisters entry ((Section.totalPages sections + stackPages) * pageSize)
              args.length argv'.toNat)))
      (fun _ _ => False) := by
  have hfilled : Mapped machine ((s.fill 0 (Section.allPages data sections)).withLog log) :=
    (h.toMapped.fill _).congr rfl rfl
  have hframed : UserMemory.Framed ⟨s.table, s.machine.memory.fill (s.table.mapped.drop 0)
      (Section.allPages data sections)⟩ := h.framed.congr rfl (Memory.size_fill ..)
  rw [AddressSpace.onMemory, ensures_zoom]
  apply (ArgumentArea.ensures_finish hframed argv args.length args).mono
  · rintro _ m ⟨rfl, -, hlaid⟩
    refine ⟨rfl, hfilled.confined hlaid.confined, ?_⟩
    intro hnodup
    have hframes : frames.Nodup := by
      rw [← h.mapped_eq]
      exact h.toMapped.nodup hnodup
    rw [h.mapped_eq, List.drop_zero, h.table, h.memory] at hlaid
    exact loaded_of_laid hframes h.length h.held hplaced hstated hargv hsize hlaid
  · rintro stop m ⟨-, -, hfits⟩
    exact hfits (ArgumentArea.fits_of_page hsize (h.writable hargv))

private theorem Orderly.lt_of_mem {f count : Nat} (h : Orderly machine)
    (htaken : machine.pool.acquireMany? count = some (frames, pool)) (hf : f ∈ frames) :
    f < pool.capacity ∧ f < machine.memory.size := by
  obtain ⟨n, held, hl, hn⟩ := h
  have hledger := (hl.acquireMany htaken).1
  have hlt : f < n := hledger.held_lt (List.mem_append_left _ hf)
  have hcapacity : pool.capacity = n := hledger.capacity
  omega

/-- The pages for a program are mapped, or too few frames are free. Anything else is a fault of a
machine that is not in order. -/
theorem Mapped.ensures_regions (hs : Mapped machine s) (hempty : s.table = {})
    (hpool : s.machine.pool = machine.pool) (hmemory : s.machine.memory = machine.memory) :
    Ensures (AddressSpace.map (regions sections stackPages)) s
      (fun _ s' => s'.machine.devices = s.machine.devices ∧
        pagesNeeded sections stackPages ≤ machine.pool.available ∧
        ∃ frames, Fresh machine s' frames sections stackPages)
      (fun stop s' => s'.machine.devices = s.machine.devices ∧
        (stop = .refused .noMemory ∧ machine.pool.available < pagesNeeded sections stackPages ∧
          Mapped machine s' ∨ ¬ Orderly machine ∧ ∃ f, stop = .fault f)) := by
  refine AddressSpace.ensures_map.mono ?_ ?_
  · rintro - s' ⟨-, frames, pool, htaken, hheld, rfl⟩
    rw [hpool, total_regions] at htaken
    rw [hmemory] at hheld
    have havailable := (FramePool.available_of_acquireMany? htaken).2
    exact ⟨rfl, havailable ▸ Nat.le_add_right .., frames, hs.fresh hempty hmemory htaken hheld⟩
  · rintro stop s' (⟨e, hshort, rfl, rfl⟩ | ⟨frames, pool, count, f, htaken, -, rfl, hf, hwhy⟩)
    · rw [hpool, total_regions] at hshort
      exact ⟨rfl, .inl ⟨rfl, hshort, hs.congr rfl rfl⟩⟩
    · refine ⟨rfl, .inr ⟨?_, ?_⟩⟩
      · intro horderly
        rw [hpool] at htaken
        rw [hmemory] at hwhy
        obtain ⟨hcapacity, hsize⟩ := horderly.lt_of_mem htaken hf
        omega
      · rcases hwhy with ⟨-, rfl⟩ | ⟨-, rfl⟩
        · exact ⟨_, rfl⟩
        · exact ⟨_, rfl⟩

private theorem Fresh.loadSections_eq (h : Fresh machine s frames image.sections stackPages)
    (hfile : image.file = some file) (hshows : file.Shows s.machine.devices data)
    (hplaced : Section.misplaced? 0 image.sections = none)
    (hstated : ∀ sec ∈ image.sections, ∃ place, sec.Stated data place) :
    ∃ log, loadSections image 0 image.sections s =
      .ok image ((s.fill 0 (Section.allPages data image.sections)).withLog log) := by
  have hinside : ∀ sec ∈ image.sections, sec.kind.initialized = true →
      sec.offset + sec.size ≤ data.length :=
    fun sec hsec => (hstated sec hsec).elim fun _ h => h.inside
  have hpages : 0 + Section.totalPages image.sections ≤ s.table.length := by
    rw [h.table, length_freshTable h.length]
    omega
  exact Loader.loadSections_eq hfile hshows h.framed List.drop_zero hinside hplaced hpages

end

/-- The address space is filled from the image, or something hinders it. -/
theorem ensures_loadImage (args : List String) (hs : Mapped machine s) (hempty : s.table = {})
    (hpool : s.machine.pool = machine.pool) (hmemory : s.machine.memory = machine.memory)
    (hfile : image.file = some file) (hshows : file.Shows s.machine.devices data)
    (hdeclares : Image.Declares data image.entry image.sections) :
    Ensures (loadImage image args) s
      (fun r s' => s'.machine.devices = s.machine.devices ∧
        (∀ e, ¬ Hindrance machine.pool.available machine.config.stackPages args image.sections e) ∧
        Mapped machine s' ∧ (machine.pool.queue.Nodup →
          Loaded data image.entry image.sections machine.config.stackPages args
            ⟨s'.table, s'.machine.memory⟩ r))
      (fun stop s' => s'.machine.devices = s.machine.devices ∧
        ((∃ e, stop = .refused e ∧
          Hindrance machine.pool.available machine.config.stackPages args image.sections e) ∧
        Mapped machine s' ∨ ¬ Orderly machine ∧ ∃ f, stop = .fault f)) := by
  have hstated := stated_of_declares hdeclares
  unfold loadImage
  cases hplaced : Section.misplaced? 0 image.sections with
  | some sec =>
    exact ⟨rfl, .inl ⟨⟨_, rfl, (hindrance_of_misplaced hplaced).2 rfl⟩, hs.congr rfl rfl⟩⟩
  | none =>
    have hhindrance (e : LoadError) : Hindrance machine.pool.available machine.config.stackPages
        args image.sections e ↔ _ := hindrance_of_placed hplaced
    simp only
    rw [ensures_bind, ensures_get, hs.config]
    by_cases hsize : pageSize < ArgumentArea.sizeOf args
    · rw [if_pos hsize]
      exact ⟨rfl, .inl ⟨⟨_, rfl, (hhindrance _).2 (.inl ⟨hsize, rfl⟩)⟩, hs.congr rfl rfl⟩⟩
    have hfits := Nat.le_of_not_lt hsize
    rw [if_neg hsize, ensures_bind, ensures_mapStop]
    refine (hs.ensures_regions hempty hpool hmemory).mono ?_ ?_
    · rintro - s₁ ⟨hdevices, havailable, frames, hfresh⟩
      obtain ⟨log, hsections⟩ := hfresh.loadSections_eq hfile (hdevices ▸ hshows) hplaced hstated
      rw [ensures_bind, ensures_of_ok hsections, Nat.add_sub_cancel, ensures_bind]
      cases hargv : VirtualAddress.ofNat? ((Section.totalPages image.sections +
          machine.config.stackPages) * pageSize) with
      | none =>
        have hlimit := VirtualAddress.ofNat?_eq_none_iff.1 hargv
        have hpages : maxPages < pagesNeeded image.sections machine.config.stackPages := by
          simp only [pagesNeeded, maxPages, addressLimit, pageSize] at hlimit ⊢
          omega
        exact ⟨hdevices, .inl ⟨⟨_, rfl, (hhindrance _).2 (.inr ⟨hfits, .inr hpages, rfl⟩)⟩,
          (hfresh.toMapped.fill _).congr rfl rfl⟩⟩
      | some argv =>
        have hplace := VirtualAddress.ofNat?_eq_some_iff.1 hargv
        have hnone : ∀ e, ¬ Hindrance machine.pool.available machine.config.stackPages args
            image.sections e := by
          intro e he
          have hlimit := argv.le_limit
          simp only [hhindrance, pagesNeeded, maxPages, addressLimit, pageSize] at *
          omega
        rw [orRefuse_some, ensures_pure, ensures_bind, ensures_mapStop]
        apply (hfresh.ensures_arguments hplaced hstated hfits hplace).mono
        · rintro argv' s' ⟨hsame, hmapped, hloaded⟩
          exact ⟨hsame.trans hdevices, hnone, hmapped, hloaded⟩
        · rintro stop s' h
          exact h.elim
    · rintro stop s₁ ⟨hdevices, ⟨rfl, hshort, hmapped⟩ | ⟨hbroken, f, rfl⟩⟩
      · exact ⟨hdevices, .inl ⟨⟨_, rfl, (hhindrance _).2 (.inr ⟨hfits, .inl hshort, rfl⟩)⟩, hmapped⟩⟩
      · exact ⟨hdevices, .inr ⟨hbroken, f, rfl⟩⟩

/-- The program is loaded, or there is an obstacle. In any case its file is closed again. -/
theorem ensures_fill (machine : Machine) (name : String) (args : List String) :
    Ensures (fill name args) { machine }
    (fun r s => s.machine.devices = machine.devices ∧ (∀ e, ¬ Obstacle machine name args e) ∧
      Mapped machine s ∧ ∃ data entry sections,
      machine.devices.files.contents? name = some data ∧ Image.Declares data entry sections ∧
      (machine.pool.queue.Nodup → Loaded data entry sections machine.config.stackPages args
        ⟨s.table, s.machine.memory⟩ r))
    (fun stop s => s.machine.devices = machine.devices ∧
      ((∃ e, stop = .refused e ∧ Obstacle machine name args e) ∧ Mapped machine s ∨
        ¬ Orderly machine ∧ ∃ f, stop = .fault f)) := by
  unfold fill
  refine (ensures_openImage args).bind ?_ (fun _ _ h => ⟨h.2.2, Or.inl ⟨h.1, h.2.1⟩⟩)
  rintro image s ⟨hs, hempty, hpool, hmemory, file, data, hfile, hshows, hclose, hcontents, hdeclares⟩
  have hload := ensures_loadImage args hs hempty hpool hmemory hfile hshows hdeclares
  have hclosed : ∀ s' : AddressSpace, s'.machine.devices = s.machine.devices →
      (image.close s'.machine.devices).2 = machine.devices := by
    intro s' hsame
    rw [hsame]
    simp only [Image.close, hfile, hclose]
  rcases hx : loadImage image args s with ⟨r, s'⟩ | ⟨stop, s'⟩
  · obtain ⟨hsame, hnone, hmapped, hloaded⟩ := hload.of_ok hx
    have hobstacle : ∀ e, ¬ Obstacle machine name args e := by
      intro e he
      cases he with
      | missing h => rw [hcontents] at h; cases h
      | malformed hopen hrefused =>
        obtain ⟨data', hdata, hshows', -⟩ := shows_of_open? hopen
        rw [hcontents] at hdata
        cases hdata
        rw [Image.ofFile_of_declares hshows' hdeclares] at hrefused
        cases hrefused
      | hindered hcontents' hdeclares' hhindered =>
        rw [hcontents] at hcontents'
        cases hcontents'
        obtain ⟨-, rfl⟩ := hdeclares.unique hdeclares'
        exact hnone e hhindered
    simp only [Ensures, hx]
    exact ⟨hclosed s' hsame, hobstacle, hmapped.congr rfl rfl, data, image.entry, image.sections,
      hcontents, hdeclares, hloaded⟩
  · obtain ⟨hsame, hwhy⟩ := hload.of_error hx
    simp only [Ensures, hx]
    refine ⟨hclosed s' hsame, hwhy.imp_left ?_⟩
    rintro ⟨⟨e, rfl, hhindered⟩, hmapped⟩
    exact ⟨⟨e, rfl, .hindered hcontents hdeclares hhindered⟩, hmapped.congr rfl rfl⟩

/-- What a machine keeps when a load fails: the devices, every frame is free again, and those that
were not free hold what they held. -/
structure Unloaded (n : Nat) (held : List Nat) (machine machine' : Machine) : Prop where
  config : machine'.config = machine.config
  power : machine'.power = machine.power
  devices : machine'.devices = machine.devices
  ledger : machine'.pool.Ledger n held
  queue : machine'.pool.queue.Perm machine.pool.queue
  size : machine'.memory.size = machine.memory.size
  foreign : ∀ f ∉ machine.pool.queue, machine'.memory.frame? f = machine.memory.frame? f

/-- A load takes pages for a program, or there is an obstacle and nothing has been taken. -/
theorem ensures_load (hl : machine.pool.Ledger n held) (hn : n ≤ machine.memory.size) :
    Ensures (load name args) machine
      (fun p machine' => machine'.devices = machine.devices ∧
        (∀ e, ¬ Obstacle machine name args e) ∧ Mapped machine ⟨machine', p.1⟩ ∧
        ∃ data entry sections, machine.devices.files.contents? name = some data ∧
          Image.Declares data entry sections ∧
          Loaded data entry sections machine.config.stackPages args ⟨p.1, machine'.memory⟩ p.2)
      (fun stop machine' => (∃ e, stop = .refused e ∧ Obstacle machine name args e) ∧
        Unloaded n held machine machine') := by
  have hfill := ensures_fill machine name args
  unfold Ensures load
  rcases hx : fill name args { machine } with ⟨r, s⟩ | ⟨stop, s⟩
  · obtain ⟨hdevices, hnone, hmapped, data, entry, sections, hcontents, hdeclares, hloaded⟩ :=
      hfill.of_ok hx
    exact ⟨hdevices, hnone, hmapped, data, entry, sections, hcontents, hdeclares,
      hloaded (List.nodup_append.1 hl.distinct).1⟩
  · obtain ⟨hdevices, hwhy⟩ := hfill.of_error hx
    obtain ⟨hobstacle, hmapped⟩ := hwhy.resolve_right fun h => h.1 ⟨n, held, hl, hn⟩
    have hledger := hmapped.ledger hl
    have hqueue := hmapped.queue_eq hl
    rw [← hmapped.valid.frames_eq] at hledger hqueue
    obtain ⟨pool, hrelease, hfree, hback⟩ :=
      AddressSpace.release_of_ledger (ε := LoadError) hledger
    simp only [hrelease]
    refine ⟨hobstacle, hmapped.config, hmapped.power, hdevices, hfree, ?_, hmapped.size, ?_⟩
    · rw [hback, ← hqueue]
      exact List.perm_append_comm
    · intro f hf
      refine hmapped.foreign f fun hmem => hf ?_
      rw [← hqueue, hmapped.valid.frames_eq]
      exact List.mem_append_left _ hmem

/-- A load is refused for an obstacle only, whatever the machine. -/
theorem obstacle_of_load {machine' : Machine} {e : LoadError}
    (h : load name args machine = .error (.refused e) machine') : Obstacle machine name args e := by
  have hfill := ensures_fill machine name args
  unfold load at h
  rcases hx : fill name args { machine } with ⟨r, s⟩ | ⟨stop, s⟩
  · rw [hx] at h
    cases h
  · rw [hx] at h
    simp only at h
    rcases hy : (AddressSpace.release s : EStateM.Result (Stop LoadError) _ _) with
      ⟨count, s'⟩ | ⟨stop', s'⟩
    · rw [hy] at h
      cases h
      obtain ⟨-, ⟨⟨e', he, hobstacle⟩, -⟩ | ⟨-, f, hf⟩⟩ := hfill.of_error hx
      · cases he
        exact hobstacle
      · cases hf
    · rw [hy] at h
      cases h
      obtain ⟨f, hf⟩ := AddressSpace.ensures_release_fault.of_error hy
      cases hf

/-- Whenever a load succeeds, there is an image under the name, and the program that it declares is
loaded: with the pages, bytes, marks and registers of a program that is about to start. -/
theorem load_declared (machine machine' : Machine) (name : String) (args : List String)
    (table : PageTable) (r : Registers) (hn : machine.pool.queue.Nodup)
    (h : load name args machine = .ok (table, r) machine') :
    ∃ data entry sections, machine.devices.files.contents? name = some data ∧
      Image.Declares data entry sections ∧
      Loaded data entry sections machine.config.stackPages args ⟨table, machine'.memory⟩ r := by
  have hfill := ensures_fill machine name args
  unfold load at h
  rcases hx : fill name args { machine } with ⟨r', s⟩ | ⟨stop, s⟩
  · rw [hx] at h
    cases h
    obtain ⟨-, -, -, data, entry, sections, hcontents, hdeclares, hloaded⟩ := hfill.of_ok hx
    exact ⟨data, entry, sections, hcontents, hdeclares, hloaded hn⟩
  · rw [hx] at h
    simp only at h
    split at h <;> cases h

def sampleImage : Bytes :=
  ((({ entry := 16 } : ImageBuilder).addSection "code" .text [1, 2, 3, 4]).addBss "zero" 10).build

def sampleMachine : Machine :=
  .build { physPages := 5, stackPages := 1 }
    { files := ({} : FileSystem).insert "a.coff" sampleImage }

theorem load_declared_sample : ∃ table r machine',
    load "a.coff" ["a", "bc"] sampleMachine = .ok (table, r) machine' ∧
    sampleMachine.pool.queue.Nodup ∧
    ∃ data entry sections, sampleMachine.devices.files.contents? "a.coff" = some data ∧
      Image.Declares data entry sections ∧
      Loaded data entry sections 1 ["a", "bc"] ⟨table, machine'.memory⟩ r := by
  have hok : (match load "a.coff" ["a", "bc"] sampleMachine with
      | .ok _ _ => true
      | .error _ _ => false) = true := by decide +kernel
  have hn : sampleMachine.pool.queue.Nodup := by decide
  rcases hx : load "a.coff" ["a", "bc"] sampleMachine with ⟨⟨table, r⟩, machine'⟩ | ⟨stop, machine'⟩
  · exact ⟨table, r, machine', rfl, hn,
      load_declared sampleMachine machine' "a.coff" ["a", "bc"] table r hn hx⟩
  · rw [hx] at hok
    cases hok

end PagedKernel.Loader

import PagedKernel.Proofs.Loader.Arguments
import PagedKernel.Proofs.Loader.Fill

/-!
# Loaded programs

Loading puts together what an image declares: the pages of its sections, a stack of zeros, and the
page with the arguments. What the frames held before does not matter, nor in which order the pool
hands them out.
-/

namespace PagedKernel

namespace Loader

/-- An address space that was empty on a machine, with the pages that were taken since. -/
structure Mapped (machine : Machine) (s : AddressSpace) : Prop where
  config : s.machine.config = machine.config
  power : s.machine.power = machine.power
  taken : ∃ count, machine.pool.acquireMany? count = some (s.table.mapped, s.machine.pool)
  numbered : s.table.Numbered
  valid : s.table.AllValid
  size : s.machine.memory.size = machine.memory.size
  foreign : ∀ f ∉ s.table.mapped, s.machine.memory.frame? f = machine.memory.frame? f

/-- The registers and the address space of a program that was loaded from an image. -/
structure Loaded (data : Bytes) (entry : Nat) (sections : List Section) (stackPages : Nat)
    (args : List String) (m : UserMemory) (r : Registers) : Prop where
  placed : Section.misplaced? 0 sections = none
  length : m.table.length = Section.totalPages sections + stackPages + 1
  marks : ∀ (p : Nat) (e : Entry), m.table.entries[p]? = some e →
    e.vpn = p ∧ e.flags.valid = true ∧
    (e.flags.used = true ↔ p = Section.totalPages sections + stackPages ∧ args ≠ []) ∧
    (e.flags.dirty = true ↔ p = Section.totalPages sections + stackPages ∧ args ≠ [])
  sectionEntry : ∀ s ∈ sections, ∀ page < s.pages,
    ∃ e, m.table.entries[s.firstPage + page]? = some e ∧
      (e.flags.readOnly = true ↔ s.kind = .text ∨ s.kind = .rdata)
  sectionByte : ∀ s ∈ sections, ∀ page < s.pages, ∀ i < pageSize,
    m.byte? (s.address + page * pageSize + i) =
      if s.kind ≠ .bss ∧ page * pageSize + i < s.size then
        data[s.offset + (page * pageSize + i)]?
      else some 0
  stackEntry : ∀ p, Section.totalPages sections ≤ p → p ≤ Section.totalPages sections + stackPages →
    ∃ e, m.table.entries[p]? = some e ∧ e.flags.readOnly = false
  stackByte : ∀ a, Section.totalPages sections * pageSize ≤ a →
    a < (Section.totalPages sections + stackPages) * pageSize → m.byte? a = some 0
  argumentByte : ∀ i < pageSize,
    m.byte? ((Section.totalPages sections + stackPages) * pageSize + i) =
      some (((ArgumentArea.layout ((Section.totalPages sections + stackPages) * pageSize)
        args)[i]?).getD 0)
  pointer : ∀ (j : Nat) (arg : String), args[j]? = some arg → ∃ address,
    m.bytesAt ((Section.totalPages sections + stackPages) * pageSize + 4 * j) 4 =
      wordBytes address ∧
    m.bytesAt address.toNat (ArgumentArea.terminated arg).length = ArgumentArea.terminated arg
  registers : ∀ i, r.get i =
    if i = .pc then Int32.ofNat entry
    else if i = .nextPc then Int32.ofNat entry + 4
    else if i = .sp ∨ i = .a1 then
      Int32.ofNat ((Section.totalPages sections + stackPages) * pageSize)
    else if i = .a0 then Int32.ofNat args.length
    else 0

variable {machine : Machine} {s s' : AddressSpace} {image : Image} {file : OpenFile}
variable {data : Bytes} {sections : List Section} {stackPages : Nat} {args : List String}

theorem Mapped.start (machine : Machine) : Mapped machine { machine } where
  config := rfl
  power := rfl
  taken := ⟨0, by simp [FramePool.acquireMany?, FramePool.unmark, PageTable.mapped]⟩
  numbered := PageTable.Numbered.empty
  valid := PageTable.AllValid.empty
  size := rfl
  foreign _ _ := rfl

theorem Mapped.congr (h : Mapped machine s) (ht : s'.table = s.table)
    (hm : s'.machine = { s.machine with devices := s'.machine.devices, log := s'.machine.log }) :
    Mapped machine s' := by
  have hconfig := congrArg Machine.config hm
  have hpower := congrArg Machine.power hm
  have hpool := congrArg Machine.pool hm
  have hmemory := congrArg Machine.memory hm
  simp only at hconfig hpower hpool hmemory
  refine ⟨hconfig.trans h.config, hpower.trans h.power, ?_, ?_, ?_, ?_, ?_⟩
  · rw [ht, hpool]
    exact h.taken
  · rw [ht]
    exact h.numbered
  · rw [ht]
    exact h.valid
  · rw [hmemory]
    exact h.size
  · rw [ht, hmemory]
    exact h.foreign

theorem Mapped.confined {m : UserMemory} (h : Mapped machine s)
    (hc : UserMemory.Confined ⟨s.table, s.machine.memory⟩ m) :
    Mapped machine { s with table := m.table, machine.memory := m.memory } where
  config := h.config
  power := h.power
  taken := by
    simp only [PageTable.mapped_congr hc.mapping]
    exact h.taken
  numbered := h.numbered.congr hc.mapping
  valid := h.valid.congr hc.mapping
  size := hc.size.trans h.size
  foreign f hf := by
    have hf' : f ∉ s.table.mapped := by rwa [← PageTable.mapped_congr hc.mapping]
    exact (hc.foreign f hf').trans (h.foreign f hf')

theorem Mapped.fill (h : Mapped machine s) (fs : List Frame) : Mapped machine (s.fill 0 fs) where
  config := h.config
  power := h.power
  taken := h.taken
  numbered := h.numbered
  valid := h.valid
  size := (Memory.size_fill ..).trans h.size
  foreign f hf := by
    rw [← h.foreign f hf]
    exact Memory.frame?_fill_of_notMem hf

theorem Mapped.nodup (h : Mapped machine s) (hn : machine.pool.queue.Nodup) :
    s.table.mapped.Nodup := by
  obtain ⟨count, htaken⟩ := h.taken
  rw [(FramePool.acquireMany?_eq_some htaken).1]
  exact hn.sublist (List.take_sublist ..)

section

variable {n : Nat} {held : List Nat} (hl : machine.pool.Ledger n held)

include hl

theorem Mapped.ledger (h : Mapped machine s) : s.machine.pool.Ledger n (s.table.mapped ++ held) := by
  obtain ⟨count, htaken⟩ := h.taken
  exact (hl.acquireMany htaken).1

theorem Mapped.queue_eq (h : Mapped machine s) :
    s.table.mapped ++ s.machine.pool.queue = machine.pool.queue := by
  obtain ⟨count, htaken⟩ := h.taken
  exact (hl.acquireMany htaken).2.1

end

theorem total_regions (sections : List Section) (stackPages : Nat) :
    Region.total (regions sections stackPages) = Section.totalPages sections + stackPages + 1 := by
  induction sections with
  | nil => simp [regions, Region.total, Section.totalPages]
  | cons s rest ih =>
    have hcons : Region.total (regions (s :: rest) stackPages) =
        s.pages + Region.total (regions rest stackPages) := rfl
    have htotal : Section.totalPages (s :: rest) = s.pages + Section.totalPages rest := rfl
    omega

private theorem protections_regions (sections : List Section) (stackPages : Nat) :
    Region.protections (regions sections stackPages) =
      sections.flatMap (fun s => List.replicate s.pages s.readOnly) ++
        List.replicate (stackPages + 1) false := by
  simp [Region.protections, regions, List.flatMap_map]

private theorem getElem?_protections {s : Section} {page : Nat}
    (hp : Section.misplaced? 0 sections = none)
    (hs : s ∈ sections) (h : page < s.pages) :
    (Region.protections (regions sections stackPages))[s.firstPage + page]? = some s.readOnly := by
  have hlength : ∀ s : Section, (List.replicate s.pages s.readOnly).length = s.pages := fun s =>
    List.length_replicate
  obtain ⟨-, hend, hget⟩ := Section.getElem?_flatMap hlength hp hs h
  rw [protections_regions, List.getElem?_append_left, ← Nat.sub_zero s.firstPage, hget,
    List.getElem?_replicate, if_pos h]
  rw [Section.length_flatMap hlength]
  omega

theorem getElem?_protections_stack {p : Nat} (hl : Section.totalPages sections ≤ p)
    (hu : p ≤ Section.totalPages sections + stackPages) :
    (Region.protections (regions sections stackPages))[p]? = some false := by
  have hlength : (sections.flatMap fun s => List.replicate s.pages s.readOnly).length =
      Section.totalPages sections := Section.length_flatMap fun s => List.length_replicate
  have hlt : p - Section.totalPages sections < stackPages + 1 := by omega
  rw [protections_regions, List.getElem?_append_right (by omega), hlength,
    List.getElem?_replicate, if_pos hlt]

def freshTable (frames : List Nat) (sections : List Section) (stackPages : Nat) : PageTable :=
  ({} : PageTable).extend (frames.zip (Region.protections (regions sections stackPages)))

def freshMemory (memory : Memory) (frames : List Nat) (data : Bytes) (sections : List Section) :
    Memory :=
  (memory.clear frames).fill frames (Section.allPages data sections)

section

variable {frames : List Nat} {memory : Memory} {p i : Nat}
variable (hlength : frames.length = Section.totalPages sections + stackPages + 1)

include hlength

private theorem map_fst_regions :
    (frames.zip (Region.protections (regions sections stackPages))).map Prod.fst = frames := by
  apply List.map_fst_zip
  exact Nat.le_of_eq (by rw [Region.length_protections, total_regions, hlength])

theorem mapped_freshTable : (freshTable frames sections stackPages).mapped = frames := by
  rw [freshTable, PageTable.mapped_extend, map_fst_regions hlength]
  rfl

theorem length_freshTable : (freshTable frames sections stackPages).length =
    Section.totalPages sections + stackPages + 1 := by
  rw [← PageTable.length_mapped, mapped_freshTable hlength, hlength]

theorem getElem?_freshTable (hp : p < Section.totalPages sections + stackPages + 1) :
    ∃ f readOnly, frames[p]? = some f ∧
      (Region.protections (regions sections stackPages))[p]? = some readOnly ∧
      (freshTable frames sections stackPages).entries[p]? =
        some ⟨p, f, { valid := true, readOnly }⟩ := by
  have hprotections : (Region.protections (regions sections stackPages)).length =
      Section.totalPages sections + stackPages + 1 := by
    rw [Region.length_protections, total_regions]
  obtain ⟨f, hf⟩ : ∃ f, frames[p]? = some f :=
    ⟨_, List.getElem?_eq_getElem (hlength ▸ hp : p < frames.length)⟩
  obtain ⟨readOnly, hr⟩ :
      ∃ readOnly, (Region.protections (regions sections stackPages))[p]? = some readOnly :=
    ⟨_, List.getElem?_eq_getElem (Nat.lt_of_lt_of_eq hp hprotections.symm)⟩
  have hzip : (frames.zip (Region.protections (regions sections stackPages)))[p]? =
      some (f, readOnly) := List.getElem?_zip_eq_some.2 ⟨hf, hr⟩
  have hempty : ({} : PageTable).length = 0 := rfl
  refine ⟨f, readOnly, hf, hr, ?_⟩
  rw [freshTable, PageTable.getElem?_extend, hempty, if_neg (Nat.not_lt_zero p), Nat.sub_zero, hzip]
  rfl

private theorem byte?_fresh (hn : frames.Nodup) (hm : ∀ f ∈ frames, f < memory.size)
    (hp : p < Section.totalPages sections + stackPages + 1) (hi : i < pageSize) :
    (⟨freshTable frames sections stackPages, freshMemory memory frames data sections⟩ :
      UserMemory).byte? (p * pageSize + i) =
      (((Section.allPages data sections)[p]?).getD Frame.zero)[i]? := by
  obtain ⟨f, readOnly, hf, -, he⟩ := getElem?_freshTable hlength hp
  have hmem : f ∈ frames := List.mem_iff_getElem?.2 ⟨p, hf⟩
  have hpage : (p * pageSize + i) / pageSize = p := div_pageSize_eq_iff.2 (by omega)
  have hoffset : (p * pageSize + i) % pageSize = i := by
    rw [Nat.mul_add_mod', Nat.mod_eq_of_lt hi]
  have hsize : f < (memory.clear frames).size := by
    rw [Memory.size_clear]
    exact hm f hmem
  rw [UserMemory.byte?_of_entry (by rw [hpage]; exact he) rfl, hoffset, Memory.at?, freshMemory,
    Memory.frame?_fill hn hf hsize, Memory.frame?_clear, if_pos ⟨hmem, hm f hmem⟩]
  cases (Section.allPages data sections)[p]? <;> rfl

private theorem byte?_fresh_zero (hn : frames.Nodup) (hm : ∀ f ∈ frames, f < memory.size)
    (hl : Section.totalPages sections ≤ p) (hu : p < Section.totalPages sections + stackPages + 1)
    (hi : i < pageSize) :
    (⟨freshTable frames sections stackPages, freshMemory memory frames data sections⟩ :
      UserMemory).byte? (p * pageSize + i) = some 0 := by
  have hall : (Section.allPages data sections).length = Section.totalPages sections :=
    Section.length_flatMap fun s => by rw [List.length_map, List.length_range]
  rw [byte?_fresh hlength hn hm hu hi, List.getElem?_eq_none (by omega), Option.getD_none,
    Frame.getElem?_zero, if_pos hi]

private theorem byte?_fresh_section {s : Section} {page : Nat} (hn : frames.Nodup)
    (hm : ∀ f ∈ frames, f < memory.size) (hplaced : Section.misplaced? 0 sections = none)
    (hs : s ∈ sections) (hstated : ∃ place, s.Stated data place) (hpage : page < s.pages)
    (hi : i < pageSize) :
    s.address + page * pageSize + i < Section.totalPages sections * pageSize ∧
    (⟨freshTable frames sections stackPages, freshMemory memory frames data sections⟩ :
      UserMemory).byte? (s.address + page * pageSize + i) =
      if s.kind ≠ .bss ∧ page * pageSize + i < s.size then
        data[s.offset + (page * pageSize + i)]?
      else some 0 := by
  obtain ⟨place, hstated⟩ := hstated
  have hg : ∀ s : Section, ((List.range s.pages).map (s.page data)).length = s.pages := fun s => by
    rw [List.length_map, List.length_range]
  obtain ⟨-, hend, hget⟩ := Section.getElem?_flatMap hg hplaced hs hpage
  have haddress : s.address + page * pageSize + i = (s.firstPage + page) * pageSize + i := by
    have haligned := hstated.aligned
    simp only [Section.firstPage, pageSize] at *
    omega
  have hkind : s.kind.initialized = true ↔ s.kind ≠ .bss := by
    cases s.kind <;> simp [SectionKind.initialized]
  rw [haddress]
  constructor
  · simp only [pageSize] at *
    omega
  · rw [Nat.sub_zero, List.getElem?_map, List.getElem?_range hpage] at hget
    rw [byte?_fresh hlength hn hm (by omega) hi, Section.allPages, hget, Option.map_some,
      Option.getD_some, Section.getElem?_page s page hi hstated.inside]
    simp only [hkind]

end

private theorem get_initialRegisters (entry stackTop argc argv : Nat) (i : Register) :
    (initialRegisters entry stackTop argc argv).get i =
      if i = .pc then Int32.ofNat entry
      else if i = .nextPc then Int32.ofNat entry + 4
      else if i = .sp then Int32.ofNat stackTop
      else if i = .a0 then Int32.ofNat argc
      else if i = .a1 then Int32.ofNat argv
      else 0 := by
  simp only [initialRegisters, Registers.get_set, Registers.get_cleared]
  by_cases hpc : i = .pc
  · subst hpc
    rfl
  by_cases hnext : i = .nextPc
  · subst hnext
    rfl
  by_cases hsp : i = .sp
  · subst hsp
    rfl
  by_cases ha0 : i = .a0
  · subst ha0
    rfl
  by_cases ha1 : i = .a1
  · subst ha1
    rfl
  simp only [hpc, hnext, hsp, ha0, ha1, Ne.symm hpc, Ne.symm hnext, Ne.symm hsp, Ne.symm ha0,
    Ne.symm ha1, if_false]

private theorem get_initialRegisters_top (entry top argc : Nat) (i : Register) :
    (initialRegisters entry top argc top).get i =
      if i = .pc then Int32.ofNat entry
      else if i = .nextPc then Int32.ofNat entry + 4
      else if i = .sp ∨ i = .a1 then Int32.ofNat top
      else if i = .a0 then Int32.ofNat argc
      else 0 := by
  rw [get_initialRegisters]
  by_cases hsp : i = .sp
  · subst hsp
    rfl
  by_cases ha1 : i = .a1
  · subst ha1
    rfl
  simp only [hsp, ha1, or_self, if_false]

/-- A run of bytes inside a page is a run of the page's contents. -/
theorem bytesAt_of_page {m : UserMemory} {base : Nat} {contents : Bytes}
    (h : ∀ i < pageSize, m.byte? (base + i) = some ((contents[i]?).getD 0)) (k n : Nat)
    (hk : k + n ≤ contents.length) (hs : contents.length ≤ pageSize) :
    m.bytesAt (base + k) n = (contents.drop k).take n := by
  apply List.ext_getElem?
  intro i
  rw [List.getElem?_take, List.getElem?_drop]
  by_cases hi : i < n
  · have hlt : k + i < contents.length := by omega
    rw [if_pos hi, UserMemory.getElem?_bytesAt hi, Nat.add_assoc, h (k + i) (by omega),
      List.getElem?_eq_getElem hlt]
    rfl
  · rw [if_neg hi, List.getElem?_eq_none]
    rw [UserMemory.length_bytesAt]
    omega

/-- On a page that holds arguments, each pointer leads to its own string, which is on the page. -/
theorem exists_pointer {m : UserMemory} {argv : VirtualAddress} {p : Nat}
    (hargv : argv.toNat = p * pageSize)
    (hpage : ∀ i < pageSize, m.byte? (argv.toNat + i) =
      some (((ArgumentArea.layout argv.toNat args)[i]?).getD 0))
    (hsize : ArgumentArea.sizeOf args ≤ pageSize) {j : Nat} {arg : String}
    (hj : args[j]? = some arg) : ∃ address,
      (argv.toNat < address.toNat ∧
        address.toNat + (ArgumentArea.terminated arg).length ≤ argv.toNat + pageSize) ∧
      m.bytesAt (argv.toNat + 4 * j) 4 = wordBytes address ∧
      m.bytesAt address.toNat (ArgumentArea.terminated arg).length =
        ArgumentArea.terminated arg := by
  have hlt : j < args.length := (List.getElem?_eq_some_iff.1 hj).1
  have hsizeOf := ArgumentArea.sizeOf_eq args
  have hlayout := ArgumentArea.length_layout argv.toNat args
  obtain ⟨hbehind, hup⟩ := ArgumentArea.address_add_le argv.toNat hj
  have hpos := ArgumentArea.terminated_pos arg
  have hlimit := argv.le_limit
  have htoNat : (UInt32.ofNat (ArgumentArea.address argv.toNat args j)).toNat =
      ArgumentArea.address argv.toNat args j := by
    rw [UInt32.toNat_ofNat_of_lt']
    simp only [pageSize, addressLimit, UInt32.size] at *
    omega
  simp only [ArgumentArea.pointerSize] at hsizeOf hbehind
  have hlow : argv.toNat ≤ ArgumentArea.address argv.toNat args j := by omega
  have hbytes := bytesAt_of_page hpage (4 * j) 4 (by omega) (by omega)
  have hchars := bytesAt_of_page hpage (ArgumentArea.address argv.toNat args j - argv.toNat)
    (ArgumentArea.terminated arg).length (by omega) (by omega)
  refine ⟨UInt32.ofNat (ArgumentArea.address argv.toNat args j), ⟨?_, ?_⟩, ?_, ?_⟩
  · rw [htoNat]
    omega
  · rw [htoNat]
    omega
  · rw [hbytes]
    exact ArgumentArea.layout_pointer argv.toNat hlt
  · rw [htoNat, ← Nat.add_sub_cancel' hlow, hchars, ArgumentArea.layout_string argv.toNat hj]

section

variable {frames : List Nat} {memory : Memory} {entry : Nat} {argv : VirtualAddress}
variable {m : UserMemory}

private theorem exists_laidEntry
    (hlength : frames.length = Section.totalPages sections + stackPages + 1)
    (htable : m.table = if args = [] then freshTable frames sections stackPages
      else (freshTable frames sections stackPages).touched .write
        ((Section.totalPages sections + stackPages) * pageSize) 1)
    {p : Nat} (hp : p < Section.totalPages sections + stackPages + 1) : ∃ f readOnly,
    (Region.protections (regions sections stackPages))[p]? = some readOnly ∧
    m.table.entries[p]? = some ⟨p, f,
      { valid := true, readOnly
        used := decide (p = Section.totalPages sections + stackPages ∧ args ≠ [])
        dirty := decide (p = Section.totalPages sections + stackPages ∧ args ≠ []) }⟩ := by
  obtain ⟨f, readOnly, -, hprotection, he⟩ := getElem?_freshTable hlength hp
  refine ⟨f, readOnly, hprotection, ?_⟩
  rw [htable]
  by_cases hargs : args = []
  · rw [if_pos hargs, he]
    simp [hargs]
  · have hmeets : PageTable.meets ((Section.totalPages sections + stackPages) * pageSize) 1 p =
        decide (p = Section.totalPages sections + stackPages) := by
      have hpage : (Section.totalPages sections + stackPages) * pageSize / pageSize =
          Section.totalPages sections + stackPages := Nat.mul_div_cancel _ pageSize_pos
      rw [Bool.eq_iff_iff]
      simp only [PageTable.meets, Nat.add_sub_cancel, hpage, decide_eq_true_eq]
      omega
    rw [if_neg hargs, PageTable.getElem?_touched, he, hmeets]
    by_cases hp : p = Section.totalPages sections + stackPages <;>
      simp [hp, hargs, Entry.touch, Flags.touch]

/-- Pages that are filled, with arguments written behind them, are a loaded program. -/
theorem loaded_of_laid (hn : frames.Nodup)
    (hlength : frames.length = Section.totalPages sections + stackPages + 1)
    (hm : ∀ f ∈ frames, f < memory.size) (hplaced : Section.misplaced? 0 sections = none)
    (hstated : ∀ s ∈ sections, ∃ place, s.Stated data place)
    (hargv : argv.toNat = (Section.totalPages sections + stackPages) * pageSize)
    (hsize : ArgumentArea.sizeOf args ≤ pageSize)
    (hlaid : ArgumentArea.Laid (.start argv args.length) 0 args
      ⟨freshTable frames sections stackPages, freshMemory memory frames data sections⟩ m) :
    Loaded data entry sections stackPages args m
      (initialRegisters entry ((Section.totalPages sections + stackPages) * pageSize) args.length
        argv.toNat) := by
  have hnodup : (freshTable frames sections stackPages).mapped.Nodup := by
    rwa [mapped_freshTable hlength]
  have htotal : m.table.length = Section.totalPages sections + stackPages + 1 := by
    rw [PageTable.length_congr hlaid.confined.mapping]
    exact length_freshTable hlength
  have hentry {p : Nat} := exists_laidEntry (p := p) hlength (hlaid.table_of_start hargv hsize)
  have hpage : ∀ i < pageSize, m.byte? (argv.toNat + i) =
      some (((ArgumentArea.layout argv.toNat args)[i]?).getD 0) := by
    apply hlaid.page hnodup
    intro i hi
    rw [hargv]
    exact byte?_fresh_zero hlength hn hm (Nat.le_add_right ..) (Nat.lt_succ_self _) hi
  refine ⟨hplaced, htotal, ?marks, ?sectionEntry, ?sectionByte, ?stackEntry, ?stackByte,
    ?argumentByte, ?pointer, ?registers⟩
  case marks =>
    intro p e he
    have hp : p < Section.totalPages sections + stackPages + 1 := by
      rw [← htotal]
      exact (List.getElem?_eq_some_iff.1 he).1
    obtain ⟨f, readOnly, -, hlaidEntry⟩ := hentry hp
    rw [hlaidEntry] at he
    cases he
    simp only [decide_eq_true_eq, and_self, iff_self]
  case sectionEntry =>
    intro s hs page hpage'
    obtain ⟨-, hend, -⟩ := Section.getElem?_flatMap
      (g := fun s => List.replicate s.pages s.readOnly) (fun s => List.length_replicate) hplaced hs
      hpage'
    obtain ⟨f, readOnly, hprotection, he⟩ := hentry (p := s.firstPage + page) (by omega)
    rw [getElem?_protections hplaced hs hpage'] at hprotection
    cases hprotection
    refine ⟨_, he, ?_⟩
    simp only [Section.readOnly]
    cases s.kind <;> simp [SectionKind.readOnly]
  case sectionByte =>
    intro s hs page hpage' i hi
    obtain ⟨hlt, hbyte⟩ :=
      byte?_fresh_section hlength hn hm hplaced hs (hstated s hs) hpage' hi
    rw [hlaid.byte?_before hnodup, hbyte]
    rw [hargv]
    exact Nat.lt_of_lt_of_le hlt (Nat.mul_le_mul_right pageSize (Nat.le_add_right ..))
  case stackEntry =>
    intro p hl hu
    obtain ⟨f, readOnly, hprotection, he⟩ := hentry (Nat.lt_succ_of_le hu)
    rw [getElem?_protections_stack hl hu] at hprotection
    cases hprotection
    exact ⟨_, he, rfl⟩
  case stackByte =>
    intro a hl hu
    have hlow : Section.totalPages sections ≤ a / pageSize :=
      (Nat.le_div_iff_mul_le pageSize_pos).2 hl
    have hup : a / pageSize < Section.totalPages sections + stackPages :=
      (Nat.div_lt_iff_lt_mul pageSize_pos).2 hu
    rw [hlaid.byte?_before hnodup (hargv ▸ hu), ← Nat.div_add_mod' a pageSize]
    exact byte?_fresh_zero hlength hn hm hlow (Nat.lt_succ_of_lt hup) (Nat.mod_lt a pageSize_pos)
  case argumentByte => rwa [hargv] at hpage
  case pointer =>
    intro j arg hj
    obtain ⟨address, -, hbytes⟩ := exists_pointer hargv hpage hsize hj
    rw [← hargv]
    exact ⟨address, hbytes⟩
  case registers =>
    rw [hargv]
    exact get_initialRegisters_top entry _ args.length

end

end Loader

end PagedKernel

import PagedKernel.Proofs.Kernel.World
import PagedKernel.Proofs.Memory.Spaces

/-!
# Growing an address space

Pages are mapped all at once or not at all. New pages stand behind the old ones in the order of their
regions, and they are clean, whatever their frames held before. What the space had stays as it was,
because no frame that it names is free.
-/

namespace PagedKernel

namespace Region

variable {regions : List Region} {r : Region} {i : Nat}

/-- Page `i` of regions that lie one behind another falls in region `r`. A region without pages has
none. -/
def Covers (regions : List Region) (i : Nat) (r : Region) : Prop :=
  ∃ j, regions[j]? = some r ∧ total (regions.take j) ≤ i ∧ i < total (regions.take j) + r.pages

private theorem covers_cons {head : Region} : Covers (head :: regions) i r ↔
    (r = head ∧ i < head.pages) ∨ (head.pages ≤ i ∧ Covers regions (i - head.pages) r) := by
  constructor
  · rintro ⟨j, hj, hlow, hup⟩
    cases j with
    | zero =>
      cases hj
      exact .inl ⟨rfl, by simpa [total] using hup⟩
    | succ j =>
      simp only [List.take_succ_cons, total] at hlow hup
      exact .inr ⟨by omega, j, hj, by omega, by omega⟩
  · rintro (⟨rfl, hi⟩ | ⟨hi, j, hj, hlow, hup⟩)
    · exact ⟨0, rfl, Nat.zero_le i, by simpa [total] using hi⟩
    · refine ⟨j + 1, hj, ?_, ?_⟩
      all_goals
        simp only [List.take_succ_cons, total]
        omega

private theorem exists_covers (hi : i < total regions) : ∃ r, Covers regions i r := by
  induction regions generalizing i with
  | nil => exact absurd hi (Nat.not_lt_zero i)
  | cons head rest ih =>
    rcases Nat.lt_or_ge i head.pages with hlt | hge
    · exact ⟨head, covers_cons.2 (.inl ⟨rfl, hlt⟩)⟩
    · rw [total] at hi
      obtain ⟨r, hr⟩ := ih (i := i - head.pages) (by omega)
      exact ⟨r, covers_cons.2 (.inr ⟨hge, hr⟩)⟩

private theorem Covers.protections (h : Covers regions i r) :
    (Region.protections regions)[i]? = some r.readOnly := by
  induction regions generalizing i with
  | nil =>
    obtain ⟨j, hj, -⟩ := h
    cases hj
  | cons head rest ih =>
    have hcons : Region.protections (head :: rest) =
        List.replicate head.pages head.readOnly ++ Region.protections rest := rfl
    rw [hcons]
    obtain ⟨rfl, hi⟩ | ⟨hi, hrest⟩ := covers_cons.1 h
    · rw [List.getElem?_append_left (by simpa using hi), List.getElem?_replicate, if_pos hi]
    · rw [List.getElem?_append_right (by simpa using hi), List.length_replicate]
      exact ih hrest

private theorem Covers.lt (h : Covers regions i r) : i < total regions := by
  rw [← length_protections]
  exact (List.getElem?_eq_some_iff.1 h.protections).1

end Region

namespace AddressSpace

variable {s s' : AddressSpace} {regions : List Region} {n : Nat} {held frames : List Nat}
variable {pool : FramePool}

def memory (s : AddressSpace) : UserMemory := ⟨s.table, s.machine.memory⟩

/-- The free frames are frames of the pool and of the memory, each of them is free once, and none
holds a page of the space. -/
structure Stocked (s : AddressSpace) : Prop where
  known : ∀ f ∈ s.machine.pool.queue, f < s.machine.pool.capacity
  there : ∀ f ∈ s.machine.pool.queue, f < s.machine.memory.size
  distinct : (s.machine.pool.queue ++ s.table.mapped).Nodup

private theorem stocked_of_ledger (h : s.machine.pool.Ledger n held)
    (hheld : s.table.mapped.Sublist held)
    (hsize : n ≤ s.machine.memory.size) : s.Stocked where
  known f hf := h.capacity ▸ h.below f (List.mem_append_left _ hf)
  there f hf := (h.below f (List.mem_append_left _ hf)).trans_le hsize
  distinct := h.distinct.sublist (hheld.append_left _)

/-- An address space has grown by the pages of regions. -/
structure Grown (s : AddressSpace) (regions : List Region) (s' : AddressSpace) : Prop where
  length : s'.table.length = s.table.length + Region.total regions
  kept : ∀ i < s.table.length, s'.table.entries[i]? = s.table.entries[i]?
  bytes : ∀ a < s.table.size, s'.memory.byte? a = s.memory.byte? a
  covered : ∀ i < Region.total regions, ∃ r, Region.Covers regions i r
  pages : ∀ i r, Region.Covers regions i r → ∃ frame, s.machine.pool.queue[i]? = some frame ∧
    s'.table.entries[s.table.length + i]? =
      some ⟨s.table.length + i, frame, { valid := true, readOnly := r.readOnly }⟩
  zeros : ∀ a, s.table.size ≤ a → a < s'.table.size → s'.memory.byte? a = some 0
  queue : s'.machine.pool.queue = s.machine.pool.queue.drop (Region.total regions)
  available : s.machine.pool.available = Region.total regions + s'.machine.pool.available
  held : ∀ f ∈ s.table.mapped, s'.machine.memory.frame? f = s.machine.memory.frame? f
  frames : ∀ f ∉ s.machine.pool.queue.take (Region.total regions),
    s'.machine.memory.frame? f = s.machine.memory.frame? f
  machine : s'.machine = { s.machine with memory := s'.machine.memory, pool := s'.machine.pool }
  stocked : s'.Stocked

def grow (s : AddressSpace) (regions : List Region) (frames : List Nat) (pool : FramePool) :
    AddressSpace :=
  { s with machine.pool := pool }.withPages frames (Region.protections regions)

private theorem table_grow : (s.grow regions frames pool).table =
    s.table.extend (frames.zip (Region.protections regions)) := rfl

private theorem memory_grow : (s.grow regions frames pool).machine.memory =
    s.machine.memory.clear frames := rfl

private theorem pool_grow : (s.grow regions frames pool).machine.pool = pool := rfl

private theorem frame?_grow {f : Nat} (hf : f ∉ frames) :
    (s.grow regions frames pool).machine.memory.frame? f = s.machine.memory.frame? f :=
  Memory.frame?_clear_of_notMem _ hf

section

variable (h : s.machine.pool.acquireMany? (Region.total regions) = some (frames, pool))

include h

private theorem mapped_grow : (s.grow regions frames pool).table.mapped = s.table.mapped ++ frames := by
  have hlength := (FramePool.available_of_acquireMany? h).1
  rw [table_grow, PageTable.mapped_extend, List.map_fst_zip]
  rw [hlength, Region.length_protections]

private theorem length_grow : (s.grow regions frames pool).table.length =
    s.table.length + Region.total regions := by
  rw [← PageTable.length_mapped, mapped_grow h, List.length_append, PageTable.length_mapped,
    (FramePool.available_of_acquireMany? h).1]

private theorem queue_eq : s.machine.pool.queue = frames ++ pool.queue := by
  obtain ⟨hframes, hpool, -⟩ := FramePool.acquireMany?_eq_some h
  rw [hframes, hpool]
  exact (List.take_append_drop ..).symm

private theorem getElem?_grow {i : Nat} {r : Region} (hr : Region.Covers regions i r) :
    ∃ frame ∈ frames, s.machine.pool.queue[i]? = some frame ∧
      (s.grow regions frames pool).table.entries[s.table.length + i]? =
        some ⟨s.table.length + i, frame, { valid := true, readOnly := r.readOnly }⟩ := by
  have hi : i < frames.length := (FramePool.available_of_acquireMany? h).1 ▸ hr.lt
  have hframe := List.getElem?_eq_getElem hi
  have hzip : (frames.zip (Region.protections regions))[i]? = some (frames[i], r.readOnly) :=
    List.getElem?_zip_eq_some.2 ⟨hframe, hr.protections⟩
  refine ⟨frames[i], List.getElem_mem hi, ?_, ?_⟩
  · rw [queue_eq h, List.getElem?_append_left hi, hframe]
  · rw [table_grow, PageTable.getElem?_extend, if_neg (by omega), Nat.add_sub_cancel_left, hzip]
    rfl

private theorem Stocked.grow (hs : s.Stocked) : (s.grow regions frames pool).Stocked := by
  have hqueue := queue_eq h
  have hsub : ∀ f ∈ pool.queue, f ∈ s.machine.pool.queue := fun f hf =>
    hqueue ▸ List.mem_append_right _ hf
  refine ⟨fun f hf => ?_, fun f hf => ?_, ?_⟩
  · have hcapacity : pool.capacity = s.machine.pool.capacity := by
      rw [(FramePool.acquireMany?_eq_some h).2.1]
      exact FramePool.size_unmark ..
    rw [pool_grow, hcapacity]
    exact hs.known f (hsub f hf)
  · rw [memory_grow, Memory.size_clear]
    exact hs.there f (hsub f hf)
  · have hdistinct := hs.distinct
    rw [hqueue, List.append_assoc] at hdistinct
    rw [pool_grow, mapped_grow h, ← List.append_assoc]
    exact List.perm_append_comm.nodup_iff.1 hdistinct

private theorem Stocked.mem_frames (hs : s.Stocked) {f : Nat} (hf : f ∈ frames) :
    f < s.machine.memory.size ∧ f ∉ s.table.mapped := by
  have hqueue : f ∈ s.machine.pool.queue := queue_eq h ▸ List.mem_append_left _ hf
  exact ⟨hs.there f hqueue, fun hmapped =>
    (List.nodup_append.1 hs.distinct).2.2 f hqueue f hmapped rfl⟩

private theorem Stocked.held_grow (hs : s.Stocked) {f : Nat} (hf : f ∈ s.table.mapped) :
    (s.grow regions frames pool).machine.memory.frame? f = s.machine.memory.frame? f :=
  frame?_grow fun hmem => (hs.mem_frames h hmem).2 hf

private theorem Stocked.byte?_grow (hs : s.Stocked) {a : Nat} (ha : a < s.table.size) :
    (s.grow regions frames pool).memory.byte? a = s.memory.byte? a := by
  have hpage : a / pageSize < s.table.length := (Nat.div_lt_iff_lt_mul pageSize_pos).2 ha
  simp only [UserMemory.byte?, memory, table_grow, PageTable.getElem?_extend, if_pos hpage]
  cases he : s.table.entries[a / pageSize]? with
  | none => rfl
  | some e =>
    have hframe := hs.held_grow h (List.mem_map_of_mem (List.mem_of_getElem? he))
    simp only [Memory.at?_congr hframe]

/-- The new pages are clean, whatever their frames held. -/
theorem Stocked.byte?_grow_zero (hs : s.Stocked) {a : Nat} (hlow : s.table.size ≤ a)
    (hup : a < (s.grow regions frames pool).table.size) :
    (s.grow regions frames pool).memory.byte? a = some 0 := by
  obtain ⟨i, hi⟩ : ∃ i, a / pageSize = s.table.length + i :=
    Nat.exists_eq_add_of_le ((Nat.le_div_iff_mul_le pageSize_pos).2 hlow)
  have hlt : i < Region.total regions := by
    have hpage : a / pageSize < s.table.length + Region.total regions :=
      length_grow h ▸ (Nat.div_lt_iff_lt_mul pageSize_pos).2 hup
    omega
  obtain ⟨r, hr⟩ := Region.exists_covers hlt
  obtain ⟨frame, hmem, -, hentry⟩ := getElem?_grow h hr
  rw [← hi] at hentry
  rw [UserMemory.byte?_of_entry hentry rfl, Memory.at?]
  simp only [memory, memory_grow]
  rw [Memory.frame?_clear, if_pos ⟨hmem, (hs.mem_frames h hmem).1⟩, Option.bind_some,
    Frame.getElem?_zero, if_pos (Nat.mod_lt a pageSize_pos)]

private theorem Stocked.grown (hs : s.Stocked) : s.Grown regions (s.grow regions frames pool) where
  length := length_grow h
  kept i hi := by rw [table_grow, PageTable.getElem?_extend, if_pos hi]
  bytes _ ha := hs.byte?_grow h ha
  covered _ hi := Region.exists_covers hi
  pages i r hr := by
    obtain ⟨frame, -, hqueue, hentry⟩ := getElem?_grow h hr
    exact ⟨frame, hqueue, hentry⟩
  zeros _ hlow hup := hs.byte?_grow_zero h hlow hup
  queue := by rw [pool_grow, (FramePool.acquireMany?_eq_some h).2.1]
  available := (FramePool.available_of_acquireMany? h).2
  held _ hf := hs.held_grow h hf
  frames f hf := by
    rw [← (FramePool.acquireMany?_eq_some h).1] at hf
    exact frame?_grow hf
  machine := rfl
  stocked := hs.grow h

end

private theorem map_of_short (hshort : s.machine.pool.available < Region.total regions) :
    let short := Event.framesShort (Region.total regions) s.machine.pool.available
    map regions s = .error (.refused .noMemory) { s with machine := s.machine.report short } := by
  apply Ensures.eq
  rw [map, ensures_bind, ensures_get]
  simp only [FramePool.acquireMany?_eq_none_iff.2 hshort, ensures_bind, report, ensures_modify,
    ensures_refuse]

private theorem Stocked.map_eq (hs : s.Stocked)
    (henough : Region.total regions ≤ s.machine.pool.available) :
    ∃ s', map regions s = .ok (Region.total regions) s' ∧ s.Grown regions s' := by
  have hmap : Ensures (map regions) s _ _ := ensures_map
  rcases hrun : map regions s with ⟨total, s'⟩ | ⟨stop, s'⟩
  · obtain ⟨rfl, frames, pool, hacquire, -, rfl⟩ := hmap.of_ok hrun
    exact ⟨_, rfl, hs.grown hacquire⟩
  · obtain ⟨-, hshort, -⟩ | ⟨frames, pool, count, f, hacquire, -, -, hf, hstop⟩ :=
      hmap.of_error hrun
    · exact absurd hshort (Nat.not_lt.2 henough)
    · have hqueue : f ∈ s.machine.pool.queue := queue_eq hacquire ▸ List.mem_append_left _ hf
      obtain ⟨hsize, -⟩ | ⟨hcapacity, -⟩ := hstop
      · exact absurd (hs.there f hqueue) (Nat.not_lt.2 hsize)
      · rw [(FramePool.acquireMany?_eq_some hacquire).2.1, FramePool.capacity,
          FramePool.size_unmark] at hcapacity
        exact absurd (hs.known f hqueue) (Nat.not_lt.2 hcapacity)

private theorem stocked_of_mem {machine : Machine} {tables : List PageTable} {t : PageTable}
    (h : machine.pool.Ledger n (tables.flatMap PageTable.mapped)) (hsize : n ≤ machine.memory.size)
    (ht : t = {} ∨ t ∈ tables) : Stocked ⟨machine, t⟩ := by
  refine stocked_of_ledger h ?_ hsize
  obtain rfl | ht := ht
  · exact List.nil_sublist _
  · rw [List.flatMap_def]
    exact List.sublist_flatten_of_mem (List.mem_map_of_mem ht)

/-- Whatever an address space has, whatever the regions, and whatever the state of the pool: mapping
is refused for want of memory if and only if fewer frames are free than the regions have pages. Then
the table, the pool and the memory are as they were, and only the log tells of it. In all other cases
the space grows by the regions. All this needs that the free frames are frames of the memory, and hold
no page of the space. It is so for all spaces that share a pool no larger than the memory, and for the
processes of a kernel, those that are about to be created among them. -/
theorem map_all_or_nothing :
    (∀ (machine : Machine) (n : Nat) (steps : List SpaceStep), n ≤ machine.memory.size →
      ∀ t ∈ ((Spaces.start machine n).run steps).tables,
        Stocked ⟨((Spaces.start machine n).run steps).machine, t⟩) ∧
    (∀ (allowed : Move → Prop) (w : World), World.Reachable allowed w →
      ∀ t : PageTable, (t = {} ∨ ∃ p ∈ w.processes, p.table = t) →
        Stocked ⟨w.kernel.machine, t⟩) ∧
    ∀ (s : AddressSpace) (regions : List Region), s.Stocked →
      ((∃ s', map regions s = .error (.refused .noMemory) s') ↔
        s.machine.pool.available < Region.total regions) ∧
      (∀ stop s', map regions s = .error stop s' → stop = .refused .noMemory ∧
        s'.table = s.table ∧ ∃ e, s'.machine = s.machine.report e) ∧
      (Region.total regions ≤ s.machine.pool.available →
        ∃ s', map regions s = .ok (Region.total regions) s' ∧ s.Grown regions s') := by
  refine ⟨fun machine n steps hn t ht => ?_, fun _ w hw t ht => ?_, fun s regions hs => ?_⟩
  · have hsound := Spaces.run_sound (Spaces.sound_start machine n) steps
    exact stocked_of_mem hsound.ledger (hsound.size.symm ▸ hn) (.inr ht)
  · have hledger : w.kernel.machine.pool.Ledger w.kernel.machine.memory.size
        ((w.processes.map (·.table)).flatMap PageTable.mapped) := by
      rw [List.flatMap_map]
      exact hw.sound.ledger
    refine stocked_of_mem hledger (Nat.le_refl _) (ht.imp_right ?_)
    rintro ⟨p, hp, rfl⟩
    exact List.mem_map_of_mem hp
  · rcases Nat.lt_or_ge s.machine.pool.available (Region.total regions) with hshort | henough
    · have hmap := map_of_short hshort
      refine ⟨⟨fun _ => hshort, fun _ => ⟨_, hmap⟩⟩, ?_, fun h => absurd hshort (Nat.not_lt.2 h)⟩
      rw [hmap]
      rintro _ _ ⟨⟩
      exact ⟨rfl, rfl, _, rfl⟩
    · obtain ⟨s', hmap, hgrown⟩ := hs.map_eq henough
      refine ⟨⟨?_, fun h => absurd h (Nat.not_lt.2 henough)⟩, ?_, fun _ => ⟨s', hmap, hgrown⟩⟩
      · rw [hmap]
        rintro ⟨_, ⟨⟩⟩
      · rw [hmap]
        rintro _ _ ⟨⟩

def stockedSpace : AddressSpace :=
  let spaces := (Spaces.start (.build { physPages := 4 } {}) 4).run (Spaces.sampleSteps.take 6)
  ⟨spaces.machine, spaces.tables.headD {}⟩

theorem map_all_or_nothing_sample : stockedSpace.Stocked ∧
    (∃ s', map [⟨1, true⟩, ⟨0, false⟩, ⟨2, false⟩] stockedSpace = .ok 3 s' ∧
      stockedSpace.Grown [⟨1, true⟩, ⟨0, false⟩, ⟨2, false⟩] s') ∧
    ∃ s', map [⟨1, true⟩, ⟨3, false⟩] stockedSpace = .error (.refused .noMemory) s' := by
  obtain ⟨hspaces, -, hmap⟩ := map_all_or_nothing
  have hstocked : stockedSpace.Stocked :=
    hspaces (.build { physPages := 4 } {}) 4 (Spaces.sampleSteps.take 6) (by decide +kernel) _
      (by decide +kernel)
  have havailable : stockedSpace.machine.pool.available = 3 := by decide +kernel
  refine ⟨hstocked, (hmap _ _ hstocked).2.2 ?_, (hmap _ _ hstocked).1.2 ?_⟩
  · rw [havailable]
    decide
  · rw [havailable]
    decide

end AddressSpace

end PagedKernel

import PagedKernel.Memory.AddressSpace
import PagedKernel.Proofs.Ensures
import PagedKernel.Proofs.Memory.Ledger
import PagedKernel.Proofs.Memory.View

/-!
# Mapping pages and taking them back

Mapping takes the first frames of the queue, clears them, and appends an entry for each. It stops
half-way only where the pool or the memory does not know a frame of the queue, which a pool with a
ledger rules out.
-/

namespace PagedKernel

namespace Memory

def clear (m : Memory) (frames : List Nat) : Memory :=
  frames.foldl (fun m f => m.setFrame f Frame.zero) m

@[simp] theorem clear_nil (m : Memory) : m.clear [] = m := rfl

private theorem clear_cons (m : Memory) (f : Nat) (rest : List Nat) :
    m.clear (f :: rest) = (m.setFrame f Frame.zero).clear rest := rfl

@[simp] theorem size_clear (m : Memory) (frames : List Nat) : (m.clear frames).size = m.size := by
  induction frames generalizing m with
  | nil => rfl
  | cons f rest ih => rw [clear_cons, ih, size_setFrame]

theorem frame?_clear (m : Memory) (frames : List Nat) (k : Nat) :
    (m.clear frames).frame? k =
      if k ∈ frames ∧ k < m.size then some Frame.zero else m.frame? k := by
  induction frames generalizing m with
  | nil => simp
  | cons f rest ih =>
    rw [clear_cons, ih, size_setFrame, frame?_setFrame]
    by_cases hk : k < m.size
    · by_cases hr : k ∈ rest
      · simp [hr, hk]
      · by_cases hf : f = k
        · simp [hr, hk, hf]
        · simp [hr, hk, hf, Ne.symm hf]
    · simp [hk]

theorem frame?_clear_of_notMem (m : Memory) {frames : List Nat} {k : Nat} (h : k ∉ frames) :
    (m.clear frames).frame? k = m.frame? k := by
  rw [frame?_clear, if_neg (fun hk => h hk.1)]

end Memory

namespace PageTable

variable {t : PageTable} {pages : List (Nat × Bool)} {frame : Nat} {readOnly : Bool}

def extend (t : PageTable) (pages : List (Nat × Bool)) : PageTable :=
  pages.foldl (fun t page => t.push page.1 page.2) t

@[simp] private theorem extend_nil (t : PageTable) : t.extend [] = t := rfl

private theorem extend_cons (t : PageTable) (page : Nat × Bool) (rest : List (Nat × Bool)) :
    t.extend (page :: rest) = (t.push page.1 page.2).extend rest := rfl

@[simp] private theorem length_push : (t.push frame readOnly).length = t.length + 1 := by
  simp [push, length]

@[simp] private theorem mapped_push : (t.push frame readOnly).mapped = t.mapped ++ [frame] := by
  simp [push, mapped]

private theorem getElem?_push (i : Nat) : (t.push frame readOnly).entries[i]? =
    if i = t.length then some ⟨t.length, frame, { valid := true, readOnly }⟩
    else t.entries[i]? := by
  rw [push, List.getElem?_append]
  by_cases hi : i < t.entries.length
  · have hne : i ≠ t.length := Nat.ne_of_lt hi
    rw [if_pos hi, if_neg hne]
  · rw [if_neg hi]
    by_cases he : i = t.length
    · rw [if_pos he, he, length, Nat.sub_self]
      rfl
    · have hgt : t.entries.length < i := Nat.lt_of_le_of_ne (Nat.le_of_not_lt hi) (Ne.symm he)
      rw [if_neg he, List.getElem?_eq_none (Nat.le_of_lt hgt), List.getElem?_eq_none]
      simp only [List.length_singleton]
      omega

private theorem Numbered.push (h : t.Numbered) : (t.push frame readOnly).Numbered := by
  intro i e he
  rw [getElem?_push] at he
  split at he
  · next hi =>
    cases he
    exact hi.symm
  · exact h i e he

private theorem AllValid.push (h : t.AllValid) : (t.push frame readOnly).AllValid := by
  intro e he
  rw [PageTable.push, List.mem_append] at he
  rcases he with he | he
  · exact h e he
  · rw [List.mem_singleton.1 he]

@[simp] theorem mapped_extend (t : PageTable) (pages : List (Nat × Bool)) :
    (t.extend pages).mapped = t.mapped ++ pages.map Prod.fst := by
  induction pages generalizing t with
  | nil => simp
  | cons page rest ih => rw [extend_cons, ih, mapped_push, List.map_cons, List.append_assoc]; rfl

theorem Numbered.extend (h : t.Numbered) (pages : List (Nat × Bool)) :
    (t.extend pages).Numbered := by
  induction pages generalizing t with
  | nil => exact h
  | cons page rest ih => exact ih h.push

theorem AllValid.extend (h : t.AllValid) (pages : List (Nat × Bool)) :
    (t.extend pages).AllValid := by
  induction pages generalizing t with
  | nil => exact h
  | cons page rest ih => exact ih h.push

theorem getElem?_extend (t : PageTable) (pages : List (Nat × Bool)) (i : Nat) :
    (t.extend pages).entries[i]? =
      if i < t.length then t.entries[i]?
      else (pages[i - t.length]?).map fun page =>
        ⟨i, page.1, { valid := true, readOnly := page.2 }⟩ := by
  induction pages generalizing t with
  | nil =>
    by_cases hi : i < t.length
    · rw [if_pos hi, extend_nil]
    · rw [if_neg hi, extend_nil, List.getElem?_nil, Option.map_none]
      exact List.getElem?_eq_none (Nat.le_of_not_lt hi)
  | cons page rest ih =>
    rw [extend_cons, ih, length_push, getElem?_push]
    rcases Nat.lt_trichotomy i t.length with hlt | heq | hgt
    · have hne : i ≠ t.length := Nat.ne_of_lt hlt
      rw [if_pos (Nat.lt_succ_of_lt hlt), if_neg hne, if_pos hlt]
    · have hirr : ¬ i < t.length := by omega
      rw [if_pos (by omega : i < t.length + 1), if_pos heq, if_neg hirr, heq, Nat.sub_self]
      rfl
    · have hge : ¬ i < t.length + 1 := by omega
      have hirr : ¬ i < t.length := by omega
      have hsub : i - t.length = i - (t.length + 1) + 1 := by omega
      rw [if_neg hge, if_neg hirr, hsub, List.getElem?_cons_succ]

theorem Numbered.empty : Numbered {} := by
  intro i e he
  cases he

theorem AllValid.empty : AllValid {} := by
  intro e he
  cases he

end PageTable

theorem Region.length_protections (regions : List Region) :
    (Region.protections regions).length = Region.total regions := by
  induction regions with
  | nil => rfl
  | cons r rest ih =>
    have hcons : Region.protections (r :: rest) =
        List.replicate r.pages r.readOnly ++ Region.protections rest := rfl
    rw [hcons, List.length_append, List.length_replicate, ih]
    rfl

namespace AddressSpace

variable {ε : Type} {s : AddressSpace} {frames : List Nat} {protections : List Bool}
variable {regions : List Region}

def withPages (s : AddressSpace) (frames : List Nat) (protections : List Bool) : AddressSpace :=
  { s with
    machine.memory := s.machine.memory.clear frames
    table := s.table.extend (frames.zip protections) }

private theorem ensures_pushPages (hl : frames.length = protections.length) :
    Ensures (pushPages frames protections : EStateM (Stop ε) AddressSpace Unit) s
      (fun _ s' => (∀ f ∈ frames, f < s.machine.memory.size) ∧ s' = s.withPages frames protections)
      (fun stop s' => ∃ count f, (∀ g ∈ frames.take count, g < s.machine.memory.size) ∧
        s' = s.withPages (frames.take count) protections ∧
        f ∈ frames ∧ s.machine.memory.size ≤ f ∧ stop = .fault (.missingFrame f)) := by
  induction frames generalizing s protections with
  | nil =>
    simp [pushPages, withPages]
  | cons f rest ih =>
    cases protections with
    | nil => simp at hl
    | cons readOnly protections =>
      rw [pushPages, ensures_bind, ensures_get]
      by_cases hf : s.machine.memory.size ≤ f
      · rw [if_pos hf, ensures_bind, ensures_throw]
        exact ⟨0, f, by simp, rfl, List.mem_cons_self .., hf, rfl⟩
      · have hlt : f < s.machine.memory.size := Nat.lt_of_not_le hf
        rw [if_neg hf, ensures_bind, ensures_modify]
        refine (ih (Nat.succ.inj hl)).mono ?_ ?_
        · rintro - s' ⟨hrest, rfl⟩
          refine ⟨?_, rfl⟩
          simpa [hlt] using hrest
        · rintro stop s' ⟨count, g, hpushed, rfl, hg, hsize, rfl⟩
          refine ⟨count + 1, g, ?_, rfl, List.mem_cons_of_mem _ hg, ?_, rfl⟩
          · simpa [hlt] using hpushed
          · simpa using hsize

theorem ensures_map : Ensures (map regions) s
    (fun total s' => total = Region.total regions ∧ ∃ frames pool,
      s.machine.pool.acquireMany? (Region.total regions) = some (frames, pool) ∧
      (∀ f ∈ frames, f < s.machine.memory.size) ∧
      s' = { s with machine.pool := pool }.withPages frames (Region.protections regions))
    (fun stop s' =>
      (∃ e, s.machine.pool.available < Region.total regions ∧
        s' = { s with machine := s.machine.report e } ∧ stop = .refused .noMemory) ∨
      ∃ frames pool count f,
        s.machine.pool.acquireMany? (Region.total regions) = some (frames, pool) ∧
        (∀ g ∈ frames.take count, g < s.machine.memory.size) ∧
        s' = { s with machine.pool := pool }.withPages (frames.take count)
          (Region.protections regions) ∧
        f ∈ frames ∧
        ((s.machine.memory.size ≤ f ∧ stop = .fault (.missingFrame f)) ∨
          (pool.capacity ≤ f ∧ stop = .fault (.unmarkedFrame f)))) := by
  unfold map
  rw [ensures_bind, ensures_get]
  cases ha : s.machine.pool.acquireMany? (Region.total regions) with
  | none =>
    simp only [ha, ensures_bind, report, ensures_modify, ensures_refuse]
    exact Or.inl ⟨_, FramePool.acquireMany?_eq_none_iff.1 ha, rfl, trivial⟩
  | some taken =>
    obtain ⟨frames, pool⟩ := taken
    have hlength : frames.length = (Region.protections regions).length := by
      rw [(FramePool.available_of_acquireMany? ha).1, Region.length_protections]
    simp only [ha]
    rw [ensures_bind, ensures_modify]
    cases hfind : frames.find? fun frame => decide (pool.capacity ≤ frame) with
    | some f =>
      simp only [ensures_bind, ensures_throw]
      have hcap : pool.capacity ≤ f := by simpa using List.find?_some hfind
      exact Or.inr ⟨frames, pool, 0, f, rfl, by simp, rfl, List.mem_of_find?_eq_some hfind,
        Or.inr ⟨hcap, rfl⟩⟩
    | none =>
      simp only
      rw [ensures_bind]
      refine (ensures_pushPages hlength).mono ?_ ?_
      · rintro - s' ⟨hmem, rfl⟩
        exact ⟨rfl, frames, pool, rfl, hmem, rfl⟩
      · rintro stop s' ⟨count, f, hpushed, rfl, hf, hsize, rfl⟩
        exact Or.inr ⟨frames, pool, count, f, rfl, hpushed, rfl, hf, Or.inl ⟨hsize, rfl⟩⟩

/-- Pages are never refused to be taken back. -/
theorem ensures_release_fault : Ensures (release : EStateM (Stop ε) AddressSpace Nat) s
    (fun _ _ => True) (fun stop _ => ∃ f, stop = .fault f) := by
  unfold release
  rw [ensures_bind, ensures_get]
  simp only
  rcases s.machine.pool.releaseAll s.table.frames with ⟨pool, _ | f⟩
  · trivial
  · exact ⟨f, rfl⟩

/-- The frames of the valid pages go back when they are held, and the table is left empty. -/
theorem release_of_ledger {n : Nat} {held : List Nat}
    (h : s.machine.pool.Ledger n (s.table.frames ++ held)) :
    ∃ pool, (release : EStateM (Stop ε) AddressSpace Nat) s =
        .ok s.table.frames.length ⟨{ s.machine with pool }, {}⟩ ∧
      pool.Ledger n held ∧ pool.queue = s.machine.pool.queue ++ s.table.frames := by
  obtain ⟨pool, hpool, hledger, hqueue⟩ := FramePool.Ledger.releaseAll h
  refine ⟨pool, Ensures.eq_ok ?_, hledger, hqueue⟩
  unfold release
  rw [ensures_bind, ensures_get]
  simp only [hpool]
  exact ⟨rfl, rfl⟩

end AddressSpace

end PagedKernel

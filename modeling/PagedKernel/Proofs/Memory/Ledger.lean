import PagedKernel.Memory.FramePool

/-!
# The ledger of the frame pool

Every frame of the pool stands in the queue or is held by someone, in one place at most. The marks
say which frames stand in the queue. A frame that is held can be given back, and so neither a frame
that is free already nor one that the pool never had is ever released.
-/

namespace PagedKernel.FramePool

variable {p q : FramePool} {n count f : Nat} {held frames : List Nat}

/-- The pool manages the frames below `n`, and the frames `held` are out of it. -/
structure Ledger (p : FramePool) (n : Nat) (held : List Nat) : Prop where
  capacity : p.capacity = n
  marked : ∀ f, p.marks[f]? = some true ↔ f ∈ p.queue
  distinct : (p.queue ++ held).Nodup
  below : ∀ f ∈ p.queue ++ held, f < n

/-- No frame is lost: each stands in the queue or is held. -/
def Balanced (p : FramePool) (n : Nat) (held : List Nat) : Prop :=
  p.available + held.length = n

theorem Ledger.full (n : Nat) : (FramePool.full n).Ledger n [] where
  capacity := by simp [FramePool.capacity, FramePool.full]
  marked f := by simp [FramePool.full, Array.getElem?_replicate]
  distinct := by simpa [FramePool.full] using List.nodup_range
  below := by simp [FramePool.full]

theorem Balanced.full (n : Nat) : (FramePool.full n).Balanced n [] := by
  simp [Balanced]

theorem Ledger.perm {held' : List Nat} (h : p.Ledger n held) (hp : held.Perm held') :
    p.Ledger n held' where
  capacity := h.capacity
  marked := h.marked
  distinct := (hp.append_left p.queue).nodup_iff.1 h.distinct
  below f hf := h.below f ((hp.append_left p.queue).mem_iff.2 hf)

theorem Ledger.sublist {held' : List Nat} (h : p.Ledger n held) (hs : held'.Sublist held) :
    p.Ledger n held' where
  capacity := h.capacity
  marked := h.marked
  distinct := h.distinct.sublist (hs.append_left p.queue)
  below f hf := h.below f ((hs.append_left p.queue).subset hf)

theorem Ledger.not_mem_queue (h : p.Ledger n held) (hf : f ∈ held) : f ∉ p.queue :=
  fun hq => (List.nodup_append.1 h.distinct).2.2 f hq f hf rfl

theorem Ledger.held_nodup (h : p.Ledger n held) : held.Nodup := (List.nodup_append.1 h.distinct).2.1

theorem Ledger.held_lt (h : p.Ledger n held) (hf : f ∈ held) : f < n :=
  h.below f (List.mem_append_right _ hf)

theorem Ledger.marks_eq {held' : List Nat} (h : p.Ledger n held) (h' : q.Ledger n held')
    (hq : q.queue.Perm p.queue) : q.marks = p.marks := by
  have hsize : q.marks.size = p.marks.size := h'.capacity.trans h.capacity.symm
  apply Array.ext hsize
  intro i hi hi'
  have hiff : q.marks[i]? = some true ↔ p.marks[i]? = some true := by
    rw [h'.marked, h.marked, hq.mem_iff]
  rw [Array.getElem?_eq_getElem hi, Array.getElem?_eq_getElem hi', Option.some.injEq,
    Option.some.injEq] at hiff
  exact Bool.eq_iff_iff.2 hiff

private theorem getElem?_unmark (marks : Array Bool) (frames : List Nat) (f : Nat) :
    (unmark marks frames)[f]? =
      if f ∈ frames then (marks[f]?).map fun _ => false else marks[f]? := by
  induction frames generalizing marks with
  | nil => simp [unmark]
  | cons g rest ih =>
    have hstep : unmark marks (g :: rest) = unmark (marks.setIfInBounds g false) rest := rfl
    rw [hstep, ih, Array.getElem?_setIfInBounds]
    by_cases hg : g = f
    · subst hg
      by_cases hs : g < marks.size <;> simp [hs]
    · by_cases hr : f ∈ rest <;> simp [hr, hg, Ne.symm hg]

@[simp] theorem size_unmark (marks : Array Bool) (frames : List Nat) :
    (unmark marks frames).size = marks.size := by
  induction frames generalizing marks with
  | nil => rfl
  | cons g rest ih =>
    have hstep : unmark marks (g :: rest) = unmark (marks.setIfInBounds g false) rest := rfl
    rw [hstep, ih, Array.size_setIfInBounds]

theorem acquireMany?_eq_some (h : p.acquireMany? count = some (frames, q)) :
    frames = p.queue.take count ∧ q = ⟨p.queue.drop count, unmark p.marks frames⟩ ∧
      count ≤ p.available := by
  unfold acquireMany? at h
  split at h
  · cases h
  · next hc =>
    simp only [Option.some.injEq, Prod.mk.injEq] at h
    obtain ⟨rfl, rfl⟩ := h
    exact ⟨rfl, rfl, by omega⟩

theorem Ledger.acquireMany (h : p.Ledger n held) (ha : p.acquireMany? count = some (frames, q)) :
    q.Ledger n (frames ++ held) ∧ frames ++ q.queue = p.queue ∧ frames.length = count := by
  obtain ⟨hf, hq, hc⟩ := acquireMany?_eq_some ha
  have hqueue : frames ++ q.queue = p.queue := by
    rw [hf, hq]
    exact List.take_append_drop count p.queue
  have hperm : (q.queue ++ (frames ++ held)).Perm (p.queue ++ held) := by
    rw [← hqueue, ← List.append_assoc]
    exact List.perm_append_comm.append_right held
  have hnodup : (frames ++ q.queue).Nodup := hqueue ▸ (List.nodup_append.1 h.distinct).1
  refine ⟨⟨?_, ?_, hperm.nodup_iff.2 h.distinct, fun f hf => h.below f (hperm.mem_iff.1 hf)⟩,
    hqueue, ?_⟩
  · rw [hq]
    simpa [FramePool.capacity] using h.capacity
  · intro f
    have hm : q.marks = unmark p.marks frames := by rw [hq]
    rw [hm, getElem?_unmark]
    by_cases hf : f ∈ frames
    · have hn : f ∉ q.queue := fun hr => (List.nodup_append.1 hnodup).2.2 f hf f hr rfl
      simp [hf, hn]
    · rw [if_neg hf, h.marked f, ← hqueue]
      simp [hf]
  · rw [hf, List.length_take]
    exact Nat.min_eq_left hc

theorem Ledger.release (h : p.Ledger n (f :: held)) :
    ∃ q, p.release f = .ok q ∧ q.Ledger n held ∧ q.queue = p.queue ++ [f] := by
  have hsize : p.marks.size = n := h.capacity
  have hlt : f < p.marks.size := by
    rw [hsize]
    exact h.held_lt (List.mem_cons_self ..)
  have hfree : f ∉ p.queue := h.not_mem_queue (List.mem_cons_self ..)
  have hmark : p.marks[f]? = some false := by
    have hne := mt (h.marked f).1 hfree
    rw [Array.getElem?_eq_getElem hlt] at hne ⊢
    simpa using hne
  refine ⟨⟨p.queue ++ [f], p.marks.setIfInBounds f true⟩, ?_, ⟨?_, ?_, ?_, ?_⟩, rfl⟩
  · simp only [FramePool.release, hmark]
  · simpa [FramePool.capacity] using h.capacity
  · intro g
    rw [Array.getElem?_setIfInBounds]
    by_cases hg : f = g
    · subst hg
      simp [hlt]
    · simp [hg, Ne.symm hg, h.marked g]
  · simpa using h.distinct
  · intro g hg
    exact h.below g (by simpa using hg)

theorem Ledger.releaseAll (h : p.Ledger n (frames ++ held)) :
    ∃ q, p.releaseAll frames = (q, none) ∧ q.Ledger n held ∧ q.queue = p.queue ++ frames := by
  induction frames generalizing p with
  | nil => exact ⟨p, rfl, h, (List.append_nil _).symm⟩
  | cons f rest ih =>
    obtain ⟨q, hq, hl, hqueue⟩ := Ledger.release h
    obtain ⟨r, hr, hl, hrest⟩ := ih hl
    refine ⟨r, ?_, hl, ?_⟩
    · simp only [FramePool.releaseAll, hq, hr]
    · rw [hrest, hqueue, List.append_assoc, List.singleton_append]

end PagedKernel.FramePool

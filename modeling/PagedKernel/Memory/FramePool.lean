import PagedKernel.Stop

/-! # The pool of free frames

Free frames stand in a queue: the frame that has been free the longest is handed out first. A mark
per frame tells whether the frame is in the queue. -/

namespace PagedKernel

/-- The free frames of a machine. -/
structure FramePool where
  queue : List Nat
  marks : Array Bool
deriving DecidableEq, Repr

namespace FramePool

def full (count : Nat) : FramePool := ⟨List.range count, Array.replicate count true⟩

def capacity (p : FramePool) : Nat := p.marks.size

def available (p : FramePool) : Nat := p.queue.length

def unmark (marks : Array Bool) (frames : List Nat) : Array Bool :=
  frames.foldl (fun marks f => marks.setIfInBounds f false) marks

def acquire? (p : FramePool) : Option (Nat × FramePool) :=
  match p.queue with
  | [] => none
  | f :: rest => some (f, ⟨rest, unmark p.marks [f]⟩)

/-- Hands out `count` frames, or none at all. -/
def acquireMany? (p : FramePool) (count : Nat) : Option (List Nat × FramePool) :=
  if p.available < count then none
  else
    let frames := p.queue.take count
    some (frames, ⟨p.queue.drop count, unmark p.marks frames⟩)

def release (p : FramePool) (f : Nat) : Except Fault FramePool :=
  match p.marks[f]? with
  | some false => .ok ⟨p.queue ++ [f], p.marks.setIfInBounds f true⟩
  | some true => .error (.doubleRelease f)
  | none => .error (.foreignFrame f)

/-- Takes frames back one after another, and stops at the first that it refuses. -/
def releaseAll : FramePool → List Nat → FramePool × Option Fault
  | p, [] => (p, none)
  | p, f :: rest =>
    match p.release f with
    | .ok p => releaseAll p rest
    | .error fault => (p, some fault)

@[simp] theorem available_full (count : Nat) : (full count).available = count := by
  simp [available, full]

theorem acquireMany?_eq_none_iff {p : FramePool} {count : Nat} :
    p.acquireMany? count = none ↔ p.available < count := by
  unfold acquireMany?
  split <;> simp_all

theorem available_of_acquireMany? {p q : FramePool} {count : Nat} {frames : List Nat}
    (h : p.acquireMany? count = some (frames, q)) :
    frames.length = count ∧ p.available = count + q.available := by
  unfold acquireMany? at h
  split at h
  · cases h
  · next hc =>
    simp only [Option.some.injEq, Prod.mk.injEq] at h
    obtain ⟨rfl, rfl⟩ := h
    simp only [available, List.length_take, List.length_drop] at hc ⊢
    omega

end FramePool

end PagedKernel

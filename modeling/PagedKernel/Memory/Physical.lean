import PagedKernel.Address
import PagedKernel.Word

/-! # Physical memory

Memory is a row of frames. A transfer stays within one frame: it stops at the frame's end. -/

namespace PagedKernel

abbrev Frame : Type := Vector UInt8 pageSize

namespace Frame

def filled (b : UInt8) : Frame := Vector.replicate pageSize b

def zero : Frame := filled 0

def ofBytes (data : Bytes) : Frame :=
  let source := data.toArray
  Vector.ofFn fun i => source.getD i 0

def slice (f : Frame) (offset length : Nat) : Bytes :=
  (f.toArray.extract offset (offset + length)).toList

def patch (f : Frame) (offset : Nat) (data : Bytes) : Frame :=
  let source := data.toArray
  Vector.ofFn fun i => if offset ≤ i.val then source.getD (i.val - offset) f[i] else f[i]

def bytes (f : Frame) : Bytes := f.toList

end Frame

structure Memory where
  frames : Array Frame
  size_le : frames.size ≤ PhysicalAddress.maxFrames

namespace Memory

def zeroed (count : Nat) : Memory where
  frames := Array.replicate (min count PhysicalAddress.maxFrames) Frame.zero
  size_le := by simp only [Array.size_replicate]; exact Nat.min_le_right _ _

def size (m : Memory) : Nat := m.frames.size

def frame? (m : Memory) (n : Nat) : Option Frame := m.frames[n]?

/-- Gives a frame new contents; a frame that is not there stays away. -/
def setFrame (m : Memory) (n : Nat) (f : Frame) : Memory where
  frames := m.frames.setIfInBounds n f
  size_le := by simpa using m.size_le

/-- At most `length` bytes from an address, none from a frame that is not there. -/
def read? (m : Memory) (a : PhysicalAddress) (length : Nat) : Option Bytes :=
  (m.frame? a.frame).map fun f => f.slice a.offset length

def room (a : PhysicalAddress) (length : Nat) : Nat := min length (pageSize - a.offset)

/-- Writes as much of `data` at an address as fits its frame, and tells how much. -/
def write? (m : Memory) (a : PhysicalAddress) (data : Bytes) : Option (Nat × Memory) :=
  (m.frame? a.frame).map fun f =>
    (room a data.length, m.setFrame a.frame (f.patch a.offset data))

@[simp] theorem size_setFrame (m : Memory) (n : Nat) (f : Frame) : (m.setFrame n f).size = m.size := by
  simp [size, setFrame]

theorem frame?_setFrame (m : Memory) (n k : Nat) (f : Frame) :
    (m.setFrame n f).frame? k = if n = k ∧ k < m.size then some f else m.frame? k := by
  simp only [frame?, setFrame, size, Array.getElem?_setIfInBounds]
  by_cases h : n = k <;> by_cases hk : k < m.frames.size <;> simp_all

theorem frame?_isSome_iff (m : Memory) (n : Nat) : (m.frame? n).isSome ↔ n < m.size := by
  simp [frame?, size]

end Memory

end PagedKernel

import PagedKernel.Text.Hex

/-! # Virtual and physical addresses

The machine names bytes with 32 bits. An address is a page (or frame) number and an offset inside
the page; a page table exchanges the page number for a frame number and keeps the offset. -/

namespace PagedKernel

abbrev pageSize : Nat := 4096

/-- The highest address that the machine can name. -/
abbrev addressLimit : Nat := 0xFFFFFFFF

/-- Number of values of a counter, which is 64 bits wide. -/
abbrev counterRange : Nat := 0x10000000000000000

structure VirtualAddress where
  toNat : Nat
  le_limit : toNat ≤ addressLimit
deriving DecidableEq, Repr

namespace VirtualAddress

def ofNat? (n : Nat) : Option VirtualAddress :=
  if h : n ≤ addressLimit then some ⟨n, h⟩ else none

/-- A register as an address: negative registers hold none. -/
def ofRegister? (r : Int32) : Option VirtualAddress :=
  if r < 0 then none else ofNat? r.toInt.toNat

def page (a : VirtualAddress) : Nat := a.toNat / pageSize

def offset (a : VirtualAddress) : Nat := a.toNat % pageSize

def text (a : VirtualAddress) : String := Text.hex a.toNat

def label (a : VirtualAddress) : String := s!"Va({a.text})"

theorem ofNat?_eq_some_iff {n : Nat} {a : VirtualAddress} : ofNat? n = some a ↔ a.toNat = n := by
  unfold ofNat?
  split
  · constructor
    · intro h; cases h; rfl
    · rintro rfl; rfl
  · next hn =>
    constructor
    · intro h; cases h
    · rintro rfl; exact absurd a.le_limit hn

theorem ofNat?_eq_none_iff {n : Nat} : ofNat? n = none ↔ addressLimit < n := by
  unfold ofNat?
  split <;> simp <;> omega

end VirtualAddress

structure PhysicalAddress where
  toNat : Nat
deriving DecidableEq, Repr

namespace PhysicalAddress

def ofNat? (n : Nat) : Option PhysicalAddress :=
  if n ≤ addressLimit then some ⟨n⟩ else none

/-- Byte `offset` of a frame. The frame number is shifted within 64 bits, so its highest twelve
bits are lost. -/
def ofFrame (frame offset : Nat) : PhysicalAddress :=
  ⟨frame * pageSize % counterRange + offset % pageSize⟩

def frame (a : PhysicalAddress) : Nat := a.toNat / pageSize

def offset (a : PhysicalAddress) : Nat := a.toNat % pageSize

def text (a : PhysicalAddress) : String := Text.hex a.toNat

def label (a : PhysicalAddress) : String := s!"Pa({a.text})"

/-- Frames that have distinct physical addresses. -/
abbrev maxFrames : Nat := 0x10000000000000

theorem frame_ofFrame {frame offset : Nat} (h : frame < maxFrames) :
    (ofFrame frame offset).frame = frame := by
  simp only [PhysicalAddress.frame, ofFrame, pageSize, counterRange, maxFrames] at *
  omega

theorem offset_ofFrame (frame offset : Nat) :
    (ofFrame frame offset).offset = offset % pageSize := by
  simp only [PhysicalAddress.offset, ofFrame, pageSize, counterRange]
  omega

end PhysicalAddress

/-- The range of `length` bytes from `start`, both ends of which must be addresses. The end is
excluded from the range and still has to be nameable. -/
def userRange? (start length : Nat) : Option (VirtualAddress × VirtualAddress) :=
  match VirtualAddress.ofNat? start, VirtualAddress.ofNat? (start + length) with
  | some first, some stop => some (first, stop)
  | _, _ => none

end PagedKernel

import PagedKernel.Word

/-! # UTF-8 text

Strict decoding refuses ill-formed bytes. Lossy decoding puts U+FFFD in the place of each maximal
part that begins a character and cannot be completed, and of each byte that begins none. -/

namespace PagedKernel.Text

def utf8 (s : String) : Bytes := s.toUTF8.toList

def ofUtf8? (bs : Bytes) : Option String := String.fromUTF8? ⟨bs.toArray⟩

/-- A character under way: the bits so far, how many bytes are still owed, and the least and the
greatest value that the next one may have. -/
structure Partial where
  bits : Nat
  owed : Nat
  low : Nat
  high : Nat
deriving DecidableEq, Repr

/-- What a byte begins: a whole character, a character under way, or nothing. -/
inductive Lead where
  | whole (c : Char)
  | pending (p : Partial)
  | invalid
deriving DecidableEq, Repr

def lead (b : Nat) : Lead :=
  if b ≤ 0x7F then .whole (Char.ofNat b)
  else if 0xC2 ≤ b ∧ b ≤ 0xDF then .pending ⟨b - 0xC0, 1, 0x80, 0xBF⟩
  else if b = 0xE0 then .pending ⟨0, 2, 0xA0, 0xBF⟩
  else if b = 0xED then .pending ⟨0xD, 2, 0x80, 0x9F⟩
  else if 0xE1 ≤ b ∧ b ≤ 0xEF then .pending ⟨b - 0xE0, 2, 0x80, 0xBF⟩
  else if b = 0xF0 then .pending ⟨0, 3, 0x90, 0xBF⟩
  else if 0xF1 ≤ b ∧ b ≤ 0xF3 then .pending ⟨b - 0xF0, 3, 0x80, 0xBF⟩
  else if b = 0xF4 then .pending ⟨4, 3, 0x80, 0x8F⟩
  else .invalid

def Partial.next (p : Partial) (b : Nat) : Lead :=
  if p.low ≤ b ∧ b ≤ p.high then
    let bits := p.bits * 64 + (b - 0x80)
    if p.owed ≤ 1 then .whole (Char.ofNat bits) else .pending ⟨bits, p.owed - 1, 0x80, 0xBF⟩
  else .invalid

def replacement : Char := Char.ofNat 0xFFFD

def replaceInvalid : Option Partial → Bytes → List Char
  | none, [] => []
  | some _, [] => [replacement]
  | none, b :: bs =>
    match lead b.toNat with
    | .whole c => c :: replaceInvalid none bs
    | .pending p => replaceInvalid (some p) bs
    | .invalid => replacement :: replaceInvalid none bs
  | some p, b :: bs =>
    match p.next b.toNat with
    | .whole c => c :: replaceInvalid none bs
    | .pending q => replaceInvalid (some q) bs
    | .invalid =>
      replacement ::
        match lead b.toNat with
        | .whole c => c :: replaceInvalid none bs
        | .pending q => replaceInvalid (some q) bs
        | .invalid => replacement :: replaceInvalid none bs

/-- Well-formed bytes are decoded as they are, all others with their ill-formed parts replaced. -/
def ofUtf8Lossy (bs : Bytes) : String :=
  match ofUtf8? bs with
  | some s => s
  | none => String.ofList (replaceInvalid none bs)

theorem ofUtf8Lossy_of_wellFormed {bs : Bytes} {s : String} (h : ofUtf8? bs = some s) :
    ofUtf8Lossy bs = s := by
  simp [ofUtf8Lossy, h]

end PagedKernel.Text

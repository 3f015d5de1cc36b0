import PagedKernel.Address
import PagedKernel.Errno
import PagedKernel.Files.OpenFile
import PagedKernel.Text.Hex

/-! # Executable images

An image is a header, a table of section headers, and the contents of the sections. All numbers are
little-endian:

* the header: magic (2 bytes), number of sections (2), entry point (4);
* a section header: name (8 bytes), address (4), size (4), offset in the file (4), kind (4). -/

namespace PagedKernel

inductive SectionKind where
  | text
  | data
  | bss
  | rdata
deriving DecidableEq, Repr

namespace SectionKind

def code : SectionKind → Nat
  | text => 0x20
  | data => 0x40
  | bss => 0x80
  | rdata => 0x100

def ofCode? (n : Nat) : Option SectionKind := [text, data, bss, rdata].find? fun k => k.code = n

def readOnly : SectionKind → Bool
  | text | rdata => true
  | data | bss => false

def initialized : SectionKind → Bool
  | bss => false
  | text | data | rdata => true

theorem ofCode?_eq_some_iff {n : Nat} {k : SectionKind} : ofCode? n = some k ↔ k.code = n := by
  constructor
  · intro h
    simpa using List.find?_some h
  · rintro rfl
    cases k <;> rfl

end SectionKind

structure Section where
  name : String
  kind : SectionKind
  address : Nat
  size : Nat
  offset : Nat
deriving DecidableEq, Repr

namespace Section

def firstPage (s : Section) : Nat := s.address / pageSize

def pages (s : Section) : Nat := (s.size + (pageSize - 1)) / pageSize

def readOnly (s : Section) : Bool := s.kind.readOnly

end Section

inductive ImageError where
  | truncated
  | badMagic (magic : Nat)
  | unknownKind (name : String) (kind : Nat)
  | unaligned (name : String)
  | io (error : Errno)
deriving DecidableEq, Repr

def ImageError.message : ImageError → String
  | truncated => "truncated image"
  | badMagic magic => s!"bad magic {Text.hex4 magic}"
  | unknownKind name kind => s!"section {name}: unknown kind {Text.hex kind}"
  | unaligned name => s!"section {name}: not page aligned"
  | io error => s!"read failed: {error.message}"

/-- An image whose headers were read. It keeps its file open until it is closed. -/
structure Image where
  entry : Nat
  sections : List Section
  file : Option OpenFile
deriving DecidableEq, Repr

namespace Image

abbrev magic : Nat := 0x0162

abbrev headerSize : Nat := 8

abbrev sectionHeaderSize : Nat := 24

abbrev sectionNameSize : Nat := 8

end Image

end PagedKernel

import PagedKernel.Address
import PagedKernel.Image.Basic

/-! # Writing images

Sections are laid out one after another, each from a page border on; a section can also be put at an
address of its own. -/

namespace PagedKernel

structure SectionPlan where
  name : String
  kind : SectionKind
  address : Nat
  size : Nat
  data : Bytes
deriving DecidableEq, Repr

/-- An image under construction, with the address that the next section gets. -/
structure ImageBuilder where
  entry : Nat
  nextAddress : Nat := 0
  sections : List SectionPlan := []
deriving DecidableEq, Repr

namespace ImageBuilder

def roundUp (n : Nat) : Nat := (n + (pageSize - 1)) / pageSize * pageSize

def push (b : ImageBuilder) (s : SectionPlan) : ImageBuilder :=
  { b with
    nextAddress := roundUp (s.address + s.size)
    sections := b.sections ++ [s] }

/-- Puts a section at an address. Only initialized sections have contents. -/
def addSectionAt (b : ImageBuilder) (name : String) (kind : SectionKind) (address : Nat)
    (data : Bytes) : ImageBuilder :=
  b.push ⟨name, kind, address, data.length, if kind.initialized then data else []⟩

def addSection (b : ImageBuilder) (name : String) (kind : SectionKind) (data : Bytes) :
    ImageBuilder :=
  b.addSectionAt name kind b.nextAddress data

def addBss (b : ImageBuilder) (name : String) (size : Nat) : ImageBuilder :=
  b.push ⟨name, .bss, b.nextAddress, size, []⟩

def nameField (name : String) : Bytes :=
  let cut := (Text.utf8 name).take Image.sectionNameSize
  cut ++ List.replicate (Image.sectionNameSize - cut.length) 0

def sectionHeader (s : SectionPlan) (offset : Nat) : Bytes :=
  nameField s.name ++ littleEndian 4 s.address ++ littleEndian 4 s.size ++
    littleEndian 4 offset ++ littleEndian 4 s.kind.code

/-- The headers of sections whose contents lie one after another from an offset on. -/
def sectionTable (offset : Nat) : List SectionPlan → Bytes
  | [] => []
  | s :: rest => sectionHeader s offset ++ sectionTable (offset + s.data.length) rest

def build (b : ImageBuilder) : Bytes :=
  let count := b.sections.length
  littleEndian 2 Image.magic ++ littleEndian 2 count ++ littleEndian 4 b.entry ++
    sectionTable (Image.headerSize + count * Image.sectionHeaderSize) b.sections ++
    b.sections.flatMap (·.data)

end ImageBuilder

end PagedKernel

import PagedKernel.Address
import PagedKernel.Image.Basic
import PagedKernel.Memory.Physical

/-! # Reading images

Section headers are checked in order, and in each header first the kind, then the alignment, then
the bounds. A file that is refused is closed. -/

namespace PagedKernel

/-- A section header as it stands in the file. -/
structure SectionHeader where
  name : String
  address : Nat
  size : Nat
  offset : Nat
  kind : Nat
deriving DecidableEq, Repr

def numberAt (bs : Bytes) (place width : Nat) : Nat := ofLittleEndian ((bs.drop place).take width)

namespace SectionHeader

/-- Reads a section header. A name ends at its first zero byte. -/
def ofBytes (raw : Bytes) : SectionHeader where
  name := Text.ofUtf8Lossy ((raw.take Image.sectionNameSize).takeWhile (· ≠ 0))
  address := numberAt raw 8 4
  size := numberAt raw 12 4
  offset := numberAt raw 16 4
  kind := numberAt raw 20 4

def check (h : SectionHeader) (length : Nat) : Except ImageError Section :=
  match SectionKind.ofCode? h.kind with
  | none => .error (.unknownKind h.name h.kind)
  | some kind =>
    if h.address % pageSize ≠ 0 then .error (.unaligned h.name)
    else if kind.initialized ∧ length < h.offset + h.size then .error .truncated
    else .ok ⟨h.name, kind, h.address, h.size, h.offset⟩

end SectionHeader

def sectionHeaders : (count : Nat) → Bytes → List SectionHeader
  | 0, _ => []
  | count + 1, raw =>
    SectionHeader.ofBytes (raw.take Image.sectionHeaderSize) ::
      sectionHeaders count (raw.drop Image.sectionHeaderSize)

/-- The sections up to the first header that is refused, and why it is. -/
def checkHeaders (length : Nat) : List SectionHeader → List Section × Option ImageError
  | [] => ([], none)
  | h :: rest =>
    match h.check length with
    | .error e => ([], some e)
    | .ok s =>
      let (sections, refusal) := checkHeaders length rest
      (s :: sections, refusal)

namespace Image

def readExact (position length : Nat) : EStateM ImageError Channel Bytes := do
  let data ← mapStop ImageError.io (Channel.readAt position length)
  if data.length = length then return data else throw .truncated

/-- What the headers of a file say: the entry point, the sections up to the first that is refused,
and why it is. -/
structure Survey where
  entry : Nat
  accepted : List Section
  refusal : Option ImageError

def survey : EStateM ImageError Channel Survey := do
  let header ← readExact 0 headerSize
  let found := numberAt header 0 2
  if found ≠ magic then throw (.badMagic found)
  let count := numberAt header 2 2
  let table ← readExact headerSize (count * sectionHeaderSize)
  let (accepted, refusal) := checkHeaders (← get).length (sectionHeaders count table)
  return ⟨numberAt header 4 4, accepted, refusal⟩

/-- What came of opening an image: the sections that were accepted, in any case. -/
structure Opening where
  accepted : List Section
  outcome : Except ImageError Image
  devices : Devices

def ofFile (file : OpenFile) (devices : Devices) : Opening :=
  match survey ⟨file, devices⟩ with
  | .error e c => ⟨[], .error e, c.close.devices⟩
  | .ok s c =>
    match s.refusal with
    | some e => ⟨s.accepted, .error e, c.close.devices⟩
    | none => ⟨s.accepted, .ok ⟨s.entry, s.accepted, some c.file⟩, c.devices⟩

/-- The contents of one page of a section. Bytes behind the section's end are zero. -/
def loadPage (devices : Devices) (index page : Nat) : EStateM Errno Image Frame := do
  let image ← get
  match image.sections[index]? with
  | none => throw .invalidArgument
  | some s =>
    if s.pages ≤ page then throw .invalidArgument
    match image.file with
    | none => throw .badFileDescriptor
    | some file =>
      let start := page * pageSize
      if s.kind.initialized then
        let size := min (s.size - start) pageSize
        match Channel.readAt (s.offset + start) size ⟨file, devices⟩ with
        | .ok data c =>
          set { image with file := some c.file }
          if data.length = size then return Frame.ofBytes data else throw .ioError
        | .error e c =>
          set { image with file := some c.file }
          throw e
      else return Frame.zero

def close (image : Image) (devices : Devices) : Image × Devices :=
  match image.file with
  | none => (image, devices)
  | some file => ({ image with file := none }, (file.close devices).2)

end Image

end PagedKernel

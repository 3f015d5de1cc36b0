import PagedKernel.Files.Console
import PagedKernel.Files.FileSystem
import PagedKernel.Stop

/-! # Open files

An open file is a value: a file with a position, or one of the console's two ends. What it reads and
writes lies in the devices. A file can be limited to short transfers and to a number of calls. -/

namespace PagedKernel

/-- The devices behind open files, and what else the machine has of its host. -/
structure Devices where
  files : FileSystem := {}
  console : Console := {}
  /-- Why the host refuses a thread, by the ordinal of the process that it is for. -/
  refusals : Assoc Nat String := []
deriving DecidableEq, Repr

/-- What an open file is bound to. A closed one is bound to nothing. -/
inductive Source where
  | file (name : String) (id : Option FileId) (position : Nat)
  | input (isOpen : Bool)
  | output (isOpen : Bool)
deriving DecidableEq, Repr

/-- The longest transfers and the number of calls that an open file allows; absent means any. -/
structure Limits where
  maxRead : Option Nat := none
  maxWrite : Option Nat := none
  calls : Option Nat := none
deriving DecidableEq, Repr

structure OpenFile where
  source : Source
  limits : Limits := {}
deriving DecidableEq, Repr

/-- An open file with the devices behind it. -/
structure Channel where
  file : OpenFile
  devices : Devices
deriving Repr

namespace Source

def name : Source → String
  | file name _ _ => name
  | input _ => "stdin"
  | output _ => "stdout"

/-- Whether the source counts as an open file of the file system. -/
def holdsFile : Source → Bool
  | file _ id _ => id.isSome
  | _ => false

def read (d : Devices) (length : Nat) : Source → Except Errno (Bytes × Source × Devices)
  | file name (some id) position =>
    let data := (d.files.bytes id).slice position length
    .ok (data, file name (some id) (position + data.length), d)
  | input true =>
    let (data, console) := d.console.take length
    .ok (data, input true, { d with console })
  | file _ none _ | input false | output _ => .error .badFileDescriptor

def readAt (d : Devices) (position length : Nat) : Source → Except Errno Bytes
  | file _ (some id) _ => .ok ((d.files.bytes id).slice position length)
  | file _ none _ => .error .badFileDescriptor
  | input _ | output _ => .error .invalidArgument

def write (d : Devices) (data : Bytes) : Source → Except Errno (Nat × Source × Devices)
  | file name (some id) position =>
    let contents := (d.files.bytes id).overwrite position data
    .ok (data.length, file name (some id) (position + data.length),
      { d with files := d.files.setBytes id contents })
  | output true => .ok (data.length, output true, { d with console := d.console.print data })
  | file _ none _ | input _ | output false => .error .badFileDescriptor

/-- How many bytes there are; a console and a closed file have none. -/
def length (d : Devices) : Source → Nat
  | file _ (some id) _ => (d.files.bytes id).length
  | _ => 0

def close (d : Devices) : Source → Source × Devices
  | file name (some _) position => (file name none position, { d with files := d.files.closed })
  | file name none position => (file name none position, d)
  | input _ => (input false, d)
  | output _ => (output false, d)

end Source

namespace OpenFile

def stdin : OpenFile := ⟨.input true, {}⟩

def stdout : OpenFile := ⟨.output true, {}⟩

def name (f : OpenFile) : String := f.source.name

def length (f : OpenFile) (d : Devices) : Nat := f.source.length d

def close (f : OpenFile) (d : Devices) : OpenFile × Devices :=
  let (source, devices) := f.source.close d
  ({ f with source }, devices)

def useCall (f : OpenFile) : Option OpenFile :=
  match f.limits.calls with
  | none => some f
  | some 0 => none
  | some (n + 1) => some { f with limits := { f.limits with calls := some n } }

def within (length : Nat) : Option Nat → Nat
  | none => length
  | some most => min length most

end OpenFile

def Devices.open? (d : Devices) (name : String) (create : Bool) : Option (OpenFile × Devices) :=
  (d.files.open? name create).map fun (id, files) =>
    (⟨.file name (some id) 0, {}⟩, { d with files })

namespace Channel

def useCall : EStateM Errno Channel Unit := fun c =>
  match c.file.useCall with
  | some file => .ok () { c with file }
  | none => .error .ioError c

def read (length : Nat) : EStateM Errno Channel Bytes := do
  useCall
  let c ← get
  match c.file.source.read c.devices (OpenFile.within length c.file.limits.maxRead) with
  | .ok (data, source, devices) =>
    set { c with file.source := source, devices }
    return data
  | .error e => throw e

def readAt (position length : Nat) : EStateM Errno Channel Bytes := do
  useCall
  let c ← get
  match c.file.source.readAt c.devices position
      (OpenFile.within length c.file.limits.maxRead) with
  | .ok data => return data
  | .error e => throw e

/-- Writes the bytes, or as many as the file takes at once, and tells how many. -/
def write (data : Bytes) : EStateM Errno Channel Nat := do
  useCall
  let c ← get
  match c.file.source.write c.devices
      (data.take (OpenFile.within data.length c.file.limits.maxWrite)) with
  | .ok (count, source, devices) =>
    set { c with file.source := source, devices }
    return count
  | .error e => throw e

def length (c : Channel) : Nat := c.file.length c.devices

def close (c : Channel) : Channel :=
  let (file, devices) := c.file.close c.devices
  { file, devices }

end Channel

end PagedKernel

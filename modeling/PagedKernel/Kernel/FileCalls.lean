import PagedKernel.Kernel.Turn

/-! # System calls on files

The data of a call moves in chunks of a page. Reading stops at the first chunk that the file does
not fill. Writing checks the whole buffer first, so nothing is written from a buffer that cannot be
read. -/

namespace PagedKernel.Turn

def sizeArgument (r : Int32) : Call Nat :=
  if r < 0 then refuse .invalidArgument else pure r.toInt.toNat

def openNamed (create : Bool) (q : CallRequest) : Call Nat := do
  let name ← stringArgument q.arg1
  onDesk (Desk.openFile name create)

def createCall (q : CallRequest) : Call Nat := openNamed true q

def openCall (q : CallRequest) : Call Nat := openNamed false q

/-- Reads `size` bytes from a slot to an address, in `chunks` chunks at most, and tells how many
bytes came. -/
def readChunks (slot address : Nat) : (chunks size : Nat) → Call Nat
  | 0, _ => pure 0
  | chunks + 1, size =>
    if size = 0 then pure 0
    else do
      let wanted := min size pageSize
      let data ← onDesk (Desk.onFile slot (Channel.read wanted))
      let _ ← onMemory (UserMemory.putBytes address data)
      if data.length < wanted then return data.length
      let more ← readChunks slot (address + data.length) chunks (size - data.length)
      return data.length + more

def writeChunks (slot address : Nat) : (chunks size : Nat) → Call Unit
  | 0, _ => pure ()
  | chunks + 1, size =>
    if size = 0 then pure ()
    else do
      let wanted := min size pageSize
      let data ← onMemory (UserMemory.fetch address wanted)
      if data.length ≠ wanted then refuse .badAddress
      let count ← onDesk (Desk.onFile slot (Channel.write data))
      if count ≠ wanted then refuse .ioError
      writeChunks slot (address + wanted) chunks (size - wanted)

def chunkCount (size : Nat) : Nat := (size + (pageSize - 1)) / pageSize

def readCall (q : CallRequest) : Call Nat := do
  let va ← onMemory (UserMemory.pointer q.arg2)
  let (slot, _) ← onDesk (Desk.file q.arg1.toInt)
  let size ← sizeArgument q.arg3
  readChunks slot va.toNat (chunkCount size) size

def writeCall (q : CallRequest) : Call Nat := do
  let va ← onMemory (UserMemory.pointer q.arg2)
  let (slot, _) ← onDesk (Desk.file q.arg1.toInt)
  let size ← sizeArgument q.arg3
  onMemory (UserMemory.checkRange va.toNat size .read)
  writeChunks slot va.toNat (chunkCount size) size
  return size

def closeCall (q : CallRequest) : Call Nat := do
  onDesk (Desk.close q.arg1.toInt)
  return 0

def unlinkCall (q : CallRequest) : Call Nat := do
  let name ← stringArgument q.arg1
  onDesk do
    let s ← get
    match s.devices.files.remove? name with
    | none => refuse .noSuchEntry
    | some files =>
      set { s with devices.files := files }
      return 0

end PagedKernel.Turn

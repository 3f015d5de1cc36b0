import PagedKernel.Memory.UserMemory
import PagedKernel.Text.Utf8

/-! # Checked access to a program's memory

The kernel never trusts an address that a program passes. Byte strings and words are moved as a
whole or not at all: the range is checked before the first byte is touched. A string is read up to
its terminator, and nothing behind the terminator matters. -/

namespace PagedKernel.UserMemory

def rangeOk (m : UserMemory) (address length : Nat) (access : Access) : Bool :=
  match userRange? address length with
  | some (start, stop) => m.table.rangeAccessible start stop access
  | none => false

def checkRange (address length : Nat) (access : Access) : EStateM (Stop Errno) UserMemory Unit := do
  if (← get).rangeOk address length access then return else refuse .badAddress

def getBytes (address length : Nat) : EStateM (Stop Errno) UserMemory Bytes := do
  checkRange address length .read
  let data ← fetch address length
  if data.length = length then return data else refuse .badAddress

def putBytes (address : Nat) (data : Bytes) : EStateM (Stop Errno) UserMemory Nat := do
  checkRange address data.length .write
  let count ← store address data
  if count = data.length then return count else refuse .badAddress

/-- Writes the first `length` bytes of `data` at an address, or all of `data` if it is shorter. -/
def putSlice (address length : Nat) (data : Bytes) : EStateM (Stop Errno) UserMemory Nat :=
  putBytes address (data.take length)

def getWord (address : Nat) : EStateM (Stop Errno) UserMemory UInt32 :=
  return wordOfBytes (← getBytes address 4)

def putWord (address : Nat) (w : UInt32) : EStateM (Stop Errno) UserMemory Nat :=
  putBytes address (wordBytes w)

def getInt (address : Nat) : EStateM (Stop Errno) UserMemory Int32 :=
  return (← getWord address).toInt32

def putInt (address : Nat) (n : Int32) : EStateM (Stop Errno) UserMemory Nat :=
  putWord address n.toUInt32

/-- The string at an address, of `maxLength` bytes at most without its terminator. -/
def getString (address maxLength : Nat) : EStateM (Stop Errno) UserMemory String := do
  let data ← fetch address (maxLength + 1)
  match data.dropWhile (· ≠ 0) with
  | _ :: _ => orRefuse .invalidArgument (Text.ofUtf8? (data.takeWhile (· ≠ 0)))
  | [] => refuse (if data.length = maxLength + 1 then .nameTooLong else .badAddress)

def pointer (r : Int32) : EStateM (Stop Errno) UserMemory VirtualAddress := do
  orRefuse .badAddress ((← get).table.pointer? r)

end PagedKernel.UserMemory

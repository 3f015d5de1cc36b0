import PagedKernel.User.Mode

/-! # Programs as scripts

A program is a list of instructions. An instruction can keep the number that it yields under a name,
and later ones can refer to it. -/

namespace PagedKernel

/-- A number in an instruction: as it stands, or kept by an earlier instruction and moved on. -/
inductive Operand where
  | literal (n : Int)
  | kept (name : String) (offset : Int)
deriving DecidableEq, Repr

inductive Action where
  | pushString (text : String)
  | pushBytes (data : Bytes)
  | pushWords (words : List Operand)
  | reserve (length : Operand)
  | readWord (address : Operand)
  | writeWord (address value : Operand)
  | readBytes (address length : Operand)
  | writeBytes (address : Operand) (data : Bytes)
  | readString (address : Operand)
  | arguments
  | start
  | registers
  | raise (cause : Exception) (address : Operand)
  /-- A system call. A child that it creates runs at once, unless it is to run later. -/
  | syscall (number : Operand) (args : List Operand) (later : Bool)
  | run (pid : Operand)
  | probe
  | die
  | feed (data : Bytes)
  | output
  | contents (name : String)
deriving DecidableEq, Repr

structure Instruction where
  action : Action
  keep : Option String := none
deriving DecidableEq, Repr

/-- A program: it returns at once, or follows its instructions and exits with a status. -/
inductive Program where
  | empty
  | script (instructions : List Instruction) (status : Operand)
deriving DecidableEq, Repr

structure Probe where
  free : Nat
  handles : Nat
  live : Nat
  off : Bool
deriving DecidableEq, Repr

def Kernel.probe (k : Kernel) : Probe where
  free := k.machine.pool.available
  handles := k.machine.openHandles
  live := k.live.toNat
  off := k.machine.poweredOff

inductive Reply where
  | done
  | number (n : Int)
  | flag (b : Bool)
  | bytes (data : Bytes)
  | noBytes
  | text (s : String)
  | texts (l : List String)
  | start (argc : Int32) (argv sp : UInt32)
  | registers (r : Registers)
  | probe (p : Probe)
deriving DecidableEq

abbrev Kept : Type := Assoc String Int

namespace Operand

/-- The number, with zero for a name that nothing was kept under. -/
def value (vars : Kept) : Operand → Int
  | literal n => n
  | kept name offset => (vars.find? name).getD 0 + offset

def signed (vars : Kept) (o : Operand) : Int32 := Int32.ofInt (o.value vars)

def word (vars : Kept) (o : Operand) : UInt32 := (o.signed vars).toUInt32

def count (vars : Kept) (o : Operand) : Nat := (o.value vars).toNat

end Operand

namespace Turn

def perform (vars : Kept) (argc : Int32) (argv : UInt32) : Action → Call Reply
  | .pushString text => return .number (← pushString text).toNat
  | .pushBytes data => return .number (← pushBytes data).toNat
  | .pushWords words => return .number (← pushWords (words.map (·.word vars))).toNat
  | .reserve length => return .number (← reserve (length.count vars)).toNat
  | .readWord address => return .number (← loadWord (address.word vars)).toInt32.toInt
  | .writeWord address value => do
    storeWord (address.word vars) (value.word vars)
    return .done
  | .readBytes address length =>
    return .bytes (← loadBytes (address.word vars).toNat (length.count vars))
  | .writeBytes address data => do
    storeBytes (address.word vars).toNat data
    return .done
  | .readString address => return .text (← loadString (address.word vars))
  | .arguments => return .texts (← loadStrings argv argc.toInt.toNat)
  | .start => return .start argc argv (← stackPointer)
  | .registers => return .registers (← get).self.registers
  | .raise cause address => raise cause (address.word vars).toNat
  | .syscall number args _ =>
    return .number (← trap (number.signed vars) (args.map (·.signed vars))).toInt
  | .run _ => return .flag false
  | .probe => return .probe (← get).kernel.probe
  | .die => throw (.fault .programDied)
  | .feed data => do
    modifyKernel fun k =>
      { k with machine.devices.console := k.machine.devices.console.feed data }
    return .done
  | .output => return .bytes (← get).kernel.machine.devices.console.output
  | .contents name =>
    return match (← get).kernel.machine.devices.files.contents? name with
      | some data => .bytes data
      | none => .noBytes

end Turn

end PagedKernel

import PagedKernel.Memory.UserMemory
import PagedKernel.Text.Utf8

/-! # The argument area of a program

A program finds its arguments as a row of pointers with the strings behind it, each string ended by
a zero byte. -/

namespace PagedKernel

/-- An argument area under construction: where the pointers start, and the next free byte for a
string. -/
structure ArgumentArea where
  argv : Nat
  cursor : Nat
deriving DecidableEq, Repr

namespace ArgumentArea

abbrev pointerSize : Nat := 4

def terminated (s : String) : Bytes := Text.utf8 s ++ [0]

/-- Bytes that arguments take, pointers included. -/
def sizeOf : List String → Nat
  | [] => 0
  | arg :: rest => pointerSize + (terminated arg).length + sizeOf rest

def start (argv : VirtualAddress) (argc : Nat) : ArgumentArea :=
  ⟨argv.toNat, argv.toNat + pointerSize * argc⟩

/-- Writes one argument: first its pointer, then its string. -/
def push (area : ArgumentArea) (index : Nat) (arg : String) :
    EStateM (Stop Errno) UserMemory ArgumentArea := do
  let data := terminated arg
  let count ← UserMemory.store (area.argv + pointerSize * index)
    (wordBytes (UInt32.ofNat area.cursor))
  if count ≠ pointerSize then refuse .badAddress
  let count ← UserMemory.store area.cursor data
  if count ≠ data.length then refuse .badAddress
  return { area with cursor := area.cursor + data.length }

def pushAll (area : ArgumentArea) (index : Nat) :
    List String → EStateM (Stop Errno) UserMemory ArgumentArea
  | [] => pure area
  | arg :: rest => do
    let area ← area.push index arg
    pushAll area (index + 1) rest

def finish (area : ArgumentArea) (args : List String) :
    EStateM (Stop Errno) UserMemory VirtualAddress := do
  let area ← area.pushAll 0 args
  orRefuse .badAddress (VirtualAddress.ofNat? area.argv)

end ArgumentArea

end PagedKernel

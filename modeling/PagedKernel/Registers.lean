import PagedKernel.Errno
import PagedKernel.Text.Hex

/-! # The register file and the call convention

A system call finds its number in `v0` and its arguments in `a0` to `a3`, leaves its answer in `v0`
and moves the program counter past the call. -/

namespace PagedKernel

abbrev Register : Type := Fin 40

namespace Register

abbrev v0 : Register := 2
abbrev a0 : Register := 4
abbrev a1 : Register := 5
abbrev a2 : Register := 6
abbrev a3 : Register := 7
abbrev sp : Register := 29
abbrev pc : Register := 34
abbrev nextPc : Register := 35
abbrev prevPc : Register := 36
abbrev badVaddr : Register := 39

end Register

structure Registers where
  cells : Vector Int32 40
deriving DecidableEq

structure CallRequest where
  number : Int32
  arg1 : Int32 := 0
  arg2 : Int32 := 0
  arg3 : Int32 := 0
  arg4 : Int32 := 0
deriving DecidableEq, Repr

namespace Registers

def cleared : Registers := ⟨Vector.replicate 40 0⟩

def get (r : Registers) (i : Register) : Int32 := r.cells[i]

def set (r : Registers) (i : Register) (v : Int32) : Registers := ⟨r.cells.set i v⟩

@[simp] theorem get_cleared (i : Register) : cleared.get i = 0 := by
  simp [get, cleared]

theorem get_set (r : Registers) (i j : Register) (v : Int32) :
    (r.set i v).get j = if i = j then v else r.get j := by
  simp only [get, set, Fin.getElem_fin, Vector.getElem_set, Fin.ext_iff]

def advance (r : Registers) : Registers :=
  ((r.set .prevPc (r.get .pc)).set .pc (r.get .nextPc)).set .nextPc (r.get .nextPc + 4)

def request (r : Registers) : CallRequest :=
  ⟨r.get .v0, r.get .a0, r.get .a1, r.get .a2, r.get .a3⟩

def withRequest (r : Registers) (q : CallRequest) : Registers :=
  ((((r.set .v0 q.number).set .a0 q.arg1).set .a1 q.arg2).set .a2 q.arg3).set .a3 q.arg4

/-- What a program sees of a refusal. -/
def refusal : Int32 := -1

/-- Leaves the answer to a system call, and moves past the call. -/
def answer (r : Registers) (result : Except Errno Nat) : Registers :=
  (r.set .v0 (match result with
    | .ok value => Int32.ofNat value
    | .error _ => refusal)).advance

def summary (r : Registers) : String :=
  let v0 := (r.get .v0).toInt
  let a0 := (r.get .a0).toInt
  let a1 := (r.get .a1).toInt
  let a2 := (r.get .a2).toInt
  let a3 := (r.get .a3).toInt
  let sp := Text.hexWord (r.get .sp)
  let pc := Text.hexWord (r.get .pc)
  s!"Registers \x7b v0: {v0}, a0: {a0}, a1: {a1}, a2: {a2}, a3: {a3}, sp: {sp}, pc: {pc} \x7d"

end Registers

end PagedKernel

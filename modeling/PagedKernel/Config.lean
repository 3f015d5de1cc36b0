import PagedKernel.Errno
import PagedKernel.Text.Blank
import PagedKernel.Text.Numeral

/-! # Machine configuration

A configuration text gives one `key = value` per line; `#` begins a comment, and keys that the
machine does not know are passed over. -/

namespace PagedKernel

/-- The sizes that a machine is built with. -/
structure Config where
  physPages : Nat := 64
  stackPages : Nat := 8
  maxOpenFiles : Nat := 16
  maxStringLength : Nat := 256
deriving DecidableEq, Repr

namespace Config

inductive Key where
  | physPages
  | stackPages
  | maxOpenFiles
  | maxStringLength
deriving DecidableEq, Repr

def Key.ofName? (name : String) : Option Key :=
  if name = "Processor.numPhysPages" then some physPages
  else if name = "Process.stackPages" then some stackPages
  else if name = "Process.maxOpenFiles" then some maxOpenFiles
  else if name = "Process.maxStringLength" then some maxStringLength
  else none

/-- Sets one value. Two files at least can be open, for the console is bound to two descriptors. -/
def assign (c : Config) : Key → Nat → Config
  | .physPages, n => { c with physPages := n }
  | .stackPages, n => { c with stackPages := n }
  | .maxOpenFiles, n => { c with maxOpenFiles := max n 2 }
  | .maxStringLength, n => { c with maxStringLength := n }

def lines : List Char → List (List Char)
  | [] => [[]]
  | c :: cs =>
    if c = '\n' then [] :: lines cs
    else match lines cs with
      | [] => [[c]]
      | line :: rest => (c :: line) :: rest

/-- A line without its comment and without the white space around what is left. -/
def content (line : List Char) : List Char :=
  Text.trim (line.takeWhile (· != '#'))

inductive Line where
  | blank
  | unknown (key : String)
  | assignment (key : Key) (value : Nat)
  | malformed
deriving DecidableEq, Repr

/-- Reads the content of a line: the key stands before the first equals sign. -/
def Line.ofContent (cs : List Char) : Line :=
  if cs.isEmpty then blank
  else match cs.dropWhile (· != '=') with
    | [] => malformed
    | _ :: rest =>
      let name := String.ofList (Text.trim (cs.takeWhile (· != '=')))
      match Key.ofName? name with
      | none => unknown name
      | some key =>
        match Text.counter? (Text.trim rest) with
        | none => malformed
        | some value => assignment key value

def applyLines (c : Config) : List Line → Except Errno Config
  | [] => .ok c
  | .blank :: rest | .unknown _ :: rest => applyLines c rest
  | .assignment key value :: rest => applyLines (c.assign key value) rest
  | .malformed :: _ => .error .invalidArgument

def ofText (text : String) : Except Errno Config :=
  applyLines {} ((lines text.toList).map fun line => Line.ofContent (content line))

end Config

end PagedKernel

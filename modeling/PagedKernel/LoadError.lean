import PagedKernel.Image.Basic

/-! # Why a program cannot be loaded -/

namespace PagedKernel

inductive LoadError where
  | cannotOpen (name : String)
  | malformed (error : ImageError)
  | fragmented (sectionName : String)
  | argumentsTooLong (bytes : Nat)
  | outOfMemory (pages : Nat)
deriving DecidableEq, Repr

namespace LoadError

def message : LoadError → String
  | cannotOpen name => s!"cannot open {name}"
  | malformed error => s!"malformed executable: {error.message}"
  | fragmented name => s!"fragmented executable: section {name} is misplaced"
  | argumentsTooLong bytes => s!"arguments too long ({bytes} bytes)"
  | outOfMemory pages => s!"insufficient physical memory ({pages} pages needed)"

def errno : LoadError → Errno
  | cannotOpen _ => .noSuchEntry
  | malformed _ | fragmented _ => .noExec
  | argumentsTooLong _ => .invalidArgument
  | outOfMemory _ => .noMemory

end LoadError

end PagedKernel

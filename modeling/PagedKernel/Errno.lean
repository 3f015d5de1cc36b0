/-! # Reasons for refusing a request -/

namespace PagedKernel

/-- Why the kernel refuses a request. A program only ever learns that its call was refused. -/
inductive Errno where
  | noSuchEntry
  | ioError
  | noExec
  | badFileDescriptor
  | noChild
  | noMemory
  | badAddress
  | invalidArgument
  | tooManyOpenFiles
  | nameTooLong
  | noSuchSyscall
deriving DecidableEq, Repr, Inhabited

namespace Errno

def message : Errno → String
  | noSuchEntry => "no such file or directory"
  | ioError => "input/output error"
  | noExec => "exec format error"
  | badFileDescriptor => "bad file descriptor"
  | noChild => "no child process"
  | noMemory => "out of memory"
  | badAddress => "bad address"
  | invalidArgument => "invalid argument"
  | tooManyOpenFiles => "too many open files"
  | nameTooLong => "file name too long"
  | noSuchSyscall => "invalid system call number"

end Errno

end PagedKernel

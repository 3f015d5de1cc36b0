import PagedKernel.Text.Utf8

/-! # The console -/

namespace PagedKernel

structure Console where
  input : Bytes := []
  output : Bytes := []
deriving DecidableEq, Repr

namespace Console

def feed (c : Console) (data : Bytes) : Console := { c with input := c.input ++ data }

def take (c : Console) (length : Nat) : Bytes × Console :=
  (c.input.take length, { c with input := c.input.drop length })

def print (c : Console) (data : Bytes) : Console := { c with output := c.output ++ data }

def outputText (c : Console) : String := Text.ofUtf8Lossy c.output

end Console

end PagedKernel

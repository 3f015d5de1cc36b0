/-! # Hexadecimal text -/

namespace PagedKernel.Text

def hexDigits (n : Nat) : String := String.ofList (Nat.toDigits 16 n)

def hex (n : Nat) : String := "0x" ++ hexDigits n

def hex4 (n : Nat) : String :=
  let digits := Nat.toDigits 16 n
  "0x" ++ String.ofList (List.replicate (4 - digits.length) '0' ++ digits)

def hexWord (w : Int32) : String := hex w.toUInt32.toNat

end PagedKernel.Text

import PagedKernel.Address

/-! # Numerals for counters -/

namespace PagedKernel.Text

def digit? (c : Char) : Option Nat :=
  if '0' ≤ c ∧ c ≤ '9' then some (c.toNat - '0'.toNat) else none

def digits? (acc : Nat) : List Char → Option Nat
  | [] => some acc
  | c :: cs =>
    match digit? c with
    | some d => digits? (10 * acc + d) cs
    | none => none

/-- A numeral is one digit at least, perhaps behind a plus sign, and fits the counter. -/
def counter? (cs : List Char) : Option Nat :=
  let digits := match cs with
    | '+' :: rest => rest
    | _ => cs
  if digits.isEmpty then none
  else (digits? 0 digits).filter (· < counterRange)

end PagedKernel.Text

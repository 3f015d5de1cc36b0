import PagedKernel.Address

/-! # Ranges cut at page borders

A transfer of many bytes is a row of spans, each inside one page. -/

namespace PagedKernel

structure Span where
  start : Nat
  length : Nat
deriving DecidableEq, Repr

namespace Span

/-- Cuts `length` bytes from `start` on; every span takes a byte at least, so `fuel` spans are
enough for `fuel` bytes. -/
def cut : (fuel start length : Nat) → List Span
  | 0, _, _ => []
  | fuel + 1, start, length =>
    if length = 0 then []
    else
      let head := min length (pageSize - start % pageSize)
      ⟨start, head⟩ :: cut fuel (start + head) (length - head)

def ofRange (start length : Nat) : List Span := cut length start length

theorem cut_of_le {fuel length : Nat} (h : length ≤ fuel) (start : Nat) :
    cut fuel start length = ofRange start length := by
  induction length using Nat.strongRecOn generalizing fuel start with
  | ind length ih =>
    cases length with
    | zero => cases fuel <;> rfl
    | succ length =>
      cases fuel with
      | zero => omega
      | succ fuel =>
        have hp : 0 < min (length + 1) (pageSize - start % pageSize) := by
          have := Nat.mod_lt start (show 0 < pageSize by decide)
          omega
        simp only [ofRange, cut, Nat.add_eq_zero_iff, Nat.one_ne_zero, and_false, if_false]
        rw [ih _ (by omega) (by omega), ih _ (by omega) (by omega)]

@[simp] theorem ofRange_zero (start : Nat) : ofRange start 0 = [] := rfl

theorem ofRange_of_pos {length : Nat} (start : Nat) (h : 0 < length) :
    ofRange start length =
      ⟨start, min length (pageSize - start % pageSize)⟩ ::
        ofRange (start + min length (pageSize - start % pageSize))
          (length - min length (pageSize - start % pageSize)) := by
  cases length with
  | zero => omega
  | succ length =>
    have hp : 0 < min (length + 1) (pageSize - start % pageSize) := by
      have := Nat.mod_lt start (show 0 < pageSize by decide)
      omega
    rw [← cut_of_le (show length + 1 - min (length + 1) (pageSize - start % pageSize) ≤ length by
      omega)]
    simp [ofRange, cut]

end Span

end PagedKernel

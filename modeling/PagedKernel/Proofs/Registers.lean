import PagedKernel.Registers

/-! # What an answer does to the registers -/

namespace PagedKernel.Registers

variable {r : Registers} {result : Except Errno Nat} {i : Register}

theorem request_withRequest (r : Registers) (q : CallRequest) : (r.withRequest q).request = q := by
  simp only [request, withRequest, get_set]
  rfl

theorem get_answer (r : Registers) (result : Except Errno Nat) (i : Register) :
    (r.answer result).get i =
      if i = .nextPc then r.get .nextPc + 4
      else if i = .pc then r.get .nextPc
      else if i = .prevPc then r.get .pc
      else if i = .v0 then
        match result with
        | .ok value => Int32.ofNat value
        | .error _ => refusal
      else r.get i := by
  unfold answer advance
  simp only [get_set, eq_comm (a := i)]
  rfl

theorem get_v0_ok (r : Registers) (n : Nat) : (r.answer (.ok n)).get .v0 = Int32.ofNat n :=
  get_answer r (.ok n) .v0

private theorem get_v0_error (r : Registers) (e : Errno) : (r.answer (.error e)).get .v0 = refusal :=
  get_answer r (.error e) .v0

theorem toInt_v0 {n : Nat} (h : n < 0x80000000) : ((r.answer (.ok n)).get .v0).toInt = n := by
  rw [get_v0_ok]
  exact Int32.toInt_ofNat_of_lt h

theorem v0_eq_refusal_iff (h : ∀ n, result = .ok n → n < 0x80000000) :
    (r.answer result).get .v0 = refusal ↔ ∃ e, result = .error e := by
  cases result with
  | ok n =>
    constructor
    · intro heq
      have hint := toInt_v0 (r := r) (h n rfl)
      rw [heq] at hint
      have hneg : refusal.toInt = -1 := by decide
      omega
    · rintro ⟨e, he⟩
      cases he
  | error e => exact ⟨fun _ => ⟨e, rfl⟩, fun _ => get_v0_error r e⟩

end PagedKernel.Registers

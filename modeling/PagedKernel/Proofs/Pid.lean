import Mathlib.Algebra.Group.Nat.Defs
import PagedKernel.Pid

/-! # Numbers and ordinals

Among the first 2^31 processes a number is as good as the ordinal: it is different for each of them,
and a later one is greater. -/

namespace PagedKernel.Pid

variable {pid c : Pid} {cs : List Pid} {m n : Nat}

theorem toInt_nth (h : n < 2 ^ 31) : (nth n).number.toInt = n := by
  rw [nth, Int32.toInt_ofNat', Int.bmod_eq_of_le] <;> simp only [Int32.size] <;> omega

theorem nth_lt_nth (hlt : m < n) (hn : n < 2 ^ 31) : (nth m).number < (nth n).number := by
  rw [Int32.lt_iff_toInt_lt, toInt_nth (Nat.lt_trans hlt hn), toInt_nth hn]
  omega

theorem nth_inj (hm : m < 2 ^ 31) (hn : n < 2 ^ 31) : nth m = nth n ↔ m = n := by
  refine ⟨fun h => ?_, fun h => h ▸ rfl⟩
  have hint := congrArg (·.number.toInt) h
  simp only [toInt_nth hm, toInt_nth hn] at hint
  omega

theorem nth_eq_root (h : n ≤ 2 ^ 32) : nth n = root ↔ n = 1 := by
  refine ⟨fun heq => ?_, fun heq => heq ▸ rfl⟩
  have hbits := congrArg (·.number.toBitVec.toNat) heq
  change n % 2 ^ 32 = 1 at hbits
  omega

theorem toNat_nth (h : n < 2 ^ 31) : (nth n).toNat = n := by
  rw [toNat, toInt_nth h, counterRange]
  omega

theorem ofNat_toNat (pid : Pid) : Int32.ofNat pid.toNat = pid.number := by
  apply Int32.toInt_inj.1
  have hnonneg : 0 ≤ pid.number.toInt % counterRange := Int.emod_nonneg _ (by decide)
  have hle := pid.number.le_toInt
  have hlt := pid.number.toInt_lt
  rw [Int32.toInt_ofNat', toNat, Int.toNat_of_nonneg hnonneg, Int.bmod_def]
  simp only [Int32.size, counterRange]
  split <;> omega

theorem mem_insert : c ∈ insert pid cs ↔ c = pid ∨ c ∈ cs := by
  induction cs with
  | nil => simp [insert]
  | cons d rest ih =>
    unfold insert
    split
    · exact List.mem_cons
    · split
      · next heq =>
        rw [heq]
        simp
      · rw [List.mem_cons, List.mem_cons, ih, or_left_comm]

theorem insert_eq_append (h : ∀ c ∈ cs, c.number < pid.number) : insert pid cs = cs ++ [pid] := by
  induction cs with
  | nil => rfl
  | cons d rest ih =>
    obtain ⟨hd, hrest⟩ := List.forall_mem_cons.1 h
    have hne : d ≠ pid := fun heq => absurd hd (heq ▸ Int32.lt_irrefl)
    rw [insert, if_neg (Int32.not_lt.2 (Int32.le_of_lt hd)), if_neg hne, ih hrest,
      List.cons_append]

end PagedKernel.Pid

import Mathlib.Data.List.TakeWhile
import Mathlib.Data.Nat.Find
import PagedKernel.Proofs.Memory.Flat
import PagedKernel.Proofs.Memory.Peek

/-!
# What the bytes at an address spell

A string is read with one byte more than it may have, so the copy may run past the terminator, past
the pages or past the bound. What comes first decides: the terminator, a byte that cannot be read, or
the bound. Nothing behind it matters.
-/

namespace PagedKernel.UserMemory

variable {m m' : UserMemory} {a k most : Nat} {s : String} {r r' : Except Errno String}

/-- The bytes from an address on can be read up to the first zero byte, which is the one that comes
after `k` others. -/
structure EndsAt (m : UserMemory) (a k : Nat) : Prop where
  readable : ∀ i ≤ k, m.table.Movable .read (a + i)
  plain : ∀ i < k, m.byte? (a + i) ≠ some 0
  zero : m.byte? (a + k) = some 0

/-- What a reader of a string of `most` bytes at most finds at an address. -/
inductive Spells (m : UserMemory) (a most : Nat) : Except Errno String → Prop
  | text {k : Nat} {s : String} (hk : k ≤ most) (hends : m.EndsAt a k)
      (htext : Text.utf8 s = m.bytesAt a k) : Spells m a most (.ok s)
  | garbled {k : Nat} (hk : k ≤ most) (hends : m.EndsAt a k)
      (hgarbled : ∀ s, Text.utf8 s ≠ m.bytesAt a k) : Spells m a most (.error .invalidArgument)
  | tooLong (hplain : ∀ i ≤ most, m.table.Movable .read (a + i) ∧ m.byte? (a + i) ≠ some 0) :
      Spells m a most (.error .nameTooLong)
  | unreadable {k : Nat} (hk : k ≤ most) (hstop : ¬ m.table.Movable .read (a + k))
      (hplain : ∀ i < k, m.byte? (a + i) ≠ some 0) : Spells m a most (.error .badAddress)

/-- The terminator comes before every byte that cannot be read. -/
theorem EndsAt.lt_of_not_movable {stop : Nat} (h : m.EndsAt a k)
    (hstop : ¬ m.table.Movable .read (a + stop)) : k < stop :=
  Nat.lt_of_not_le fun hle => hstop (h.readable stop hle)

private theorem EndsAt.le_of_zero {n : Nat} (h : m.EndsAt a k) (hzero : m.byte? (a + n) = some 0) :
    k ≤ n :=
  Nat.le_of_not_lt fun hlt => h.plain n hlt hzero

private theorem EndsAt.unique {n : Nat} (h : m.EndsAt a k) (h' : m.EndsAt a n) : k = n :=
  Nat.le_antisymm (h.le_of_zero h'.zero) (h'.le_of_zero h.zero)

private theorem Spells.of_endsAt (h : m.Spells a most r) (hends : m.EndsAt a k) (hk : k ≤ most) :
    (∃ s, r = .ok s ∧ Text.utf8 s = m.bytesAt a k) ∨
      r = .error .invalidArgument ∧ ∀ s, Text.utf8 s ≠ m.bytesAt a k := by
  cases h with
  | text _ hends' htext =>
    obtain rfl := hends.unique hends'
    exact .inl ⟨_, rfl, htext⟩
  | garbled _ hends' hgarbled =>
    obtain rfl := hends.unique hends'
    exact .inr ⟨rfl, hgarbled⟩
  | tooLong hplain => exact absurd hends.zero (hplain k hk).2
  | unreadable _ hstop hplain =>
    exact absurd hends.zero (hplain k (hends.lt_of_not_movable hstop))

theorem Spells.of_plain (h : m.Spells a most r)
    (hplain : ∀ i ≤ most, m.table.Movable .read (a + i) ∧ m.byte? (a + i) ≠ some 0) :
    r = .error .nameTooLong := by
  cases h with
  | text hk hends _ => exact absurd hends.zero (hplain _ hk).2
  | garbled hk hends _ => exact absurd hends.zero (hplain _ hk).2
  | tooLong _ => rfl
  | unreadable hk hstop _ => exact absurd (hplain _ hk).1 hstop

private theorem Spells.of_unreadable (h : m.Spells a most r) (hk : k ≤ most)
    (hstop : ¬ m.table.Movable .read (a + k)) (hplain : ∀ i < k, m.byte? (a + i) ≠ some 0) :
    r = .error .badAddress := by
  cases h with
  | text _ hends _ => exact absurd hends.zero (hplain _ (hends.lt_of_not_movable hstop))
  | garbled _ hends _ => exact absurd hends.zero (hplain _ (hends.lt_of_not_movable hstop))
  | tooLong hplain' => exact absurd (hplain' k hk).1 hstop
  | unreadable _ _ _ => rfl

theorem Spells.unique (h : m.Spells a most r) (h' : m.Spells a most r') : r = r' := by
  cases h' with
  | text hk hends htext =>
    obtain ⟨s, rfl, hs⟩ | ⟨-, hgarbled⟩ := h.of_endsAt hends hk
    · rw [Text.utf8_injective (hs.trans htext.symm)]
    · exact absurd htext (hgarbled _)
  | garbled hk hends hgarbled =>
    obtain ⟨s, -, hs⟩ | ⟨hr, -⟩ := h.of_endsAt hends hk
    · exact absurd hs (hgarbled s)
    · exact hr
  | tooLong hplain => exact h.of_plain hplain
  | unreadable hk hstop hplain => exact h.of_unreadable hk hstop hplain

theorem EndsAt.congr (h : m.EndsAt a k) (hreadable : ∀ i ≤ k, m'.table.Movable .read (a + i))
    (hbyte : ∀ i ≤ k, m'.byte? (a + i) = m.byte? (a + i)) : m'.EndsAt a k where
  readable := hreadable
  plain i hi := by
    rw [hbyte i hi.le]
    exact h.plain i hi
  zero := (hbyte k (Nat.le_refl k)).trans h.zero

theorem Spells.congr (h : m.Spells a most r) (hk : k ≤ most) (hends : m.EndsAt a k)
    (hreadable : ∀ i ≤ k, m'.table.Movable .read (a + i))
    (hbyte : ∀ i ≤ k, m'.byte? (a + i) = m.byte? (a + i)) : m'.Spells a most r := by
  have hends' := hends.congr hreadable hbyte
  have hbytes : m'.bytesAt a k = m.bytesAt a k := bytesAt_congr fun i hi => hbyte i hi.le
  obtain ⟨s, rfl, hs⟩ | ⟨rfl, hgarbled⟩ := h.of_endsAt hends hk
  · exact .text hk hends' (hs.trans hbytes.symm)
  · exact .garbled hk hends' fun s => hbytes ▸ hgarbled s

theorem Alike.spells (h : Alike m m') (hr : m.Spells a most r) : m'.Spells a most r := by
  have hmovable : ∀ b, m'.table.Movable .read b ↔ m.table.Movable .read b := by
    intro b
    rw [PageTable.movable_iff, PageTable.movable_iff, PageTable.permits_congr h.mapping]
  cases hr with
  | text hk hends htext =>
    exact (Spells.text hk hends htext).congr hk hends
      (fun i hi => (hmovable _).2 (hends.readable i hi)) fun i _ => h.byte _
  | garbled hk hends hgarbled =>
    exact (Spells.garbled hk hends hgarbled).congr hk hends
      (fun i hi => (hmovable _).2 (hends.readable i hi)) fun i _ => h.byte _
  | tooLong hplain =>
    refine .tooLong fun i hi => ?_
    rw [hmovable, h.byte]
    exact hplain i hi
  | unreadable hk hstop hplain =>
    refine .unreadable hk ((hmovable _).not.2 hstop) fun i hi => ?_
    rw [h.byte]
    exact hplain i hi

private theorem notMem_bytesAt {n : Nat} (hf : m.Framed)
    (hread : ∀ i < n, m.table.permits .read (a + i) = true)
    (hplain : ∀ i < n, m.byte? (a + i) ≠ some 0) : 0 ∉ m.bytesAt a n := by
  intro hmem
  obtain ⟨i, hi⟩ := List.mem_iff_getElem?.1 hmem
  have hlt : i < n := by
    have hlength := (List.getElem?_eq_some_iff.1 hi).1
    rwa [length_bytesAt] at hlength
  obtain ⟨b, hb⟩ := exists_byte hf (hread i hlt)
  rw [getElem?_bytesAt hlt, hb, Option.getD_some, Option.some.injEq] at hi
  exact hplain i hlt (hi ▸ hb)

private theorem EndsAt.notMem (hf : m.Framed) (h : m.EndsAt a k) : 0 ∉ m.bytesAt a k :=
  notMem_bytesAt hf (fun i hi => PageTable.movable_iff.1 (h.readable i hi.le)) h.plain

private theorem EndsAt.bytesAt_succ (h : m.EndsAt a k) :
    m.bytesAt a (k + 1) = m.bytesAt a k ++ [0] := by
  rw [bytesAt_add]
  simp [bytesAt, h.zero]

/-- A zero byte that can be reached has a first one in front of it, or is the first. -/
theorem exists_endsAt {n : Nat} (hread : ∀ i ≤ n, m.table.Movable .read (a + i))
    (hzero : m.byte? (a + n) = some 0) : ∃ k ≤ n, m.EndsAt a k := by
  have hex : ∃ k, m.byte? (a + k) = some 0 := ⟨n, hzero⟩
  have hle : Nat.find hex ≤ n := Nat.find_min' hex hzero
  exact ⟨Nat.find hex, hle, fun i hi => hread i (hi.trans hle), fun i hi => Nat.find_min hex hi,
    Nat.find_spec hex⟩

theorem Spells.holdsString (hf : m.Framed) (h : m.Spells a most (.ok s)) : m.HoldsString a s := by
  cases h with
  | @text k _ _ hends htext =>
    have hholds := holds_bytesAt (n := k + 1) hf fun i hi =>
      PageTable.movable_iff.1 (hends.readable i (Nat.le_of_lt_succ hi))
    rw [hends.bytesAt_succ, ← htext] at hholds
    exact ⟨hholds, htext ▸ hends.notMem hf⟩

theorem HoldsString.endsAt (h : m.HoldsString a s) : m.EndsAt a (Text.utf8 s).length := by
  have hlength : (ArgumentArea.terminated s).length = (Text.utf8 s).length + 1 :=
    List.length_append
  refine ⟨fun i hi => ?_, fun i hi hzero => ?_, ?_⟩
  · exact PageTable.movable_iff.2 (h.bytes i (by omega)).1
  · rw [(h.bytes i (by omega)).2, ArgumentArea.terminated, List.getElem?_append_left hi] at hzero
    exact h.noZero (List.mem_of_getElem? hzero)
  · rw [(h.bytes _ (by omega)).2, ArgumentArea.terminated, List.getElem?_concat_length]

theorem HoldsString.utf8_eq (h : m.HoldsString a s) :
    Text.utf8 s = m.bytesAt a (Text.utf8 s).length :=
  (holds_append.1 h.bytes).1.bytesAt_eq.symm

abbrev afterString (m : UserMemory) (a most : Nat) : UserMemory :=
  m.afterRead a (m.table.reach .read a (most + 1))

private theorem getString_of_endsAt (hf : m.Framed) (h : m.EndsAt a k) (hk : k ≤ most) :
    getString a most m =
      orRefuse .invalidArgument (Text.ofUtf8? (m.bytesAt a k)) (m.afterString a most) := by
  have hreach : k + 1 ≤ m.table.reach .read a (most + 1) :=
    (m.table.moves_reach .read a (most + 1)).2
      ⟨Nat.succ_le_succ hk, fun i hi => h.readable i (Nat.le_of_lt_succ hi)⟩
  obtain ⟨rest, hdata⟩ : ∃ rest, m.bytesAt a (m.table.reach .read a (most + 1)) =
      m.bytesAt a k ++ 0 :: rest := by
    obtain ⟨n, hn⟩ := Nat.exists_eq_add_of_le hreach
    rw [hn, bytesAt_add, h.bytesAt_succ, List.append_assoc]
    exact ⟨_, rfl⟩
  have hplain : ∀ b ∈ m.bytesAt a k, decide (b ≠ 0) = true := fun b hb =>
    decide_eq_true fun hzero => h.notMem hf (hzero ▸ hb)
  have hfetch := fetch_eq (ε := Errno) hf a (most + 1)
  rw [hdata] at hfetch
  rw [getString, bind_of_ok hfetch, List.dropWhile_append_of_pos hplain,
    List.takeWhile_append_of_pos hplain]
  simp only [ne_eq, decide_not, decide_true, Bool.not_true, Bool.false_eq_true, not_false_eq_true,
    List.dropWhile_cons_of_neg, List.takeWhile_cons_of_neg, List.append_nil]

private theorem getString_of_plain (hf : m.Framed)
    (hplain : ∀ i < m.table.reach .read a (most + 1), m.byte? (a + i) ≠ some 0) :
    getString a most m = .error (.refused
      (if m.table.reach .read a (most + 1) = most + 1 then .nameTooLong else .badAddress))
      (m.afterString a most) := by
  have hzero := notMem_bytesAt hf (fun i hi => PageTable.permits_of_lt_reach hi) hplain
  have hdrop : (m.bytesAt a (m.table.reach .read a (most + 1))).dropWhile (· ≠ 0) = [] :=
    List.dropWhile_eq_nil_iff.2 fun b hb => decide_eq_true fun h => hzero (h ▸ hb)
  rw [getString, bind_of_ok (fetch_eq hf a (most + 1)), hdrop, length_bytesAt]
  rfl

/-- A reader comes to what the bytes spell, whatever there is at the address. -/
theorem spells_getString (hf : m.Framed) (a most : Nat) : ∃ r, m.Spells a most r ∧
    attempt (getString a most) m = .ok r (m.afterString a most) := by
  by_cases hends : ∃ k ≤ most, m.EndsAt a k
  · obtain ⟨k, hk, hends⟩ := hends
    have hget := getString_of_endsAt hf hends hk
    cases htext : Text.ofUtf8? (m.bytesAt a k) with
    | some s =>
      rw [htext] at hget
      refine ⟨.ok s, .text hk hends (Text.utf8_of_ofUtf8? htext), ?_⟩
      simp only [attempt, hget, orRefuse]
      rfl
    | none =>
      rw [htext] at hget
      refine ⟨.error .invalidArgument, .garbled hk hends fun s hs => ?_, ?_⟩
      · rw [← hs, Text.ofUtf8?_utf8] at htext
        cases htext
      · simp only [attempt, hget, orRefuse]
        rfl
  · have hmoves := m.table.moves_reach .read a (most + 1)
    have hplain : ∀ i < m.table.reach .read a (most + 1), m.byte? (a + i) ≠ some 0 := by
      intro i hi hzero
      obtain ⟨k, hk, hend⟩ := exists_endsAt (fun j hj => hmoves.1.2 j (hj.trans_lt hi)) hzero
      exact hends ⟨k, hk.trans (Nat.le_of_lt_succ (hi.trans_le hmoves.1.1)), hend⟩
    have hget := getString_of_plain hf hplain
    by_cases hall : m.table.reach .read a (most + 1) = most + 1
    · rw [if_pos hall] at hget
      refine ⟨.error .nameTooLong, .tooLong fun i hi => ?_, by simp only [attempt, hget]⟩
      have hlt : i < m.table.reach .read a (most + 1) := by omega
      exact ⟨hmoves.1.2 i hlt, hplain i hlt⟩
    · rw [if_neg hall] at hget
      have hlt := Nat.lt_of_le_of_ne hmoves.1.1 hall
      refine ⟨.error .badAddress, .unreadable (Nat.le_of_lt_succ hlt) ?_ hplain,
        by simp only [attempt, hget]⟩
      rw [PageTable.movable_iff, PageTable.not_permits_reach hlt]
      exact Bool.false_ne_true

end PagedKernel.UserMemory

import PagedKernel.Memory.ArgumentArea
import PagedKernel.Proofs.Memory.Checked
import PagedKernel.Proofs.Text

/-!
# Strings in a program's memory

A string lies at an address when its encoding can be read there, with the first zero byte behind it.
A row of pointers leads to strings that lie anywhere: a string may cross from page to page, and two
strings may overlap or be the same. Whoever follows the pointers finds the same strings.
-/

namespace PagedKernel.UserMemory

variable {m m' m'' : UserMemory} {a n : Nat} {b : UInt8} {data data' : Bytes} {s s' : String}
variable {arg : String} {args args' rest : List String}

/-- Memories that look the same to the program. -/
structure Alike (m m' : UserMemory) : Prop where
  mapping : m'.table.mapping = m.table.mapping
  byte : ∀ a, m'.byte? a = m.byte? a

theorem Alike.refl (m : UserMemory) : Alike m m := ⟨rfl, fun _ => rfl⟩

theorem Alike.trans (h : Alike m m') (h' : Alike m' m'') : Alike m m'' where
  mapping := h'.mapping.trans h.mapping
  byte a := (h'.byte a).trans (h.byte a)

theorem Alike.symm (h : Alike m m') : Alike m' m := ⟨h.mapping.symm, fun a => (h.byte a).symm⟩

def Holds (m : UserMemory) (a : Nat) (data : Bytes) : Prop :=
  ∀ i < data.length, m.table.permits .read (a + i) = true ∧ m.byte? (a + i) = data[i]?

theorem Alike.holds (h : Alike m m') (hm : m.Holds a data) : m'.Holds a data := by
  intro i hi
  rw [PageTable.permits_congr h.mapping, h.byte]
  exact hm i hi

theorem Holds.bytesAt_eq (h : m.Holds a data) : m.bytesAt a data.length = data := by
  apply List.ext_getElem?
  intro i
  by_cases hi : i < data.length
  · rw [getElem?_bytesAt hi, (h i hi).2, List.getElem?_eq_getElem hi, Option.getD_some]
  · rw [List.getElem?_eq_none (by simpa using hi), List.getElem?_eq_none (by omega)]

theorem holds_bytesAt (hf : m.Framed) (h : ∀ i < n, m.table.permits .read (a + i) = true) :
    m.Holds a (m.bytesAt a n) := by
  intro i hi
  rw [length_bytesAt] at hi
  obtain ⟨b, hb⟩ := exists_byte hf (h i hi)
  rw [getElem?_bytesAt hi, hb, Option.getD_some]
  exact ⟨h i hi, rfl⟩

theorem holds_of_permits (hmapping : m'.table.mapping = m.table.mapping)
    (hw : ∀ i < data.length, m.table.permits .write (a + i) = true)
    (hbyte : ∀ i < data.length, m'.byte? (a + i) = data[i]?) : m'.Holds a data := by
  intro i hi
  obtain ⟨hlimit, e, he, hvalid, -⟩ := PageTable.permits_iff.1 (hw i hi)
  rw [PageTable.permits_congr hmapping]
  exact ⟨PageTable.permits_iff.2 ⟨hlimit, e, he, hvalid, rfl⟩, hbyte i hi⟩

theorem Wrote.holds (h : Wrote m m' a data) (hn : m.table.mapped.Nodup)
    (hw : ∀ i < data.length, m.table.permits .write (a + i) = true) : m'.Holds a data := by
  refine holds_of_permits h.mapping hw fun i hi => ?_
  rw [h.byte hn, if_pos (by omega), Nat.add_sub_cancel_left]

theorem Holds.part (h : m.Holds a data) (k n : Nat) :
    m.Holds (a + k) ((data.drop k).take n) := by
  intro i hi
  rw [List.length_take, List.length_drop] at hi
  rw [Nat.add_assoc, List.getElem?_take_of_lt (by omega), List.getElem?_drop]
  exact h (k + i) (by omega)

theorem holds_cons : m.Holds a (b :: data) ↔
    (m.table.permits .read a = true ∧ m.byte? a = some b) ∧ m.Holds (a + 1) data := by
  constructor
  · intro h
    refine ⟨h 0 (Nat.succ_pos _), ?_⟩
    intro i hi
    have hnext := h (i + 1) (Nat.succ_lt_succ hi)
    rwa [Nat.add_comm i 1, ← Nat.add_assoc, Nat.add_comm 1 i] at hnext
  · rintro ⟨hfirst, hrest⟩ i hi
    cases i with
    | zero => exact hfirst
    | succ i =>
      have hnext := hrest i (Nat.lt_of_succ_lt_succ hi)
      rwa [Nat.add_assoc, Nat.add_comm 1 i] at hnext

theorem holds_append : m.Holds a (data ++ data') ↔
    m.Holds a data ∧ m.Holds (a + data.length) data' := by
  induction data generalizing a with
  | nil => simp [Holds]
  | cons b data ih =>
    have hplace : a + (data.length + 1) = a + 1 + data.length := by omega
    rw [List.cons_append, holds_cons, holds_cons, ih, List.length_cons, hplace, ← and_assoc]

private theorem Holds.unique (h : m.Holds a (data ++ [0])) (h' : m.Holds a (data' ++ [0]))
    (hz : 0 ∉ data) (hz' : 0 ∉ data') : data = data' := by
  induction data generalizing a data' with
  | nil =>
    cases data' with
    | nil => rfl
    | cons b' data' =>
      have hb := (holds_cons.1 h).1.2
      rw [(holds_cons.1 h').1.2, Option.some.injEq] at hb
      exact absurd (hb ▸ List.mem_cons_self ..) hz'
  | cons b data ih =>
    obtain ⟨⟨-, hb⟩, hrest⟩ := holds_cons.1 h
    cases data' with
    | nil =>
      rw [(holds_cons.1 h').1.2, Option.some.injEq] at hb
      exact absurd (hb ▸ List.mem_cons_self ..) hz
    | cons b' data' =>
      obtain ⟨⟨-, hb'⟩, hrest'⟩ := holds_cons.1 h'
      rw [hb, Option.some.injEq] at hb'
      rw [hb', ih hrest hrest' (fun hmem => hz (List.mem_cons_of_mem _ hmem))
        fun hmem => hz' (List.mem_cons_of_mem _ hmem)]

/-- A string lies at an address. -/
structure HoldsString (m : UserMemory) (a : Nat) (s : String) : Prop where
  bytes : m.Holds a (ArgumentArea.terminated s)
  noZero : 0 ∉ Text.utf8 s

private theorem HoldsString.unique (h : m.HoldsString a s) (h' : m.HoldsString a s') : s = s' :=
  Text.utf8_injective (h.bytes.unique h'.bytes h.noZero h'.noZero)

theorem Alike.holdsString (h : Alike m m') (hm : m.HoldsString a s) : m'.HoldsString a s :=
  ⟨h.holds hm.bytes, hm.noZero⟩

/-- A pointer lies at an address, no null pointer, and leads to a string. -/
def PointsTo (m : UserMemory) (a : Nat) (s : String) : Prop :=
  ∃ p : UInt32, p ≠ 0 ∧ m.Holds a (wordBytes p) ∧ m.HoldsString p.toNat s

private theorem PointsTo.unique (h : m.PointsTo a s) (h' : m.PointsTo a s') : s = s' := by
  obtain ⟨p, -, hp, hs⟩ := h
  obtain ⟨p', -, hp', hs'⟩ := h'
  have hbytes := hp.bytesAt_eq
  have hbytes' := hp'.bytesAt_eq
  rw [length_wordBytes] at hbytes hbytes'
  have hsame : p = p' := by
    rw [← wordOfBytes_wordBytes p, ← wordOfBytes_wordBytes p', ← hbytes, ← hbytes']
  subst hsame
  exact hs.unique hs'

def Points (m : UserMemory) (a : Nat) (args : List String) : Prop :=
  ∀ (i : Nat) (arg : String), args[i]? = some arg →
    m.PointsTo (a + ArgumentArea.pointerSize * i) arg

theorem points_nil : m.Points a [] := by
  intro i arg h
  simp at h

theorem points_cons : m.Points a (arg :: rest) ↔
    m.PointsTo a arg ∧ m.Points (a + ArgumentArea.pointerSize) rest := by
  have hnext : ∀ i, a + ArgumentArea.pointerSize * (i + 1) =
      a + ArgumentArea.pointerSize + ArgumentArea.pointerSize * i := by
    intro i
    rw [Nat.mul_succ, Nat.add_assoc, Nat.add_comm (ArgumentArea.pointerSize * i)]
  constructor
  · intro h
    refine ⟨h 0 arg rfl, ?_⟩
    intro i s hs
    rw [← hnext]
    exact h (i + 1) s hs
  · rintro ⟨hfirst, hrest⟩ i s hs
    cases i with
    | zero =>
      cases hs
      exact hfirst
    | succ i =>
      rw [hnext]
      exact hrest i s hs

theorem Points.unique (h : m.Points a args) (h' : m.Points a args')
    (hlength : args.length = args'.length) : args = args' := by
  apply List.ext_getElem hlength
  intro i hi hi'
  exact (h i _ (List.getElem?_eq_getElem hi)).unique (h' i _ (List.getElem?_eq_getElem hi'))

theorem Points.noZero (h : m.Points a args) : ∀ arg ∈ args, 0 ∉ Text.utf8 arg := by
  intro arg harg
  obtain ⟨i, hi⟩ := List.mem_iff_getElem?.1 harg
  obtain ⟨p, -, -, hstring⟩ := h i arg hi
  exact hstring.noZero

theorem Points.permits (h : m.Points a args) {i : Nat}
    (hi : i < args.length * ArgumentArea.pointerSize) : m.table.permits .read (a + i) = true := by
  have hindex : i / ArgumentArea.pointerSize < args.length :=
    (Nat.div_lt_iff_lt_mul (by decide)).2 hi
  have hoffset : i % ArgumentArea.pointerSize < ArgumentArea.pointerSize :=
    Nat.mod_lt i (by decide)
  obtain ⟨p, -, hp, -⟩ := h _ _ (List.getElem?_eq_getElem hindex)
  have hread := (hp (i % ArgumentArea.pointerSize) (by rwa [length_wordBytes])).1
  rwa [Nat.add_assoc, Nat.div_add_mod] at hread

theorem Alike.points (h : Alike m m') (hm : m.Points a args) : m'.Points a args := by
  intro i arg hi
  obtain ⟨p, hne, hp, hs⟩ := hm i arg hi
  exact ⟨p, hne, h.holds hp, h.holdsString hs⟩

theorem holds_of_getWord {w : UInt32} (hf : m.Framed) (hr : m.rangeOk a 4 .read = true)
    (hw : w = wordOfBytes (m.bytesAt a 4)) : m.Holds a (wordBytes w) := by
  rw [hw, wordBytes_wordOfBytes (length_bytesAt m a 4)]
  exact holds_bytesAt hf (rangeOk_iff.1 hr).2

theorem getWord_eq {w : UInt32} (hf : m.Framed) (hlimit : a + 4 ≤ addressLimit)
    (h : m.Holds a (wordBytes w)) : getWord a m = .ok w (m.afterRead a 4) := by
  have hr : m.rangeOk a 4 .read = true := by
    refine rangeOk_iff.2 ⟨hlimit, ?_⟩
    intro i hi
    exact (h i (by rwa [length_wordBytes])).1
  have hcheck : checkRange a 4 .read m = .ok () m := by
    rw [checkRange_eq, if_pos hr]
  have hbytes := h.bytesAt_eq
  rw [length_wordBytes] at hbytes
  have hfetch := fetch_eq (ε := Errno) hf a 4
  rw [reach_of_rangeOk hr, hbytes] at hfetch
  apply Ensures.eq_ok
  unfold getWord getBytes
  simp only [ensures_bind, ensures_of_ok hcheck, ensures_of_ok hfetch, length_wordBytes, if_true,
    ensures_pure]
  exact ⟨wordOfBytes_wordBytes w, trivial⟩

/-- A string is read up to its terminator. -/
theorem ensures_getString (hf : m.Framed) (a most : Nat) : Ensures (getString a most) m
    (fun s m' => (∃ n, m' = m.afterRead a n) ∧ m.HoldsString a s)
    (fun stop m' => (∃ n, m' = m.afterRead a n) ∧ stop.IsRefusal) := by
  have hread : m.Holds a (m.bytesAt a (m.table.reach .read a (most + 1))) :=
    holds_bytesAt hf fun i hi => PageTable.permits_of_lt_reach hi
  unfold getString
  rw [ensures_bind, ensures_of_ok (fetch_eq hf a (most + 1))]
  generalize m.bytesAt a (m.table.reach .read a (most + 1)) = data at hread ⊢
  split
  · next b rest hdrop =>
    apply ensures_orRefuse
    · intro s hs
      have hutf8 := Text.utf8_of_ofUtf8? hs
      have hb : b = 0 := by
        have hhead := List.head?_dropWhile_not (· ≠ 0) data
        rw [hdrop] at hhead
        simpa using hhead
      have hsplit : data = (Text.utf8 s ++ [0]) ++ rest := by
        have hwhole := List.takeWhile_append_dropWhile (p := (· ≠ 0)) (l := data)
        rw [hdrop, hb, ← hutf8] at hwhole
        simpa using hwhole.symm
      rw [hsplit] at hread
      refine ⟨⟨_, rfl⟩, (holds_append.1 hread).1, ?_⟩
      rw [hutf8]
      intro hmem
      have hne := List.all_eq_true.1 List.all_takeWhile 0 hmem
      simp at hne
    · intro _
      exact ⟨⟨_, rfl⟩, _, rfl⟩
  · exact ⟨⟨_, rfl⟩, _, rfl⟩

/-- A string is found, if it is not too long. -/
theorem getString_eq {most : Nat} (hf : m.Framed) (h : m.HoldsString a s)
    (hmost : (Text.utf8 s).length ≤ most) :
    getString a most m = .ok s (m.afterRead a (m.table.reach .read a (most + 1))) := by
  have hlength : (ArgumentArea.terminated s).length = (Text.utf8 s).length + 1 :=
    List.length_append
  have hreach : (ArgumentArea.terminated s).length ≤ m.table.reach .read a (most + 1) := by
    apply Nat.le_of_not_lt
    intro hlt
    have hstop : m.table.permits .read (a + m.table.reach .read a (most + 1)) = false :=
      PageTable.not_permits_reach (by omega)
    rw [(h.bytes _ hlt).1] at hstop
    cases hstop
  have hdata : ∃ rest, m.bytesAt a (m.table.reach .read a (most + 1)) =
      Text.utf8 s ++ 0 :: rest := by
    obtain ⟨k, hk⟩ := Nat.exists_eq_add_of_le hreach
    rw [hk, bytesAt_add, h.bytes.bytesAt_eq, ArgumentArea.terminated, List.append_assoc]
    exact ⟨_, rfl⟩
  obtain ⟨rest, hrest⟩ := hdata
  have hplain : ∀ b ∈ Text.utf8 s, decide (b ≠ 0) = true := by
    intro b hb
    exact decide_eq_true fun hzero => h.noZero (hzero ▸ hb)
  have hfetch := fetch_eq (ε := Errno) hf a (most + 1)
  rw [hrest] at hfetch
  apply Ensures.eq_ok
  unfold getString
  rw [ensures_bind, ensures_of_ok hfetch, List.dropWhile_append_of_pos hplain,
    List.takeWhile_append_of_pos hplain]
  simp [Text.ofUtf8?_utf8]

end PagedKernel.UserMemory

import Mathlib.Logic.Basic
import PagedKernel.Memory.ArgumentArea
import PagedKernel.Proofs.Memory.Edited

/-!
# The argument area in memory

The pointers come first, and the strings follow without gaps. What is written of one argument never
overlaps what is written of another, so that in the end the area holds all of it.
-/

namespace PagedKernel

namespace PageTable

variable {t t' : PageTable} {access : Access} {a n k p : Nat}

private theorem touched_of_page (hn : 0 < n) (hl : p * pageSize ≤ a)
    (hu : a + n ≤ p * pageSize + pageSize) :
    t.touched access a n = t.touched access (p * pageSize) 1 := by
  have hmeets : meets a n = meets (p * pageSize) 1 := by
    funext q
    rw [Bool.eq_iff_iff]
    simp only [meets, pageSize, decide_eq_true_eq] at *
    omega
  rw [touched, touched, hmeets]

private theorem touched_self : (t.touched access a n).touched access a n = t.touched access a n := by
  refine congrArg PageTable.mk (List.ext_getElem? fun p => ?_)
  change ((t.touched access a n).touched access a n).entries[p]? =
    (t.touched access a n).entries[p]?
  rw [getElem?_touched, getElem?_touched, Option.map_map]
  congr 1
  funext e
  cases meets a n p <;> simp [Entry.touch, Flags.touch_touch]

def Writable (t : PageTable) (a n : Nat) : Prop := ∀ i < n, t.permits .write (a + i) = true

private theorem reach_eq_iff_writable : t.reach .write a n = n ↔ t.Writable a n := reach_eq_length_iff

private theorem writable_add : t.Writable a (n + k) ↔ t.Writable a n ∧ t.Writable (a + n) k := by
  constructor
  · intro h
    refine ⟨fun i hi => h i (by omega), fun i hi => ?_⟩
    rw [Nat.add_assoc]
    exact h (n + i) (by omega)
  · rintro ⟨hfirst, hrest⟩ i hi
    by_cases hn : i < n
    · exact hfirst i hn
    · have h := hrest (i - n) (by omega)
      rwa [Nat.add_assoc, Nat.add_sub_cancel' (Nat.le_of_not_lt hn)] at h

theorem writable_congr (h : t'.mapping = t.mapping) : t'.Writable a n ↔ t.Writable a n := by
  simp only [Writable, permits_congr h]

end PageTable

namespace ArgumentArea

open UserMemory

variable {m m' : UserMemory} {area : ArgumentArea} {args rest : List String} {arg : String}
variable {cursor index j : Nat} {t t' : PageTable}

def pointers (cursor : Nat) : List String → Bytes
  | [] => []
  | arg :: rest =>
    wordBytes (UInt32.ofNat cursor) ++ pointers (cursor + (terminated arg).length) rest

def strings (args : List String) : Bytes := args.flatMap terminated

/-- All that stands in the argument area of a program: the pointers, then the strings. -/
def layout (argv : Nat) (args : List String) : Bytes :=
  pointers (argv + pointerSize * args.length) args ++ strings args

def address (argv : Nat) (args : List String) (j : Nat) : Nat :=
  argv + pointerSize * args.length + (strings (args.take j)).length

private theorem strings_cons (arg : String) (rest : List String) :
    strings (arg :: rest) = terminated arg ++ strings rest := rfl

theorem terminated_pos (arg : String) : 0 < (terminated arg).length := by
  rw [terminated, List.length_append]
  exact Nat.succ_pos _

@[simp] theorem length_pointers (cursor : Nat) (args : List String) :
    (pointers cursor args).length = pointerSize * args.length := by
  induction args generalizing cursor with
  | nil => rfl
  | cons arg rest ih =>
    rw [pointers, List.length_append, ih, length_wordBytes, List.length_cons, Nat.mul_succ,
      Nat.add_comm]

theorem sizeOf_eq (args : List String) :
    sizeOf args = pointerSize * args.length + (strings args).length := by
  induction args with
  | nil => rfl
  | cons arg rest ih =>
    rw [sizeOf, ih, strings_cons, List.length_append, List.length_cons, Nat.mul_succ]
    omega

@[simp] theorem length_layout (argv : Nat) (args : List String) :
    (layout argv args).length = sizeOf args := by
  rw [layout, List.length_append, length_pointers, sizeOf_eq]

theorem pointers_slice (cursor : Nat) (hj : j < args.length) :
    ((pointers cursor args).drop (pointerSize * j)).take pointerSize =
      wordBytes (UInt32.ofNat (cursor + (strings (args.take j)).length)) := by
  induction args generalizing cursor j with
  | nil => exact absurd hj (Nat.not_lt_zero j)
  | cons arg rest ih =>
    rw [pointers]
    cases j with
    | zero =>
      have hlength := length_wordBytes (UInt32.ofNat cursor)
      rw [Nat.mul_zero, List.drop_zero, List.take_append_of_le_length (Nat.le_of_eq hlength.symm),
        List.take_of_length_le (Nat.le_of_eq hlength)]
      rfl
    | succ j =>
      have hdrop : (wordBytes (UInt32.ofNat cursor) ++
          pointers (cursor + (terminated arg).length) rest).drop (pointerSize * (j + 1)) =
          (pointers (cursor + (terminated arg).length) rest).drop (pointerSize * j) := by
        have hlength := length_wordBytes (UInt32.ofNat cursor)
        have hle : (wordBytes (UInt32.ofNat cursor)).length ≤ pointerSize * (j + 1) := by
          rw [hlength, Nat.mul_succ]
          exact Nat.le_add_left ..
        rw [List.drop_append, List.drop_of_length_le hle, hlength, List.nil_append, Nat.mul_succ,
          Nat.add_sub_cancel]
      rw [hdrop, ih _ (Nat.lt_of_succ_lt_succ hj), List.take_succ_cons, strings_cons,
        List.length_append, Nat.add_assoc]

private theorem strings_split (hj : args[j]? = some arg) : strings args =
    strings (args.take j) ++ (terminated arg ++ strings (args.drop (j + 1))) := by
  obtain ⟨hlt, rfl⟩ := List.getElem?_eq_some_iff.1 hj
  rw [← strings_cons, ← List.drop_eq_getElem_cons hlt, strings, strings, strings,
    ← List.flatMap_append, List.take_append_drop]

theorem strings_slice (hj : args[j]? = some arg) :
    ((strings args).drop (strings (args.take j)).length).take (terminated arg).length =
      terminated arg := by
  rw [strings_split hj, List.drop_left, List.take_left]

theorem layout_pointer (argv : Nat) (hj : j < args.length) :
    ((layout argv args).drop (pointerSize * j)).take pointerSize =
      wordBytes (UInt32.ofNat (address argv args j)) := by
  have hroom : pointerSize * j + pointerSize ≤ pointerSize * args.length := by
    rw [← Nat.mul_succ]
    exact Nat.mul_le_mul_left _ hj
  have hlength := length_pointers (argv + pointerSize * args.length) args
  rw [layout, List.drop_append_of_le_length (by omega), List.take_append_of_le_length,
    pointers_slice _ hj, address]
  rw [List.length_drop]
  omega

theorem layout_string (argv : Nat) (hj : args[j]? = some arg) :
    ((layout argv args).drop (address argv args j - argv)).take (terminated arg).length =
      terminated arg := by
  have hplace : address argv args j - argv =
      (pointers (argv + pointerSize * args.length) args).length +
        (strings (args.take j)).length := by
    rw [length_pointers, address]
    omega
  rw [layout, hplace, List.drop_append, List.drop_of_length_le (Nat.le_add_right ..),
    Nat.add_sub_cancel_left, List.nil_append, strings_slice hj]

/-- A string lies behind the pointers, and ends inside the area. -/
theorem address_add_le (argv : Nat) (hj : args[j]? = some arg) :
    argv + pointerSize * args.length ≤ address argv args j ∧
      address argv args j + (terminated arg).length ≤ argv + sizeOf args := by
  have hlength := congrArg List.length (strings_split hj)
  rw [List.length_append, List.length_append] at hlength
  rw [sizeOf_eq, address]
  constructor <;> omega

def Fits (area : ArgumentArea) (index : Nat) (args : List String) (t : PageTable) : Prop :=
  t.Writable (area.argv + pointerSize * index) (pointerSize * args.length) ∧
    t.Writable area.cursor (strings args).length

private theorem fits_nil : area.Fits index [] t :=
  ⟨fun i hi => absurd hi (Nat.not_lt_zero i), fun i hi => absurd hi (Nat.not_lt_zero i)⟩

private theorem fits_cons : area.Fits index (arg :: rest) t ↔
    (t.Writable (area.argv + pointerSize * index) pointerSize ∧
      t.Writable area.cursor (terminated arg).length) ∧
    Fits { area with cursor := area.cursor + (terminated arg).length } (index + 1) rest t := by
  have hpointers : pointerSize * (arg :: rest).length = pointerSize + pointerSize * rest.length := by
    rw [List.length_cons, Nat.mul_succ, Nat.add_comm]
  have hnext : area.argv + pointerSize * index + pointerSize =
      area.argv + pointerSize * (index + 1) := by
    rw [Nat.mul_succ, Nat.add_assoc]
  rw [Fits, Fits, hpointers, strings_cons, List.length_append, PageTable.writable_add,
    PageTable.writable_add, hnext]
  exact and_and_and_comm

theorem Fits.congr (h : t'.mapping = t.mapping) : area.Fits index args t' ↔
    area.Fits index args t := by
  rw [Fits, Fits, PageTable.writable_congr h, PageTable.writable_congr h]

theorem ensures_push (hf : m.Framed) (area : ArgumentArea) (index : Nat) (arg : String) :
    Ensures (area.push index arg) m
      (fun area' m' => area' = { area with cursor := area.cursor + (terminated arg).length } ∧
        (m.table.Writable (area.argv + pointerSize * index) pointerSize ∧
          m.table.Writable area.cursor (terminated arg).length) ∧
        ∃ m₁, Wrote m m₁ (area.argv + pointerSize * index) (wordBytes (UInt32.ofNat area.cursor)) ∧
          Wrote m₁ m' area.cursor (terminated arg))
      (fun stop m' => stop = .refused .badAddress ∧ Confined m m' ∧
        ¬ (m.table.Writable (area.argv + pointerSize * index) pointerSize ∧
          m.table.Writable area.cursor (terminated arg).length)) := by
  obtain ⟨m₁, hpointer, hwrote₁⟩ := store_eq (ε := Errno) hf (area.argv + pointerSize * index)
    (wordBytes (UInt32.ofNat area.cursor))
  obtain ⟨m₂, hstring, hwrote₂⟩ := store_eq (ε := Errno) (hwrote₁.framed hf) area.cursor
    (terminated arg)
  rw [length_wordBytes] at hpointer hwrote₁
  rw [PageTable.reach_congr hwrote₁.mapping] at hstring hwrote₂
  unfold push
  simp only
  rw [ensures_bind, ensures_of_ok hpointer]
  by_cases hn₁ : m.table.reach .write (area.argv + pointerSize * index) 4 = pointerSize
  · rw [if_neg (fun hne => hne hn₁), ensures_bind, ensures_of_ok hstring]
    rw [hn₁, List.take_of_length_le (Nat.le_of_eq (length_wordBytes _))] at hwrote₁
    by_cases hn₂ : m.table.reach .write area.cursor (terminated arg).length =
        (terminated arg).length
    · rw [if_neg (fun hne => hne hn₂), ensures_pure]
      rw [hn₂, List.take_length] at hwrote₂
      exact ⟨rfl, ⟨PageTable.reach_eq_iff_writable.1 hn₁, PageTable.reach_eq_iff_writable.1 hn₂⟩,
        m₁, hwrote₁, hwrote₂⟩
    · rw [if_pos hn₂, ensures_bind, ensures_refuse]
      exact ⟨rfl, hwrote₁.confined.trans hwrote₂.confined,
        fun h => hn₂ (PageTable.reach_eq_iff_writable.2 h.2)⟩
  · rw [if_pos hn₁, ensures_bind, ensures_refuse]
    exact ⟨rfl, hwrote₁.confined, fun h => hn₁ (PageTable.reach_eq_iff_writable.2 h.1)⟩

/-- The memory `m'` is the memory `m` with arguments written from the pointer `index` on. -/
structure Laid (area : ArgumentArea) (index : Nat) (args : List String) (m m' : UserMemory) :
    Prop where
  confined : Confined m m'
  byte : m.table.mapped.Nodup → area.argv + pointerSize * (index + args.length) ≤ area.cursor →
    ∀ b, m'.byte? b =
      if area.argv + pointerSize * index ≤ b ∧
          b < area.argv + pointerSize * (index + args.length) then
        (pointers area.cursor args)[b - (area.argv + pointerSize * index)]?
      else if area.cursor ≤ b ∧ b < area.cursor + (strings args).length then
        (strings args)[b - area.cursor]?
      else m.byte? b
  table : ∀ p, p * pageSize ≤ area.argv →
    area.argv + pointerSize * (index + args.length) ≤ area.cursor →
    area.cursor + (strings args).length ≤ p * pageSize + pageSize →
    m'.table = if args = [] then m.table else m.table.touched .write (p * pageSize) 1

private theorem Laid.nil (area : ArgumentArea) (index : Nat) (m : UserMemory) :
    Laid area index [] m m where
  confined := Confined.refl m
  byte _ _ b := by
    have hpointers : ¬ (area.argv + pointerSize * index ≤ b ∧
        b < area.argv + pointerSize * (index + ([] : List String).length)) := by
      simp only [List.length_nil, Nat.add_zero]
      omega
    have hstrings : ¬ (area.cursor ≤ b ∧ b < area.cursor + (strings []).length) := by
      simp only [strings, List.flatMap_nil, List.length_nil]
      omega
    rw [if_neg hpointers, if_neg hstrings]
  table _ _ _ _ := (if_pos rfl).symm

private theorem Laid.cons {m₁ m₂ : UserMemory}
    (hpointer : Wrote m m₁ (area.argv + pointerSize * index) (wordBytes (UInt32.ofNat area.cursor)))
    (hstring : Wrote m₁ m₂ area.cursor (terminated arg))
    (hrest : Laid { area with cursor := area.cursor + (terminated arg).length } (index + 1) rest
      m₂ m') : Laid area index (arg :: rest) m m' where
  confined := (hpointer.confined.trans hstring.confined).trans hrest.confined
  byte hn hroom b := by
    have hword := length_wordBytes (UInt32.ofNat area.cursor)
    have hpointers := length_pointers (area.cursor + (terminated arg).length) rest
    have hn₁ : m₁.table.mapped.Nodup := by rwa [PageTable.mapped_congr hpointer.mapping]
    have hn₂ : m₂.table.mapped.Nodup := by rwa [PageTable.mapped_congr hstring.mapping]
    have hrestByte := hrest.byte hn₂
    simp only [pointerSize, List.length_cons] at *
    have hbehind : area.argv + 4 * (index + 1) =
        area.argv + 4 * index + (wordBytes (UInt32.ofNat area.cursor)).length := by omega
    have hlast : area.argv + 4 * (index + 1 + rest.length) =
        area.argv + 4 * index + (wordBytes (UInt32.ofNat area.cursor)).length +
          (pointers (area.cursor + (terminated arg).length) rest).length := by omega
    have hend : area.argv + 4 * (index + (rest.length + 1)) = area.argv + 4 * index +
        (wordBytes (UInt32.ofNat area.cursor) ++
          pointers (area.cursor + (terminated arg).length) rest).length := by
      rw [List.length_append]
      omega
    rw [hrestByte (by omega), hstring.byte hn₁, hpointer.byte hn, pointers, strings_cons, hend,
      hlast, hbehind, getElem?_pieces, getElem?_pieces]
    -- The pointer lies apart from both strings, so it might as well have been written behind them.
    have hown : area.cursor ≤ b ∧ b < area.cursor + (terminated arg).length →
        ¬ (area.argv + 4 * index ≤ b ∧
          b < area.argv + 4 * index + (wordBytes (UInt32.ofNat area.cursor)).length) := by omega
    have hlater : area.cursor + (terminated arg).length ≤ b ∧
          b < area.cursor + (terminated arg).length + (strings rest).length →
        ¬ (area.argv + 4 * index ≤ b ∧
          b < area.argv + 4 * index + (wordBytes (UInt32.ofNat area.cursor)).length) := by omega
    rw [ite_ite_comm _ _ _ _ hown, ite_ite_comm _ _ _ _ hlater]
  table p hl hroom hu := by
    have hpos := terminated_pos arg
    rw [strings_cons, List.length_append] at hu
    have hlength := length_wordBytes (UInt32.ofNat area.cursor)
    have htable := hrest.table p hl
    simp only [pointerSize, List.length_cons] at *
    replace htable := htable (by omega) (by omega)
    rw [hstring.table, hpointer.table, hlength,
      PageTable.touched_of_page (p := p) (by decide : 0 < 4) (by omega) (by omega),
      PageTable.touched_of_page (p := p) hpos (by omega) (by omega), PageTable.touched_self]
      at htable
    rw [htable, if_neg (List.cons_ne_nil arg rest)]
    split
    · rfl
    · rw [PageTable.touched_self]

private theorem ensures_pushAll (hf : m.Framed) (area : ArgumentArea) (index : Nat)
    (args : List String) :
    Ensures (area.pushAll index args) m
      (fun area' m' => area'.argv = area.argv ∧ area.Fits index args m.table ∧
        Laid area index args m m')
      (fun stop m' => stop = .refused .badAddress ∧ Confined m m' ∧
        ¬ area.Fits index args m.table) := by
  induction args generalizing m area index with
  | nil => exact ⟨rfl, fits_nil, Laid.nil area index m⟩
  | cons arg rest ih =>
    rw [pushAll, ensures_bind, fits_cons]
    refine (ensures_push hf area index arg).mono ?_ ?_
    · rintro _ m₂ ⟨rfl, hown, m₁, hpointer, hstring⟩
      have hconfined := hpointer.confined.trans hstring.confined
      refine (ih (hconfined.framed hf) _ (index + 1)).mono ?_ ?_
      · rintro area' m' ⟨hargv, hfits, hlaid⟩
        exact ⟨hargv, ⟨hown, (Fits.congr hconfined.mapping).1 hfits⟩,
          Laid.cons hpointer hstring hlaid⟩
      · rintro stop m' ⟨hstop, h, hfits⟩
        exact ⟨hstop, hconfined.trans h, fun hall => hfits ((Fits.congr hconfined.mapping).2 hall.2)⟩
    · rintro stop m' ⟨hstop, hconfined, hown⟩
      exact ⟨hstop, hconfined, fun hall => hown hall.1⟩

theorem ensures_finish (hf : m.Framed) (argv : VirtualAddress) (argc : Nat) (args : List String) :
    Ensures ((start argv argc).finish args) m
      (fun argv' m' => argv' = argv ∧ (start argv argc).Fits 0 args m.table ∧
        Laid (start argv argc) 0 args m m')
      (fun stop m' => stop = .refused .badAddress ∧ Confined m m' ∧
        ¬ (start argv argc).Fits 0 args m.table) := by
  rw [finish, ensures_bind]
  refine (ensures_pushAll hf (start argv argc) 0 args).mono ?_ (fun _ _ h => h)
  rintro area' m' ⟨hargv, hfits, hlaid⟩
  have hsome : VirtualAddress.ofNat? area'.argv = some argv :=
    VirtualAddress.ofNat?_eq_some_iff.2 hargv.symm
  rw [hsome]
  exact ⟨rfl, hfits, hlaid⟩

/-- Arguments that fit a page are written if the page may be. -/
theorem fits_of_page {argv : VirtualAddress} (hsize : sizeOf args ≤ pageSize)
    (hpage : t.Writable argv.toNat pageSize) : (start argv args.length).Fits 0 args t := by
  have hsizeOf := sizeOf_eq args
  simp only [start, Fits, Nat.mul_zero, Nat.add_zero]
  constructor
  · intro i hi
    exact hpage i (by omega)
  · intro i hi
    have h := hpage (pointerSize * args.length + i) (by omega)
    rwa [← Nat.add_assoc] at h

theorem Laid.byte?_before {argv : VirtualAddress} (h : Laid (start argv args.length) 0 args m m')
    (hn : m.table.mapped.Nodup) {b : Nat} (hb : b < argv.toNat) : m'.byte? b = m.byte? b := by
  rw [h.byte hn (by simp only [start, Nat.zero_add]; exact Nat.le_refl _) b]
  split
  · next hpointer =>
    simp only [start] at hpointer
    omega
  · split
    · next hstring =>
      simp only [start] at hstring
      omega
    · rfl

theorem Laid.table_of_start {argv : VirtualAddress} {page : Nat}
    (h : Laid (start argv args.length) 0 args m m') (hargv : argv.toNat = page * pageSize)
    (hsize : sizeOf args ≤ pageSize) :
    m'.table = if args = [] then m.table else m.table.touched .write (page * pageSize) 1 := by
  have hsizeOf := sizeOf_eq args
  apply h.table page (Nat.le_of_eq hargv.symm)
  · simp only [start, Nat.zero_add]
    exact Nat.le_refl _
  · simp only [start, hargv] at *
    omega

/-- A page that was zero holds the layout of its arguments, and zeros behind it. -/
theorem Laid.page {argv : VirtualAddress} (h : Laid (start argv args.length) 0 args m m')
    (hn : m.table.mapped.Nodup)
    (hz : ∀ i < pageSize, m.byte? (argv.toNat + i) = some 0) :
    ∀ i < pageSize, m'.byte? (argv.toNat + i) = some (((layout argv.toNat args)[i]?).getD 0) := by
  intro i hi
  have hsize := sizeOf_eq args
  have hbyte := h.byte hn (by simp only [start, Nat.zero_add]; exact Nat.le_refl _) (argv.toNat + i)
  rw [Nat.mul_zero, Nat.zero_add, Nat.add_zero, hz i hi] at hbyte
  change _ = if argv.toNat ≤ argv.toNat + i ∧ argv.toNat + i < argv.toNat + 4 * args.length then
      (pointers (argv.toNat + 4 * args.length) args)[argv.toNat + i - argv.toNat]?
    else if argv.toNat + 4 * args.length ≤ argv.toNat + i ∧
        argv.toNat + i < argv.toNat + 4 * args.length + (strings args).length then
      (strings args)[argv.toNat + i - (argv.toNat + 4 * args.length)]?
    else some 0 at hbyte
  rw [hbyte, layout, List.getElem?_append, length_pointers]
  simp only [pointerSize] at hsize ⊢
  by_cases hpointer : i < 4 * args.length
  · have hlt : i < (pointers (argv.toNat + 4 * args.length) args).length := by
      rwa [length_pointers]
    rw [if_pos (by omega), if_pos hpointer, Nat.add_sub_cancel_left, List.getElem?_eq_getElem hlt,
      Option.getD_some]
  · rw [if_neg (by omega), if_neg hpointer]
    by_cases hstring : i < 4 * args.length + (strings args).length
    · have hin : argv.toNat + 4 * args.length ≤ argv.toNat + i ∧
          argv.toNat + i < argv.toNat + 4 * args.length + (strings args).length := by omega
      have hplace : argv.toNat + i - (argv.toNat + 4 * args.length) =
          i - 4 * args.length := by omega
      have hlt : i - 4 * args.length < (strings args).length := by omega
      rw [if_pos hin, hplace, List.getElem?_eq_getElem hlt, Option.getD_some]
    · have hout : ¬ (argv.toNat + 4 * args.length ≤ argv.toNat + i ∧
          argv.toNat + i < argv.toNat + 4 * args.length + (strings args).length) := by omega
      rw [if_neg hout, List.getElem?_eq_none (by omega), Option.getD_none]

end ArgumentArea

end PagedKernel

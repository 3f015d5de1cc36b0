import Mathlib.Data.List.TakeWhile
import PagedKernel.Text.Blank
import PagedKernel.Text.Numeral

/-!
# The parts of a text

A text is cut into lines, a line at a character, white space is taken from both ends, and digits
spell a number. Each part is told by what it is put together to, and what the functions on texts
find is that part.
-/

namespace PagedKernel.Text

variable {c : Char} {cs before kept core : List Char} {acc n : Nat}

/-- The lines of a text. A line ends at a line feed, and a carriage return right before that belongs
to the end. What stands behind the last end is a line if there is anything. -/
inductive Rows : List Char → List (List Char) → Prop
  | nil : Rows [] []
  | last {row : List Char} (hne : row ≠ []) (hrow : '\n' ∉ row) : Rows row [row]
  | feed {row rest : List Char} {rows : List (List Char)} (hrow : '\n' ∉ row)
      (hreturn : row.getLast? ≠ some '\r') (hrest : Rows rest rows) :
      Rows (row ++ '\n' :: rest) (row :: rows)
  | returnFeed {row rest : List Char} {rows : List (List Char)} (hrow : '\n' ∉ row)
      (hrest : Rows rest rows) : Rows (row ++ '\r' :: '\n' :: rest) (row :: rows)

/-- What stands before the first place of a character, or everything if it has none. -/
inductive UpTo (c : Char) : List Char → List Char → Prop
  | whole {cs : List Char} (h : c ∉ cs) : UpTo c cs cs
  | cut {kept : List Char} (h : c ∉ kept) (rest : List Char) : UpTo c (kept ++ c :: rest) kept

/-- What is left of a text without the white space around it. -/
structure Trimmed (cs core : List Char) : Prop where
  around : ∃ before after, cs = before ++ core ++ after ∧ (∀ c ∈ before, isBlank c = true) ∧
    ∀ c ∈ after, isBlank c = true
  first : core.head?.any isBlank = false
  last : core.getLast?.any isBlank = false

/-- Decimal digits, perhaps behind a plus sign, spell a number that fits a counter. -/
def Spells (cs : List Char) (n : Nat) : Prop :=
  ∃ digits, (cs = digits ∨ cs = '+' :: digits) ∧ digits ≠ [] ∧ (∀ c ∈ digits, c.isDigit = true) ∧
    Nat.ofDigitChars 10 digits 0 = n ∧ n < counterRange

theorem exists_rows (cs : List Char) : ∃ rows, Rows cs rows := by
  induction hlength : cs.length using Nat.strongRecOn generalizing cs with
  | _ length ih =>
    -- The first line feed ends the first line, and what is behind it is shorter.
    by_cases hfeed : '\n' ∈ cs
    · obtain ⟨row, rest, rfl, hrow⟩ := List.eq_append_cons_of_mem hfeed
      have hshort : rest.length < length := by
        rw [← hlength, List.length_append, List.length_cons]
        omega
      obtain ⟨rows, hrows⟩ := ih _ hshort rest rfl
      by_cases hreturn : row.getLast? = some '\r'
      · obtain ⟨row, rfl⟩ := List.getLast?_eq_some_iff.1 hreturn
        rw [List.append_assoc]
        exact ⟨_, .returnFeed (fun h => hrow (List.mem_append_left _ h)) hrows⟩
      · exact ⟨_, .feed hrow hreturn hrows⟩
    · cases cs with
      | nil => exact ⟨[], .nil⟩
      | cons c cs => exact ⟨_, .last (List.cons_ne_nil c cs) hfeed⟩

theorem takeWhile_ne_append (hbefore : c ∉ before) (rest : List Char) :
    (before ++ c :: rest).takeWhile (· != c) = before := by
  rw [List.takeWhile_append_of_pos, List.takeWhile_cons_of_neg (by simp), List.append_nil]
  intro d hd
  simpa using ne_of_mem_of_not_mem hd hbefore

theorem dropWhile_ne_append (hbefore : c ∉ before) (rest : List Char) :
    (before ++ c :: rest).dropWhile (· != c) = c :: rest := by
  rw [List.dropWhile_append_of_pos, List.dropWhile_cons_of_neg (by simp)]
  intro d hd
  simpa using ne_of_mem_of_not_mem hd hbefore

theorem dropWhile_ne_eq_nil (h : c ∉ cs) : cs.dropWhile (· != c) = [] := by
  rw [List.dropWhile_eq_nil_iff]
  intro d hd
  simpa using ne_of_mem_of_not_mem hd h

theorem UpTo.takeWhile_eq (h : UpTo c cs kept) : cs.takeWhile (· != c) = kept := by
  cases h with
  | whole h =>
    rw [List.takeWhile_eq_self_iff]
    intro d hd
    simpa using ne_of_mem_of_not_mem hd h
  | cut h rest => exact takeWhile_ne_append h rest

theorem upTo_takeWhile (c : Char) (cs : List Char) : UpTo c cs (cs.takeWhile (· != c)) := by
  by_cases h : c ∈ cs
  · obtain ⟨kept, rest, rfl, hkept⟩ := List.eq_append_cons_of_mem h
    rw [takeWhile_ne_append hkept]
    exact .cut hkept rest
  · rw [(UpTo.whole h).takeWhile_eq]
    exact .whole h

private theorem dropWhile_isBlank (h : cs.head?.any isBlank = false) : cs.dropWhile isBlank = cs := by
  cases cs with
  | nil => rfl
  | cons c cs =>
    have hc : isBlank c = false := h
    rw [List.dropWhile_cons_of_neg (by simp [hc])]

private theorem head?_dropWhile_isBlank (cs : List Char) :
    (cs.dropWhile isBlank).head?.any isBlank = false := by
  have h := List.head?_dropWhile_not isBlank cs
  cases hhead : (cs.dropWhile isBlank).head? with
  | none => rfl
  | some c =>
    rw [hhead] at h
    exact h

theorem trimmed_trim (cs : List Char) : Trimmed cs (trim cs) := by
  let tail : List Char := cs.dropWhile isBlank
  have htail : tail = trim cs ++ (tail.reverse.takeWhile isBlank).reverse := by
    rw [trim, ← List.reverse_append, List.takeWhile_append_dropWhile, List.reverse_reverse]
  refine ⟨⟨cs.takeWhile isBlank, (tail.reverse.takeWhile isBlank).reverse, ?_, ?_, ?_⟩, ?_, ?_⟩
  · rw [List.append_assoc, ← htail, List.takeWhile_append_dropWhile]
  · exact fun c hc => List.mem_takeWhile_imp hc
  · exact fun c hc => List.mem_takeWhile_imp (List.mem_reverse.1 hc)
  · have hfirst : tail.head?.any isBlank = false := head?_dropWhile_isBlank cs
    rw [htail] at hfirst
    cases hhead : trim cs with
    | nil => rfl
    | cons c rest =>
      rw [hhead] at hfirst
      exact hfirst
  · rw [trim, List.getLast?_reverse]
    exact head?_dropWhile_isBlank _

theorem Trimmed.trim_eq (h : Trimmed cs core) : trim cs = core := by
  obtain ⟨⟨before, after, rfl, hbefore, hafter⟩, hfirst, hlast⟩ := h
  rw [trim, List.append_assoc, List.dropWhile_append_of_pos hbefore]
  by_cases hcore : core = []
  · rw [hcore, List.nil_append, List.dropWhile_eq_nil_iff.2 hafter]
    rfl
  · have hhead : (core ++ after).dropWhile isBlank = core ++ after := by
      obtain ⟨c, rest, rfl⟩ := List.exists_cons_of_ne_nil hcore
      exact dropWhile_isBlank hfirst
    have hend : core.reverse.dropWhile isBlank = core.reverse := by
      apply dropWhile_isBlank
      rwa [List.head?_reverse]
    rw [hhead, List.reverse_append, List.dropWhile_append_of_pos, hend, List.reverse_reverse]
    exact fun c hc => hafter c (List.mem_reverse.1 hc)

private theorem isBlank_of_isDigit (h : c.isDigit = true) : isBlank c = false := by
  have hrange : 48 ≤ c.toNat ∧ c.toNat ≤ 57 := by
    simpa [Char.isDigit, UInt32.le_iff_toNat_le] using h
  simp only [isBlank, blankRanges, List.any_cons, List.any_nil, Bool.or_false, Bool.or_eq_false_iff,
    Bool.and_eq_false_iff, decide_eq_false_iff_not]
  omega

theorem any_isBlank_of_isDigit {o : Option Char} (h : ∀ c ∈ o, c.isDigit = true) :
    o.any isBlank = false := by
  cases o with
  | none => rfl
  | some c => exact isBlank_of_isDigit (h c rfl)

private theorem digit?_eq_some_iff {d : Nat} :
    digit? c = some d ↔ c.isDigit = true ∧ c.toNat - '0'.toNat = d := by
  have hdigit : c.isDigit = true ↔ '0' ≤ c ∧ c ≤ '9' := by
    simp [Char.isDigit, Char.le_def]
  rw [digit?, hdigit]
  split
  · next h => rw [Option.some.injEq, and_iff_right h]
  · next h => exact ⟨nofun, fun hd => absurd hd.1 h⟩

private theorem digits?_eq_some_iff : digits? acc cs = some n ↔
    (∀ c ∈ cs, c.isDigit = true) ∧ Nat.ofDigitChars 10 cs acc = n := by
  induction cs generalizing acc with
  | nil => simp [digits?, Nat.ofDigitChars]
  | cons c cs ih =>
    rw [digits?, Nat.ofDigitChars_cons, List.forall_mem_cons, and_assoc]
    cases hdigit : digit? c with
    | none =>
      have hnot : ¬ c.isDigit = true := by
        intro h
        rw [digit?_eq_some_iff.2 ⟨h, rfl⟩] at hdigit
        cases hdigit
      simp [hnot]
    | some d =>
      obtain ⟨hc, rfl⟩ := digit?_eq_some_iff.1 hdigit
      simp only [ih, hc, true_and]

private theorem filter_digits?_eq_some_iff {digits : List Char} :
    (if digits.isEmpty then none else (digits? 0 digits).filter (· < counterRange)) = some n ↔
      digits ≠ [] ∧ (∀ c ∈ digits, c.isDigit = true) ∧ Nat.ofDigitChars 10 digits 0 = n ∧
        n < counterRange := by
  split
  · next h => exact ⟨nofun, fun hd => absurd (List.isEmpty_iff.1 h) hd.1⟩
  · next h =>
    rw [Option.filter_eq_some_iff, digits?_eq_some_iff, decide_eq_true_iff, and_assoc,
      and_iff_right (mt List.isEmpty_iff.2 h)]

theorem spells_iff : Spells cs n ↔ counter? cs = some n := by
  by_cases hsign : ∃ rest, cs = '+' :: rest
  · obtain ⟨rest, rfl⟩ := hsign
    rw [counter?, filter_digits?_eq_some_iff]
    constructor
    · rintro ⟨digits, rfl | hdigits, hspelt⟩
      · -- A plus sign is no digit, so the digits are those behind it.
        have hplus : '+'.isDigit = true := hspelt.2.1 _ (List.mem_cons_self ..)
        cases hplus
      · cases hdigits
        exact hspelt
    · exact fun hspelt => ⟨rest, .inr rfl, hspelt⟩
  · rw [counter?, filter_digits?_eq_some_iff]
    · constructor
      · rintro ⟨digits, rfl | hdigits, hspelt⟩
        · exact hspelt
        · exact absurd ⟨digits, hdigits⟩ hsign
      · exact fun hspelt => ⟨cs, .inl rfl, hspelt⟩
    · exact fun rest hrest => hsign ⟨rest, hrest⟩

end PagedKernel.Text

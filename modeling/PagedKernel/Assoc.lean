/-! # Finite maps as lists of pairs -/

namespace PagedKernel

/-- A finite map. Setting a key takes its earlier pairs out, so a key occurs at most once. -/
abbrev Assoc (κ α : Type) : Type := List (κ × α)

namespace Assoc

variable {κ α : Type} [DecidableEq κ]

def find? (m : Assoc κ α) (k : κ) : Option α :=
  match m with
  | [] => none
  | (key, a) :: rest => if key = k then some a else find? rest k

def erase (m : Assoc κ α) (k : κ) : Assoc κ α := m.filter fun p => !decide (p.1 = k)

def insert (m : Assoc κ α) (k : κ) (a : α) : Assoc κ α := erase m k ++ [(k, a)]

omit [DecidableEq κ] in
def mapValues (m : Assoc κ α) (f : α → α) : Assoc κ α := m.map fun p => (p.1, f p.2)

theorem mem_of_find? {m : Assoc κ α} {k : κ} {a : α} (h : find? m k = some a) : (k, a) ∈ m := by
  induction m with
  | nil => cases h
  | cons p m ih =>
    rw [find?] at h
    split at h
    · next hk =>
      cases h
      exact hk ▸ List.mem_cons_self ..
    · exact List.mem_cons_of_mem _ (ih h)

theorem mem_insert {m : Assoc κ α} {k : κ} {a : α} {p : κ × α} (h : p ∈ insert m k a) :
    p = (k, a) ∨ p.1 ≠ k ∧ p ∈ m := by
  rcases List.mem_append.1 h with hold | hnew
  · obtain ⟨hmem, hne⟩ := List.mem_filter.1 hold
    exact Or.inr ⟨by simpa using hne, hmem⟩
  · exact Or.inl (List.mem_singleton.1 hnew)

theorem find?_append (m n : Assoc κ α) (k : κ) :
    find? (m ++ n) k = (find? m k).or (find? n k) := by
  induction m with
  | nil => simp [find?]
  | cons p m ih =>
    by_cases h : p.1 = k <;> simp [find?, h, ih]

theorem find?_erase (m : Assoc κ α) (k l : κ) :
    find? (erase m k) l = if k = l then none else find? m l := by
  induction m with
  | nil => simp [erase, find?]
  | cons p m ih =>
    unfold erase at ih ⊢
    by_cases h : p.1 = k
    · subst h
      rw [List.filter_cons_of_neg (by simp), ih]
      by_cases hl : p.1 = l <;> simp [find?, hl]
    · by_cases hl : p.1 = l
      · subst hl
        simp [h, find?, Ne.symm h]
      · simp [h, find?, hl, ih]

theorem find?_insert (m : Assoc κ α) (k l : κ) (a : α) :
    find? (insert m k a) l = if k = l then some a else find? m l := by
  rw [insert, find?_append, find?_erase]
  by_cases h : k = l
  · subst h; simp [find?]
  · simp [find?, h]

theorem find?_mapValues (m : Assoc κ α) (f : α → α) (k : κ) :
    find? (mapValues m f) k = (find? m k).map f := by
  induction m with
  | nil => rfl
  | cons p m ih =>
    unfold mapValues at ih ⊢
    by_cases h : p.1 = k <;> simp [find?, h, ih]

def keys (m : Assoc κ α) : List κ := m.map Prod.fst

theorem find?_isSome_iff {m : Assoc κ α} {k : κ} : (find? m k).isSome ↔ k ∈ m.keys := by
  induction m with
  | nil => simp [find?, keys]
  | cons p m ih =>
    unfold keys at ih ⊢
    by_cases h : p.1 = k
    · simp [find?, h]
    · simp [find?, h, Ne.symm h, ih]

omit [DecidableEq κ] in
theorem keys_filter (m : Assoc κ α) (f : κ → Bool) :
    keys (m.filter fun p => f p.1) = m.keys.filter f := by
  rw [keys, keys, List.filter_map]
  rfl

theorem keys_erase (m : Assoc κ α) (k : κ) : (erase m k).keys = m.keys.filter (· ≠ k) := by
  rw [← keys_filter, erase]
  simp

theorem keys_insert (m : Assoc κ α) (k : κ) (a : α) :
    (insert m k a).keys = m.keys.filter (· ≠ k) ++ [k] := by
  rw [insert, keys, List.map_append, ← keys, keys_erase]
  rfl

omit [DecidableEq κ] in
@[simp] theorem keys_mapValues (m : Assoc κ α) (f : α → α) : (m.mapValues f).keys = m.keys := by
  unfold keys mapValues
  rw [List.map_map]
  rfl

theorem foldl_erase (m : Assoc κ α) (ks : List κ) :
    ks.foldl erase m = m.filter fun p => !decide (p.1 ∈ ks) := by
  induction ks generalizing m with
  | nil => exact (List.filter_eq_self.2 fun _ _ => rfl).symm
  | cons k ks ih =>
    rw [List.foldl_cons, ih, erase, List.filter_filter]
    congr 1
    funext p
    by_cases h : p.1 = k <;> simp [h]

theorem mem_of_mem_foldl_erase {m : Assoc κ α} {ks : List κ} {p : κ × α}
    (h : p ∈ ks.foldl erase m) : p ∈ m := by
  rw [foldl_erase] at h
  exact (List.mem_filter.1 h).1

theorem keys_foldl_erase (m : Assoc κ α) (ks : List κ) :
    (ks.foldl erase m).keys = m.keys.filter (· ∉ ks) := by
  rw [foldl_erase, ← keys_filter]
  simp

end Assoc

end PagedKernel

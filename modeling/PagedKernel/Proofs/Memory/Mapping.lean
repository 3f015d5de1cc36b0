import PagedKernel.Memory.UserMemory

/-!
# What a page table maps

The entries of a page table without the marks of their use: which frame holds each page, whether the
entry is valid and whether the page may be written. Accesses change the marks and nothing else, so
they keep the mapping.
-/

namespace PagedKernel

theorem div_pageSize_eq_iff {a p : Nat} :
    a / pageSize = p ↔ p * pageSize ≤ a ∧ a < p * pageSize + pageSize := by
  simp only [pageSize]
  omega

theorem pageSize_pos : 0 < pageSize := by decide

theorem Flags.touch_touch (f : Flags) (access : Access) :
    (f.touch access).touch access = f.touch access := by
  cases access <;> rfl

def Entry.touch (e : Entry) (access : Access) : Entry := { e with flags := e.flags.touch access }

def Entry.bare (e : Entry) : Entry :=
  { e with flags := { e.flags with used := false, dirty := false } }

@[simp] private theorem Entry.bare_frame (e : Entry) : e.bare.frame = e.frame := rfl

@[simp] private theorem Entry.bare_vpn (e : Entry) : e.bare.vpn = e.vpn := rfl

@[simp] private theorem Entry.bare_valid (e : Entry) : e.bare.flags.valid = e.flags.valid := rfl

theorem Entry.frame_congr {e e' : Entry} (h : e'.bare = e.bare) : e'.frame = e.frame := by
  rw [← bare_frame e', h, bare_frame]

theorem Entry.vpn_congr {e e' : Entry} (h : e'.bare = e.bare) : e'.vpn = e.vpn := by
  rw [← bare_vpn e', h, bare_vpn]

theorem Entry.valid_congr {e e' : Entry} (h : e'.bare = e.bare) :
    e'.flags.valid = e.flags.valid := by
  rw [← bare_valid e', h, bare_valid]

@[simp] theorem Entry.bare_touch (e : Entry) (access : Access) :
    (e.touch access).bare = e.bare := by
  cases access <;> rfl

namespace PageTable

variable {t t' : PageTable} {a b p i : Nat} {access : Access} {e : Entry}

@[simp] private theorem permits_bare (e : PagedKernel.Entry) (access : Access) :
    Entry.permits e.bare access = Entry.permits e access := by
  cases access <;> rfl

def mapping (t : PageTable) : List Entry := t.entries.map Entry.bare

/-- The frames that the entries name, whether valid or not. -/
def mapped (t : PageTable) : List Nat := t.entries.map (·.frame)

def Numbered (t : PageTable) : Prop :=
  ∀ (i : Nat) (e : PagedKernel.Entry), t.entries[i]? = some e → e.vpn = i

def AllValid (t : PageTable) : Prop := ∀ e ∈ t.entries, e.flags.valid = true

def permits (t : PageTable) (access : Access) (a : Nat) : Bool :=
  match VirtualAddress.ofNat? a with
  | some va => t.accessible va access
  | none => false

theorem getElem?_mapping (t : PageTable) (i : Nat) :
    t.mapping[i]? = (t.entries[i]?).map Entry.bare := List.getElem?_map

@[simp] private theorem length_mapping (t : PageTable) :
    t.mapping.length = t.length := List.length_map _

@[simp] theorem length_mapped (t : PageTable) : t.mapped.length = t.length := List.length_map _

private theorem mapped_eq (t : PageTable) : t.mapped = t.mapping.map (·.frame) := by
  simp [mapped, mapping, Function.comp_def]

theorem mapped_congr (h : t'.mapping = t.mapping) : t'.mapped = t.mapped := by
  rw [mapped_eq, h, ← mapped_eq]

theorem length_congr (h : t'.mapping = t.mapping) : t'.length = t.length := by
  rw [← length_mapping, h, length_mapping]

theorem getElem?_congr (h : t'.mapping = t.mapping) (hi : t.entries[i]? = some e) :
    ∃ e', t'.entries[i]? = some e' ∧ e'.bare = e.bare := by
  have hm : t'.mapping[i]? = some e.bare := by
    rw [h, getElem?_mapping, hi]
    rfl
  rw [getElem?_mapping] at hm
  exact Option.map_eq_some_iff.1 hm

theorem getElem?_eq_none_congr (h : t'.mapping = t.mapping) (hi : t.entries[i]? = none) :
    t'.entries[i]? = none := by
  rw [List.getElem?_eq_none_iff] at hi ⊢
  have hl : t'.entries.length = t.entries.length := length_congr h
  rw [hl]
  exact hi

theorem Numbered.congr (h : t'.mapping = t.mapping) (hn : t.Numbered) : t'.Numbered := by
  intro i e hi
  obtain ⟨e', hi', he⟩ := getElem?_congr h.symm hi
  rw [← Entry.vpn_congr he]
  exact hn i e' hi'

theorem AllValid.congr (h : t'.mapping = t.mapping) (hv : t.AllValid) : t'.AllValid := by
  intro e he
  obtain ⟨i, hi⟩ := List.mem_iff_getElem?.1 he
  obtain ⟨e', hi', hb⟩ := getElem?_congr h.symm hi
  rw [← Entry.valid_congr hb]
  exact hv e' (List.mem_iff_getElem?.2 ⟨i, hi'⟩)

theorem AllValid.frames_eq (hv : t.AllValid) : t.frames = t.mapped := by
  have hf : t.entries.filter (·.flags.valid) = t.entries := List.filter_eq_self.2 hv
  rw [frames, hf, mapped]

/-- Frames that go back when a table is emptied are among those that its entries name. -/
theorem frames_sublist (t : PageTable) : t.frames.Sublist t.mapped :=
  List.filter_sublist.map _

private theorem walk_eq_ok {va : VirtualAddress} (h : t.walk va = .ok e) :
    t.entries[va.page]? = some e ∧ e.flags.valid = true := by
  unfold walk at h
  split at h
  · cases h
  · next e' he =>
    split at h
    · next hv =>
      cases h
      exact ⟨he, hv⟩
    · cases h

private theorem walk_of_entry {va : VirtualAddress} (h : t.entries[va.page]? = some e)
    (hv : e.flags.valid = true) : t.walk va = .ok e := by
  simp only [walk, h, hv, if_true]

theorem permits_iff :
    t.permits access a = true ↔ a ≤ addressLimit ∧
      ∃ e, t.entries[a / pageSize]? = some e ∧ e.flags.valid = true ∧
        Entry.permits e access = true := by
  unfold permits
  split
  · next va hva =>
    have hn : va.toNat = a := VirtualAddress.ofNat?_eq_some_iff.1 hva
    have hpage : va.page = a / pageSize := by rw [VirtualAddress.page, hn]
    rw [← hpage]
    constructor
    · intro h
      refine ⟨hn ▸ va.le_limit, ?_⟩
      unfold accessible at h
      split at h
      · next e hw =>
        obtain ⟨he, hv⟩ := walk_eq_ok hw
        exact ⟨e, he, hv, h⟩
      · cases h
    · rintro ⟨-, e, he, hv, hp⟩
      simp only [accessible, walk_of_entry he hv, hp]
  · next hva =>
    have hlimit := VirtualAddress.ofNat?_eq_none_iff.1 hva
    constructor
    · intro h
      cases h
    · rintro ⟨hle, -⟩
      omega

theorem permits_congr (h : t'.mapping = t.mapping) (access : Access) (a : Nat) :
    t'.permits access a = t.permits access a := by
  rw [Bool.eq_iff_iff, permits_iff, permits_iff]
  have hstep : ∀ {t t' : PageTable}, t'.mapping = t.mapping →
      (∃ e, t.entries[a / pageSize]? = some e ∧ e.flags.valid = true ∧
        Entry.permits e access = true) →
      ∃ e, t'.entries[a / pageSize]? = some e ∧ e.flags.valid = true ∧
        Entry.permits e access = true := by
    rintro t t' h ⟨e, he, hv, hp⟩
    obtain ⟨e', he', hb⟩ := getElem?_congr h he
    refine ⟨e', he', ?_, ?_⟩
    · rw [← Entry.bare_valid, hb, Entry.bare_valid, hv]
    · rw [← permits_bare, hb, permits_bare, hp]
  exact ⟨fun ⟨hl, hx⟩ => ⟨hl, hstep h.symm hx⟩, fun ⟨hl, hx⟩ => ⟨hl, hstep h hx⟩⟩

theorem permits_of_page (h : t.permits access a = true) (hp : b / pageSize = a / pageSize) :
    t.permits access b = true := by
  obtain ⟨hl, he⟩ := permits_iff.1 h
  refine permits_iff.2 ⟨?_, hp ▸ he⟩
  simp only [pageSize, addressLimit] at *
  omega

theorem setEntry_touch_mapping (h : t.entries[p]? = some e) (access : Access) :
    (t.setEntry p (e.touch access)).mapping = t.mapping := by
  apply List.ext_getElem?
  intro i
  rw [getElem?_mapping, getElem?_mapping, setEntry, List.getElem?_set]
  by_cases hi : p = i
  · subst hi
    obtain ⟨hp, rfl⟩ := List.getElem?_eq_some_iff.1 h
    simp [hp]
  · simp [hi]

section

variable {flags : Flags} (he : t.entries[p]? = some e)

include he

theorem mapped_setEntry : (t.setEntry p { e with flags }).mapped = t.mapped := by
  have hself : t.mapped[p]? = some e.frame := by
    rw [mapped, List.getElem?_map, he]
    rfl
  obtain ⟨hlt, hget⟩ := List.getElem?_eq_some_iff.1 hself
  have hset : (t.setEntry p { e with flags }).mapped = t.mapped.set p e.frame := by
    rw [mapped, setEntry, List.map_set, mapped]
  rw [hset, ← hget, List.set_getElem_self]

theorem Numbered.setEntry (hn : t.Numbered) : (t.setEntry p { e with flags }).Numbered := by
  intro i e' hi
  rw [PageTable.setEntry, List.getElem?_set] at hi
  split at hi
  · next heq =>
    split at hi
    · cases hi
      exact (hn p e he).trans heq
    · cases hi
  · exact hn i e' hi

omit he in
theorem AllValid.setEntry (hv : t.AllValid) (hflags : flags.valid = true) :
    (t.setEntry p { e with flags }).AllValid := by
  intro e' hmem
  rcases List.mem_or_eq_of_mem_set hmem with hold | rfl
  · exact hv e' hold
  · exact hflags

end

theorem adjust_eq_ok {va : VirtualAddress} {add remove : Flags} {e' : PagedKernel.Entry}
    (h : t.adjust va add remove = .ok (e', t')) :
    ∃ e, t.walk va = .ok e ∧ t.entries[va.page]? = some e ∧
      t' = t.setEntry va.page { e with flags := (e.flags.union add).diff remove } := by
  rw [adjust] at h
  cases hw : t.walk va with
  | error cause =>
    rw [hw] at h
    cases h
  | ok e =>
    rw [hw] at h
    cases h
    exact ⟨e, rfl, (walk_eq_ok hw).1, rfl⟩

theorem translateNat_of_permits (h : t.permits access a = true) :
    ∃ e, t.entries[a / pageSize]? = some e ∧ e.flags.valid = true ∧
      Entry.permits e access = true ∧
      t.translateNat a access =
        .ok (.ofFrame e.frame (a % pageSize), t.setEntry (a / pageSize) (e.touch access)) := by
  obtain ⟨hl, e, he, hv, hp⟩ := permits_iff.1 h
  refine ⟨e, he, hv, hp, ?_⟩
  have hva : VirtualAddress.ofNat? a = some ⟨a, hl⟩ :=
    VirtualAddress.ofNat?_eq_some_iff.2 rfl
  have hw : t.walk ⟨a, hl⟩ = .ok e := walk_of_entry he hv
  simp only [translateNat, hva, translate, hw, hp, if_true]
  rfl

theorem translateNat_of_not_permits (h : t.permits access a = false) :
    ∃ cause, t.translateNat a access = .error cause := by
  unfold permits at h
  unfold translateNat
  split
  · exact ⟨_, rfl⟩
  · next va hva =>
    simp only [hva, accessible] at h
    unfold translate
    split
    · exact ⟨_, rfl⟩
    · next e hw =>
      simp only [hw] at h
      simp only [h, Bool.false_eq_true, if_false]
      exact ⟨_, rfl⟩

theorem translateNat_mapping {pa : PhysicalAddress} (h : t.translateNat a access = .ok (pa, t')) :
    t'.mapping = t.mapping := by
  cases hp : t.permits access a with
  | false =>
    obtain ⟨cause, hc⟩ := translateNat_of_not_permits hp
    rw [hc] at h
    cases h
  | true =>
    obtain ⟨e, he, -, -, ht⟩ := translateNat_of_permits hp
    rw [ht] at h
    simp only [Except.ok.injEq, Prod.mk.injEq] at h
    rw [← h.2]
    exact setEntry_touch_mapping he access

end PageTable

end PagedKernel

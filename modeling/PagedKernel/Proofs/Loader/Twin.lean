import PagedKernel.Proofs.Loader.Load
import PagedKernel.Proofs.Memory.Twin

/-!
# Loads of one program

What a load leaves is settled by the image, the arguments and the size of the stack. Two loads of the
same file into different frames give programs that see the same, and what stands in the way of the
one stands in the way of the other.
-/

namespace PagedKernel

private theorem Section.exists_page {first p : Nat} {sections : List Section}
    (h : Section.misplaced? first sections = none) (hl : first ≤ p)
    (hu : p < first + Section.totalPages sections) :
    ∃ s ∈ sections, ∃ page < s.pages, p = s.firstPage + page := by
  induction sections generalizing first with
  | nil =>
    simp only [totalPages] at hu
    omega
  | cons s rest ih =>
    obtain ⟨hfirst, hrest⟩ := Section.misplaced?_cons h
    simp only [totalPages] at hu
    by_cases hp : p < first + s.pages
    · exact ⟨s, List.mem_cons_self .., p - first, by omega, by omega⟩
    · obtain ⟨s', hs', hpage⟩ := ih hrest (by omega) (by omega)
      exact ⟨s', List.mem_cons_of_mem _ hs', hpage⟩

private theorem Registers.ext_get {r r' : Registers} (h : ∀ i, r'.get i = r.get i) : r' = r := by
  apply congrArg Registers.mk
  apply Vector.ext
  intro i hi
  exact h ⟨i, hi⟩

namespace Loader

open UserMemory

variable {data : Bytes} {entry : Nat} {sections : List Section} {stackPages : Nat}
variable {args : List String} {m m' : UserMemory} {r r' : Registers} {name : String}
variable {machine machine' : Machine} {n n' : Nat} {held held' : List Nat}

private theorem Loaded.registers_unique (h : Loaded data entry sections stackPages args m r)
    (h' : Loaded data entry sections stackPages args m' r') : r' = r := by
  apply Registers.ext_get
  intro i
  rw [h.registers, h'.registers]

private theorem Loaded.entry_unique (h : Loaded data entry sections stackPages args m r)
    (h' : Loaded data entry sections stackPages args m' r') {p : Nat} {e e' : Entry}
    (he : m.table.entries[p]? = some e) (he' : m'.table.entries[p]? = some e') :
    { e' with frame := 0 } = { e with frame := 0 } := by
  have hreadOnly : e'.flags.readOnly = e.flags.readOnly := by
    have hp : p < m.table.length := (List.getElem?_eq_some_iff.1 he).1
    rw [h.length] at hp
    rcases Nat.lt_or_ge p (Section.totalPages sections) with hsection | hstack
    · obtain ⟨s, hs, page, hpage, rfl⟩ :=
        Section.exists_page h.placed (Nat.zero_le p) (by omega)
      obtain ⟨_, hget, hiff⟩ := h.sectionEntry s hs page hpage
      obtain ⟨_, hget', hiff'⟩ := h'.sectionEntry s hs page hpage
      cases he.symm.trans hget
      cases he'.symm.trans hget'
      exact Bool.eq_iff_iff.2 (hiff'.trans hiff.symm)
    · obtain ⟨_, hget, hfalse⟩ := h.stackEntry p hstack (by omega)
      obtain ⟨_, hget', hfalse'⟩ := h'.stackEntry p hstack (by omega)
      cases he.symm.trans hget
      cases he'.symm.trans hget'
      exact hfalse'.trans hfalse.symm
  obtain ⟨hvpn, hvalid, hused, hdirty⟩ := h.marks p e he
  obtain ⟨hvpn', hvalid', hused', hdirty'⟩ := h'.marks p e' he'
  have hflags : e'.flags = e.flags := by
    rw [show e'.flags = ⟨e'.flags.valid, e'.flags.readOnly, e'.flags.used, e'.flags.dirty⟩ from rfl,
      hvalid', hreadOnly, Bool.eq_iff_iff.2 (hused'.trans hused.symm),
      Bool.eq_iff_iff.2 (hdirty'.trans hdirty.symm), ← hvalid]
  rw [hvpn', hflags, ← hvpn]

private theorem Loaded.faceless_unique (h : Loaded data entry sections stackPages args m r)
    (h' : Loaded data entry sections stackPages args m' r') :
    m'.table.faceless = m.table.faceless := by
  refine congrArg PageTable.mk (List.ext_getElem? fun p => ?_)
  change m'.table.faceless.entries[p]? = m.table.faceless.entries[p]?
  have hlength : m'.table.entries.length = m.table.entries.length := h'.length.trans h.length.symm
  rw [PageTable.getElem?_faceless, PageTable.getElem?_faceless]
  rcases Nat.lt_or_ge p m.table.entries.length with hp | hp
  · have he := List.getElem?_eq_getElem hp
    have he' := List.getElem?_eq_getElem (hlength ▸ hp)
    rw [he, he', Option.map_some, Option.map_some, h.entry_unique h' he he']
  · rw [List.getElem?_eq_none hp, List.getElem?_eq_none (hlength ▸ hp)]

private theorem Loaded.byte_unique (hd : Image.Declares data entry sections)
    (h : Loaded data entry sections stackPages args m r)
    (h' : Loaded data entry sections stackPages args m' r') (a : Nat) : m'.byte? a = m.byte? a := by
  have hi : a % pageSize < pageSize := Nat.mod_lt a pageSize_pos
  have hlength := h.length
  have hlength' := h'.length
  rcases Nat.lt_trichotomy (a / pageSize) (Section.totalPages sections + stackPages)
    with hbefore | hargument | hbehind
  · rcases Nat.lt_or_ge (a / pageSize) (Section.totalPages sections) with hsection | hstack
    · obtain ⟨s, hs, page, hpage, hp⟩ :=
        Section.exists_page h.placed (Nat.zero_le (a / pageSize)) (by omega)
      obtain ⟨j, hj⟩ := List.mem_iff_getElem?.1 hs
      have haligned := (hd.stated j s hj).aligned
      have ha : a = s.address + page * pageSize + a % pageSize := by
        simp only [Section.firstPage, pageSize] at *
        omega
      rw [ha, h.sectionByte s hs page hpage _ hi, h'.sectionByte s hs page hpage _ hi]
    · have hl : Section.totalPages sections * pageSize ≤ a := by
        simp only [pageSize] at *
        omega
      have hu : a < (Section.totalPages sections + stackPages) * pageSize := by
        simp only [pageSize] at *
        omega
      rw [h.stackByte a hl hu, h'.stackByte a hl hu]
  · have ha : a = (Section.totalPages sections + stackPages) * pageSize + a % pageSize := by
      simp only [pageSize] at *
      omega
    rw [ha, h.argumentByte _ hi, h'.argumentByte _ hi]
  · have hnone : ∀ m : UserMemory, m.table.length = Section.totalPages sections + stackPages + 1 →
        m.byte? a = none := by
      intro m hm
      have he : m.table.entries[a / pageSize]? = none :=
        List.getElem?_eq_none (by rw [PageTable.length] at hm; omega)
      rw [byte?, he]
    rw [hnone m hlength, hnone m' hlength']

private theorem Mapped.framed {s : AddressSpace} (h : Mapped machine s)
    (hl : machine.pool.Ledger n held) (hn : n ≤ machine.memory.size) :
    Framed ⟨s.table, s.machine.memory⟩ := by
  intro f hf
  have hlt := (h.ledger hl).held_lt (List.mem_append_left _ hf)
  rw [h.size]
  omega

/-- What stands in the way of a load is read off the devices, the configuration and the number of
free frames. -/
theorem Obstacle.congr {e : LoadError} (hdevices : machine'.devices = machine.devices)
    (hconfig : machine'.config = machine.config)
    (havailable : machine'.pool.available = machine.pool.available)
    (h : Obstacle machine name args e) : Obstacle machine' name args e := by
  cases h with
  | missing hnone => exact .missing (by rwa [hdevices])
  | malformed hopen hrefused => exact .malformed (by rwa [hdevices]) hrefused
  | hindered hcontents hdeclares hhindered =>
    exact .hindered (by rwa [hdevices]) hdeclares (by rwa [hconfig, havailable])

/-- Loads of the same file on machines with as many free frames give programs that see the same, or
are refused for the same reason. -/
theorem twin_load (hl : machine.pool.Ledger n held) (hn : n ≤ machine.memory.size)
    (hl' : machine'.pool.Ledger n' held') (hn' : n' ≤ machine'.memory.size)
    (hdevices : machine'.devices = machine.devices) (hconfig : machine'.config = machine.config)
    (havailable : machine'.pool.available = machine.pool.available) (name : String)
    (args : List String) :
    (∃ t t' r s s', load name args machine = .ok (t, r) s ∧
      load name args machine' = .ok (t', r) s' ∧ Twin ⟨t, s.memory⟩ ⟨t', s'.memory⟩) ∨
    ∃ e s s', load name args machine = .error (.refused e) s ∧
      load name args machine' = .error (.refused e) s' := by
  have hload : Ensures (load name args) machine _ _ := ensures_load hl hn
  have hload' : Ensures (load name args) machine' _ _ := ensures_load hl' hn'
  rcases hx : load name args machine with ⟨⟨t, r⟩, s⟩ | ⟨stop, s⟩
  · obtain ⟨-, hnone, hmapped, data, entry, sections, hcontents, hdeclares, hloaded⟩ :=
      hload.of_ok hx
    rcases hx' : load name args machine' with ⟨⟨t', r'⟩, s'⟩ | ⟨stop', s'⟩
    · obtain ⟨-, -, hmapped', data', entry', sections', hcontents', hdeclares', hloaded'⟩ :=
        hload'.of_ok hx'
      rw [hdevices, hcontents, Option.some.injEq] at hcontents'
      subst hcontents'
      obtain ⟨rfl, rfl⟩ := hdeclares.unique hdeclares'
      rw [hconfig] at hloaded'
      obtain rfl := hloaded.registers_unique hloaded'
      have hsame : Twin ⟨t, s.memory⟩ ⟨t', s'.memory⟩ :=
        ⟨hloaded.faceless_unique hloaded', hloaded.byte_unique hdeclares hloaded',
          hmapped.framed hl hn, hmapped'.framed hl' hn',
          (List.nodup_append.1 (hmapped.ledger hl).held_nodup).1,
          (List.nodup_append.1 (hmapped'.ledger hl').held_nodup).1⟩
      exact .inl ⟨t, t', r', s, s', rfl, rfl, hsame⟩
    · obtain ⟨⟨e, -, hobstacle⟩, -⟩ := hload'.of_error hx'
      exact absurd (hobstacle.congr hdevices.symm hconfig.symm havailable.symm) (hnone e)
  · obtain ⟨⟨e, rfl, hobstacle⟩, -⟩ := hload.of_error hx
    rcases hx' : load name args machine' with ⟨⟨t', r'⟩, s'⟩ | ⟨stop', s'⟩
    · obtain ⟨-, hnone, -⟩ := hload'.of_ok hx'
      exact absurd (hobstacle.congr hdevices hconfig havailable) (hnone e)
    · obtain ⟨⟨e', rfl, hobstacle'⟩, -⟩ := hload'.of_error hx'
      obtain rfl := hobstacle.unique (hobstacle'.congr hdevices.symm hconfig.symm havailable.symm)
      exact .inr ⟨e, s, s', rfl, rfl⟩

end Loader

end PagedKernel

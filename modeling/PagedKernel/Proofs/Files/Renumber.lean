import PagedKernel.Proofs.Files.Footprint

/-!
# Other numbers for files

A file that is made gets the next number. Made after files elsewhere it gets a higher one, and this
is all that the order of such work changes.
-/

namespace PagedKernel

variable {ρ σ : FileId → FileId} {limit : Nat}

def Source.renumber (ρ : FileId → FileId) : Source → Source
  | .file name id position => .file name (id.map ρ) position
  | .input isOpen => .input isOpen
  | .output isOpen => .output isOpen

def OpenFile.renumber (ρ : FileId → FileId) (file : OpenFile) : OpenFile :=
  { file with source := file.source.renumber ρ }

theorem OpenFile.renumber_congr {file : OpenFile}
    (h : ∀ id, file.source.id? = some id → ρ id = σ id) : file.renumber ρ = file.renumber σ := by
  obtain ⟨source, limits⟩ := file
  match source with
  | .file name (some id) position => simp [renumber, Source.renumber, h id rfl]
  | .file name none position => rfl
  | .input isOpen => rfl
  | .output isOpen => rfl

@[simp] private theorem OpenFile.renumber_id (file : OpenFile) : file.renumber id = file := by
  obtain ⟨source, limits⟩ := file
  cases source <;> simp [renumber, Source.renumber]

private theorem OpenFile.renumber_renumber (file : OpenFile) :
    (file.renumber ρ).renumber σ = file.renumber (σ ∘ ρ) := by
  obtain ⟨source, limits⟩ := file
  cases source <;> simp [renumber, Source.renumber]

@[simp] private theorem OpenFile.holdsFile_renumber (file : OpenFile) :
    (file.renumber ρ).source.holdsFile = file.source.holdsFile := by
  obtain ⟨source, limits⟩ := file
  cases source <;> simp [renumber, Source.renumber, Source.holdsFile]

namespace DescriptorTable

variable {t : DescriptorTable}

def renumber (ρ : FileId → FileId) (t : DescriptorTable) : DescriptorTable :=
  { t with slots := t.slots.map (Option.map (OpenFile.renumber ρ)) }

theorem renumber_congr (ht : t.Below limit) (h : ∀ id < limit, ρ id = σ id) :
    t.renumber ρ = t.renumber σ := by
  refine congrArg (DescriptorTable.mk · t.free) (List.map_congr_left fun slot hslot => ?_)
  cases slot with
  | none => rfl
  | some file =>
    exact congrArg some (OpenFile.renumber_congr fun id hid => h id (ht file hslot id hid))

@[simp] theorem renumber_id (t : DescriptorTable) : t.renumber id = t := by
  have hfile : OpenFile.renumber id = id := funext OpenFile.renumber_id
  simp [renumber, hfile]

theorem renumber_renumber (t : DescriptorTable) :
    (t.renumber ρ).renumber σ = t.renumber (σ ∘ ρ) := by
  have hfile : OpenFile.renumber σ ∘ OpenFile.renumber ρ = OpenFile.renumber (σ ∘ ρ) :=
    funext OpenFile.renumber_renumber
  simp [renumber, hfile]

private theorem renumber_of_below (ht : t.Below limit) (h : ∀ id < limit, ρ id = id) :
    t.renumber ρ = t := by
  rw [renumber_congr ht h]
  exact renumber_id t

@[simp] private theorem capacity_renumber (t : DescriptorTable) :
    (t.renumber ρ).capacity = t.capacity :=
  List.length_map _

@[simp] theorem fileCount_renumber (t : DescriptorTable) :
    (t.renumber ρ).fileCount = t.fileCount := by
  have hholds : holdsFile ∘ Option.map (OpenFile.renumber ρ) = holdsFile := by
    funext slot
    cases slot <;> simp [holdsFile]
  rw [fileCount, renumber, List.countP_map, hholds, fileCount]

private theorem place?_renumber (t : DescriptorTable) (file : OpenFile) :
    (t.renumber ρ).place? (file.renumber ρ) =
      (t.place? file).map fun placed => (placed.1, placed.2.renumber ρ) := by
  obtain ⟨slots, free⟩ := t
  cases free <;> simp [renumber, place?, List.map_set]

end DescriptorTable

namespace Devices

variable {m o : Footprint} {d d' e e' : Devices} {name : String}

/-- The number of a file after as many others were made as `d'` has more than `d`. -/
def shift (d d' : Devices) (id : FileId) : FileId :=
  if id < d.files.files.length then id
  else id + (d'.files.files.length - d.files.files.length)

private theorem shift_of_lt {id : FileId} (h : id < d.files.files.length) :
    d.shift d' id = id := if_pos h

/-- The same work was done from `d` to `e` and from `d'` to `e'`, with the footprint `m`. What lies
between the two has the footprint `o`, and the files that were made have other numbers. -/
structure Moved (m o : Footprint) (d d' e e' : Devices) : Prop where
  name : ∀ name, ¬ o.names name →
    e'.files.names.find? name = (e.files.names.find? name).map (d.shift d')
  bytes : ∀ id < e.files.files.length, ¬ o.files id →
    e'.files.bytes (d.shift d' id) = e.files.bytes id
  count : e'.files.files.length + d.files.files.length =
    e.files.files.length + d'.files.files.length
  console : e'.console = e.console
  own : m.Covers d e
  own' : m.Covers d' e'

private theorem SameChange.shift_length (h : SameChange m o d d' e e') :
    d.shift d' e.files.files.length = e'.files.files.length := by
  have hold := h.count
  have hold' := h.count'
  have hcount := h.across.count
  rw [shift, if_neg (Nat.not_lt.2 (Nat.le_of_eq hold.symm))]
  change @Eq Nat _ _
  omega

private theorem SameChange.moved (h : SameChange m o d d' e e') (he : e.files.Grounded) :
    Moved m o d d' e e' where
  name other hout := by
    rw [h.across.name other hout]
    cases hfind : e.files.names.find? other with
    | none => rfl
    | some id =>
      have hid := he other id hfind
      rw [Option.map_some, shift_of_lt (h.count ▸ hid)]
  bytes id hid hout := by
    rw [shift_of_lt (h.count ▸ hid)]
    exact h.across.bytes id hid hout
  count := by
    rw [h.count, h.count', Nat.add_comm]
  console := h.across.console
  own := h.own
  own' := h.own'

private theorem SameChange.insert (h : SameChange m o d d' e e') (he : e.files.Grounded)
    (hm : m.names name)
    (n n' : Nat) : Moved m o d d'
      { e with files := { e.files.insert name [] with openHandles := n } }
      { e' with files := { e'.files.insert name [] with openHandles := n' } } := by
  have hmoved := h.moved he
  refine ⟨fun other hout => ?_, fun id hid hout => ?_, ?_, hmoved.console, ?_, ?_⟩
  · simp only [FileSystem.insert, Assoc.find?_insert]
    split
    · rw [Option.map_some, h.shift_length]
    · exact hmoved.name other hout
  · simp only [FileSystem.insert, List.length_append, List.length_singleton] at hid
    change (e'.files.insert name []).bytes _ = (e.files.insert name []).bytes id
    rw [FileSystem.bytes_insert, FileSystem.bytes_insert]
    rcases Nat.lt_succ_iff_lt_or_eq.1 hid with hlt | rfl
    · exact hmoved.bytes id hlt hout
    · rw [h.shift_length, FileSystem.bytes_of_length_le (Nat.le_refl _),
        FileSystem.bytes_of_length_le (Nat.le_refl _)]
  · have hcount := hmoved.count
    simp only [FileSystem.insert, List.length_append, List.length_singleton]
    omega
  · exact ((hmoved.own.insert hm).openHandles d.files.openHandles n)
  · exact ((hmoved.own'.insert hm).openHandles d'.files.openHandles n')

private theorem SameChange.open? (h : SameChange m o d d' e e') (he : e.files.Grounded)
    (hm : m.names name)
    (ho : ¬ o.names name) (create : Bool) :
    e.open? name create = none ∧ e'.open? name create = none ∨
      ∃ file e₁ e₁', e.open? name create = some (file, e₁) ∧
        e'.open? name create = some (file.renumber (d.shift d'), e₁') ∧
        Moved m o d d' e₁ e₁' := by
  simp only [Devices.open?, FileSystem.open?, h.across.name name ho]
  cases hfind : e.files.names.find? name with
  | some id =>
    have hid := he name id hfind
    refine .inr ⟨_, _, _, rfl, ?_, (h.openHandles _ (e'.files.openHandles + 1)).moved he⟩
    simp [OpenFile.renumber, Source.renumber, shift_of_lt (h.count ▸ hid)]
  | none =>
    cases create with
    | false => exact .inl ⟨rfl, rfl⟩
    | true =>
      refine .inr ⟨_, _, _, rfl, ?_, h.insert he hm _ (e'.files.openHandles + 1)⟩
      simp [OpenFile.renumber, Source.renumber, h.shift_length]

private theorem Moved.openHandles (h : Moved m o d d' e e') (n n' : Nat) :
    Moved m o d d' { e with files := { e.files with openHandles := n } }
      { e' with files := { e'.files with openHandles := n' } } where
  name := h.name
  bytes := h.bytes
  count := h.count
  console := h.console
  own := h.own.openHandles d.files.openHandles n
  own' := h.own'.openHandles d'.files.openHandles n'

theorem Moved.remove (h : Moved m o d d' e e') (hname : m.names name) :
    Moved m o d d' { e with files := { e.files with names := e.files.names.erase name } }
      { e' with files := { e'.files with names := e'.files.names.erase name } } where
  name other hout := by
    simp only [Assoc.find?_erase]
    split
    · rfl
    · exact h.name other hout
  bytes := h.bytes
  count := h.count
  console := h.console
  own := h.own.remove hname
  own' := h.own'.remove hname

private theorem Moved.close (h : Moved m o d d' e e') (file file' : OpenFile) :
    Moved m o d d' (file.close e).2 (file'.close e').2 := by
  obtain ⟨n, hclose⟩ := Desk.exists_close_eq file e
  obtain ⟨n', hclose'⟩ := Desk.exists_close_eq file' e'
  rw [hclose, hclose']
  exact h.openHandles n n'

end Devices

namespace Desk

variable {m o : Footprint} {d d' : Devices} {s s' : Desk} {name : String}

/-- The desks of one process after the same work, before and after work elsewhere. -/
structure Moved (m o : Footprint) (d d' : Devices) (s s' : Desk) : Prop where
  descriptors : s'.descriptors = s.descriptors.renumber (d.shift d')
  devices : Devices.Moved m o d d' s.devices s'.devices

theorem SameChange.moved (h : SameChange m o d d' s s') (hs : s.Grounded) :
    Moved m o d d' s s' where
  descriptors := by
    rw [h.descriptors, DescriptorTable.renumber_of_below hs.below]
    intro id hid
    exact Devices.shift_of_lt (h.devices.count ▸ hid)
  devices := h.devices.moved hs.names

private theorem agree_install (h : Moved m o d d' s s') (file : OpenFile) :
    Agree (Moved m o d d') (install file s) (install (file.renumber (d.shift d')) s') := by
  unfold install
  simp only [bind, EStateM.bind, get, getThe, MonadStateOf.get, EStateM.get]
  rw [h.descriptors, DescriptorTable.place?_renumber]
  cases s.descriptors.place? file with
  | none => exact .error ⟨rfl, h.devices.close _ _⟩
  | some placed =>
    obtain ⟨i, descriptors⟩ := placed
    have hplaced : Moved m o d d' ⟨descriptors, s.devices⟩
        ⟨descriptors.renumber (d.shift d'), s'.devices⟩ := ⟨rfl, h.devices⟩
    simp only [Option.map_some, DescriptorTable.capacity_renumber]
    by_cases hfull : descriptors.capacity ≤ i
    · simp only [hfull, if_true]
      exact .error hplaced
    · simp only [hfull, if_false]
      exact .ok hplaced

theorem agree_openFile (h : SameChange m o d d' s s') (hs : s.Grounded) (hm : m.names name)
    (ho : ¬ o.names name) (create : Bool) :
    Agree (Moved m o d d') (openFile name create s) (openFile name create s') := by
  unfold openFile
  simp only [bind, EStateM.bind, get, getThe, MonadStateOf.get, EStateM.get]
  rcases h.devices.open? hs.names hm ho create with
    ⟨hopen, hopen'⟩ | ⟨file, e₁, e₁', hopen, hopen', hmoved⟩
  · rw [hopen, hopen']
    exact .error (h.moved hs)
  · rw [hopen, hopen']
    have hopened : Moved m o d d' ⟨s.descriptors, e₁⟩ ⟨s'.descriptors, e₁'⟩ :=
      ⟨(h.moved hs).descriptors, hmoved⟩
    exact agree_install hopened file

end Desk

/-- After the first `n` numbers the next `a` and the `b` after those change places. -/
def exchanged (n a b id : Nat) : Nat :=
  if id < n then id
  else if id < n + a then id + b
  else if id < n + a + b then id - a
  else id

private theorem exchanged_exchanged (n a b id : Nat) : exchanged n b a (exchanged n a b id) = id := by
  simp only [exchanged]
  split_ifs <;> omega

private theorem exchanged_first {n a b id : Nat} (h : id < n + a) :
    exchanged n a b id = if id < n then id else id + b := by
  simp only [exchanged]
  split_ifs <;> omega

private theorem exchanged_second {n a b id : Nat} (h : id < n + b) :
    exchanged n a b (if id < n then id else id + a) = id := by
  simp only [exchanged]
  split_ifs <;> omega

private theorem exchanged_of_le {n a b id : Nat} (h : n + a + b ≤ id) : exchanged n a b id = id := by
  simp only [exchanged]
  split_ifs <;> omega

namespace Devices

/-- The same files under the same names, of which some have other numbers. -/
structure Renumbered (σ : FileId → FileId) (d d' : Devices) : Prop where
  name : ∀ name, d'.files.names.find? name = (d.files.names.find? name).map σ
  bytes : ∀ id, d'.files.bytes (σ id) = d.files.bytes id
  count : d'.files.files.length = d.files.files.length
  openHandles : d'.files.openHandles = d.files.openHandles
  console : d'.console = d.console

theorem Renumbered.contents {d d' : Devices} (h : Renumbered σ d d') (name : String) :
    d'.files.contents? name = d.files.contents? name := by
  rw [FileSystem.contents?, FileSystem.contents?, h.name]
  cases d.files.names.find? name with
  | none => rfl
  | some id => exact congrArg some (h.bytes id)

/-- From `d` one piece of work comes to `e` and another one to `f`. What their order makes of the
numbers: those of the files made by the one and by the other change places. -/
def reorder (d e f : Devices) : Equiv.Perm FileId where
  toFun := exchanged d.files.files.length (e.files.files.length - d.files.files.length)
    (f.files.files.length - d.files.files.length)
  invFun := exchanged d.files.files.length (f.files.files.length - d.files.files.length)
    (e.files.files.length - d.files.files.length)
  left_inv := exchanged_exchanged _ _ _
  right_inv := exchanged_exchanged _ _ _

variable {m o : Footprint} {d e e' f f' : Devices} {id : Nat}

theorem reorder_of_lt (h : id < d.files.files.length) : reorder d e f id = id := if_pos h

private theorem reorder_first (hcount : d.files.files.length ≤ e.files.files.length)
    (h : id < e.files.files.length) : reorder d e f id = d.shift f id :=
  exchanged_first (by omega)

private theorem reorder_second (hcount : d.files.files.length ≤ f.files.files.length)
    (h : id < f.files.files.length) : reorder d e f (d.shift e id) = id :=
  exchanged_second (by omega)

private theorem reorder_of_le (hcount : d.files.files.length ≤ e.files.files.length)
    (hcount' : d.files.files.length ≤ f.files.files.length)
    (h : e.files.files.length + f.files.files.length ≤ id + d.files.files.length) :
    reorder d e f id = id :=
  exchanged_of_le (by omega)

theorem renumber_shift {t : DescriptorTable} (ht : t.Below e.files.files.length)
    (hcount : d.files.files.length ≤ e.files.files.length) :
    t.renumber (d.shift f) = t.renumber (reorder d e f) :=
  DescriptorTable.renumber_congr ht fun _ hid => (reorder_first hcount hid).symm

theorem renumber_shift_reorder {t : DescriptorTable} (ht : t.Below f.files.files.length)
    (hcount : d.files.files.length ≤ f.files.files.length) :
    (t.renumber (d.shift e)).renumber (reorder d e f) = t := by
  rw [DescriptorTable.renumber_renumber]
  exact DescriptorTable.renumber_of_below ht fun _ hid => reorder_second hcount hid

private theorem Moved.exists_shift (h : Moved m o d f e f')
    (hf : d.files.files.length ≤ f.files.files.length) (hle : f.files.files.length ≤ id)
    (hid : id < f'.files.files.length) :
    ∃ j < e.files.files.length, ¬ j < d.files.files.length ∧ d.shift f j = id := by
  have hcount := h.count
  have hnew : ¬ id - (f.files.files.length - d.files.files.length) < d.files.files.length := by
    omega
  refine ⟨id - (f.files.files.length - d.files.files.length), by omega, hnew, ?_⟩
  rw [shift, if_neg hnew, Nat.sub_add_cancel (by omega)]

private theorem Moved.bytes_first (hm : Moved m o d f e f') (ho : Moved o m d e f e')
    (hid : id < e.files.files.length) (hout : ¬ o.files id) :
    f'.files.bytes (reorder d e f id) = e'.files.bytes id := by
  rw [reorder_first hm.own.count hid, hm.bytes id hid hout, ho.own'.bytes id hid hout]

private theorem Moved.bytes_second (hm : Moved m o d f e f') (ho : Moved o m d e f e')
    (hid : id < f.files.files.length) (hout : ¬ m.files id) :
    f'.files.bytes (reorder d e f (d.shift e id)) = e'.files.bytes (d.shift e id) := by
  rw [reorder_second ho.own.count hid, ho.bytes id hid hout, hm.own'.bytes id hid hout]

private theorem Moved.bytes_reorder (hm : Moved m o d f e f') (ho : Moved o m d e f e') (h : m.Apart o)
    (hmade : ∀ id, m.files id ∨ o.files id → id < d.files.files.length) (id : FileId) :
    f'.files.bytes (reorder d e f id) = e'.files.bytes id := by
  by_cases hold : id < d.files.files.length
  · by_cases hin : o.files id
    · have hshift := hm.bytes_second ho (Nat.lt_of_lt_of_le hold ho.own.count)
        fun hm => h.files id hm hin
      rwa [shift_of_lt hold] at hshift
    · exact hm.bytes_first ho (Nat.lt_of_lt_of_le hold hm.own.count) hin
  · have hnew : ∀ j, ¬ j < d.files.files.length → ¬ m.files j ∧ ¬ o.files j := fun j hj =>
      ⟨fun hin => hj (hmade j (.inl hin)), fun hin => hj (hmade j (.inr hin))⟩
    by_cases hmine : id < e.files.files.length
    · exact hm.bytes_first ho hmine (hnew id hold).2
    · by_cases htheirs : id < e'.files.files.length
      · obtain ⟨j, hj, hjold, rfl⟩ := ho.exists_shift hm.own.count (Nat.not_lt.1 hmine) htheirs
        exact hm.bytes_second ho hj (hnew j hjold).1
      · have hout := Nat.not_lt.1 htheirs
        have hcount := hm.count
        have hcount' := ho.count
        rw [reorder_of_le hm.own.count ho.own.count (by omega), FileSystem.bytes_of_length_le hout,
          FileSystem.bytes_of_length_le (by omega)]

/-- Work with the footprint `m` leads from `d` to `e` and from `f` to `f'`, and work with the
footprint `o` leads from `d` to `f` and from `e` to `e'`. If the footprints are apart, both orders
come to the same. -/
theorem Moved.renumbered (hm : Moved m o d f e f') (ho : Moved o m d e f e') (h : m.Apart o)
    (hmade : ∀ id, m.files id ∨ o.files id → id < d.files.files.length) (he : e.files.Grounded)
    (hf : f.files.Grounded) (hhandles : f'.files.openHandles = e'.files.openHandles) :
    Renumbered (reorder d e f) e' f' where
  name name := by
    by_cases hname : o.names name
    · have hout : ¬ m.names name := fun hin => h.names name hin hname
      rw [ho.name name hout, hm.own'.name name hout]
      cases hfind : f.files.names.find? name with
      | none => rfl
      | some id => simp [reorder_second ho.own.count (hf name id hfind)]
    · rw [hm.name name hname, ho.own'.name name hname]
      cases hfind : e.files.names.find? name with
      | none => rfl
      | some id => simp [reorder_first hm.own.count (he name id hfind)]
  bytes := hm.bytes_reorder ho h hmade
  count := by
    have hcount := hm.count
    have hcount' := ho.count
    omega
  openHandles := hhandles
  console := by rw [hm.own'.console, ho.own.console, ho.own'.console, hm.own.console]

end Devices

end PagedKernel

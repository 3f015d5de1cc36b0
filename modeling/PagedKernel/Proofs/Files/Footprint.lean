import PagedKernel.Proofs.Agree
import PagedKernel.Proofs.Files

/-!
# Work on different files

Work at a desk has a footprint: the names that it looks up and the files that it reads or writes.
Outside of it all is as it was. So the same work, done before and after work with another footprint,
does the same.
-/

namespace PagedKernel

namespace FileSystem

theorem bytes_setBytes (fs : FileSystem) (id : FileId) (data : Bytes) (j : FileId) :
    (fs.setBytes id data).bytes j =
      if id = j ∧ j < fs.files.length then data else fs.bytes j := by
  simp only [bytes, setBytes, List.getElem?_set]
  by_cases hid : id = j
  · subst hid
    by_cases hlt : id < fs.files.length <;> simp [hlt]
  · simp [hid]

@[simp] theorem length_setBytes (fs : FileSystem) (id : FileId) (data : Bytes) :
    (fs.setBytes id data).files.length = fs.files.length := List.length_set

theorem bytes_of_length_le {fs : FileSystem} {id : FileId} (h : fs.files.length ≤ id) :
    fs.bytes id = [] := by
  simp [bytes, List.getElem?_eq_none h]

end FileSystem

/-- Names that are looked up, and files that are read or written. -/
structure Footprint where
  names : String → Prop
  files : FileId → Prop

namespace Footprint

variable {f g : Footprint} {d d' d'' : Devices} {id : FileId}

/-- No name and no file is common to both. -/
structure Apart (f g : Footprint) : Prop where
  names : ∀ name, f.names name → ¬ g.names name
  files : ∀ id, f.files id → ¬ g.files id

theorem Apart.symm (h : f.Apart g) : g.Apart f where
  names name hg hf := h.names name hf hg
  files id hg hf := h.files id hf hg

def none : Footprint := ⟨fun _ => False, fun _ => False⟩

/-- What lies outside the footprint is as it was, and so is the console. -/
structure Covers (f : Footprint) (d d' : Devices) : Prop where
  name : ∀ name, ¬ f.names name → d'.files.names.find? name = d.files.names.find? name
  bytes : ∀ id < d.files.files.length, ¬ f.files id → d'.files.bytes id = d.files.bytes id
  count : d.files.files.length ≤ d'.files.files.length
  console : d'.console = d.console

theorem Covers.refl (f : Footprint) (d : Devices) : f.Covers d d where
  name _ _ := rfl
  bytes _ _ _ := rfl
  count := Nat.le_refl _
  console := rfl

theorem Covers.openHandles (h : f.Covers d d') (n n' : Nat) :
    f.Covers { d with files := { d.files with openHandles := n } }
      { d' with files := { d'.files with openHandles := n' } } where
  name := h.name
  bytes := h.bytes
  count := h.count
  console := h.console

private theorem Covers.setBytes (h : f.Covers d d') (hid : f.files id) (data : Bytes) :
    f.Covers d { d' with files := d'.files.setBytes id data } where
  name := h.name
  bytes j hj hout := by
    have hother : id ≠ j := fun heq => hout (heq ▸ hid)
    simp only [FileSystem.bytes_setBytes, hother, false_and, if_false]
    exact h.bytes j hj hout
  count := by simpa using h.count
  console := h.console

theorem Covers.remove (h : f.Covers d d') {name : String} (hname : f.names name) :
    f.Covers d { d' with files := { d'.files with names := d'.files.names.erase name } } where
  name other hout := by
    have hother : name ≠ other := fun heq => hout (heq ▸ hname)
    simp only [Assoc.find?_erase, hother, if_false]
    exact h.name other hout
  bytes := h.bytes
  count := h.count
  console := h.console

theorem Covers.insert (h : f.Covers d d') {name : String} (hname : f.names name) :
    f.Covers d { d' with files := d'.files.insert name [] } where
  name other hout := by
    have hother : name ≠ other := fun heq => hout (heq ▸ hname)
    simp only [FileSystem.insert, Assoc.find?_insert, hother, if_false]
    exact h.name other hout
  bytes j hj hout := by
    rw [FileSystem.bytes_insert]
    exact h.bytes j hj hout
  count := by
    have hcount := h.count
    simp only [FileSystem.insert, List.length_append, List.length_singleton]
    omega
  console := h.console

end Footprint

/-- The same work was done from `d` to `e` and from `d'` to `e'`, with the footprint `m`. What lies
between the two has the footprint `o`. No file was made. -/
structure Devices.SameChange (m o : Footprint) (d d' e e' : Devices) : Prop where
  across : o.Covers e e'
  own : m.Covers d e
  own' : m.Covers d' e'
  count : e.files.files.length = d.files.files.length
  count' : e'.files.files.length = d'.files.files.length

/-- A source from which, and to which, work with the footprint `m` may move data. -/
def Source.Within (m o : Footprint) (count : Nat) : Source → Prop
  | .file _ (some id) _ => m.files id ∧ ¬ o.files id ∧ id < count
  | .file _ none _ => True
  | .input _ | .output _ => False

section

variable {α : Type} {m o : Footprint} {d d' e e' : Devices} {source : Source} {file : OpenFile}

theorem Devices.sameChange_start (h : o.Covers d d') : SameChange m o d d' d d' where
  across := h
  own := .refl m d
  own' := .refl m d'
  count := rfl
  count' := rfl

theorem Devices.SameChange.openHandles (h : SameChange m o d d' e e') (n n' : Nat) :
    SameChange m o d d' { e with files := { e.files with openHandles := n } }
      { e' with files := { e'.files with openHandles := n' } } where
  across := h.across.openHandles n n'
  own := h.own.openHandles d.files.openHandles n
  own' := h.own'.openHandles d'.files.openHandles n'
  count := h.count
  count' := h.count'

private theorem Devices.SameChange.close (h : SameChange m o d d' e e') (file : OpenFile) :
    SameChange m o d d' (file.close e).2 (file.close e').2 := by
  obtain ⟨n, hclose⟩ := Desk.exists_close_eq file e
  obtain ⟨n', hclose'⟩ := Desk.exists_close_eq file e'
  rw [hclose, hclose']
  exact h.openHandles n n'

private theorem Devices.SameChange.setBytes (h : SameChange m o d d' e e') {id : FileId}
    (hm : m.files id)
    (hid : id < d.files.files.length) (data : Bytes) :
    SameChange m o d d' { e with files := e.files.setBytes id data }
      { e' with files := e'.files.setBytes id data } where
  across := by
    have hlt : id < e.files.files.length := h.count ▸ hid
    have hlt' : id < e'.files.files.length := Nat.lt_of_lt_of_le hlt h.across.count
    refine ⟨h.across.name, fun j hj hout => ?_, by simpa using h.across.count, h.across.console⟩
    simp only [FileSystem.length_setBytes] at hj
    simp only [FileSystem.bytes_setBytes]
    by_cases heq : id = j
    · subst heq
      simp [hlt, hlt']
    · simp only [heq, false_and, if_false]
      exact h.across.bytes j hj hout
  own := h.own.setBytes hm data
  own' := h.own'.setBytes hm data
  count := by simpa using h.count
  count' := by simpa using h.count'

namespace Source

private theorem read_sameChange (h : Devices.SameChange m o d d' e e')
    (hs : source.Within m o d.files.files.length)
    (n : Nat) : (∃ error, source.read e n = .error error ∧ source.read e' n = .error error) ∨
      ∃ data after, source.read e n = .ok (data, after, e) ∧
        source.read e' n = .ok (data, after, e') ∧ after.Within m o d.files.files.length := by
  match source, hs with
  | .file name (some id) position, ⟨hm, ho, hid⟩ =>
    refine .inr ⟨_, _, rfl, ?_, hm, ho, hid⟩
    rw [read, h.across.bytes id (h.count ▸ hid) ho]
  | .file name none position, _ => exact .inl ⟨_, rfl, rfl⟩

private theorem write_sameChange (h : Devices.SameChange m o d d' e e')
    (hs : source.Within m o d.files.files.length)
    (data : Bytes) : (∃ error, source.write e data = .error error ∧
        source.write e' data = .error error) ∨
      ∃ count after e₁ e₁', source.write e data = .ok (count, after, e₁) ∧
        source.write e' data = .ok (count, after, e₁') ∧ Devices.SameChange m o d d' e₁ e₁' ∧
        after.Within m o d.files.files.length := by
  match source, hs with
  | .file name (some id) position, ⟨hm, ho, hid⟩ =>
    refine .inr ⟨_, _, _, _, rfl, rfl, ?_, hm, ho, hid⟩
    rw [h.across.bytes id (h.count ▸ hid) ho]
    exact h.setBytes hm hid _
  | .file name none position, _ => exact .inl ⟨_, rfl, rfl⟩

end Source

/-- The same open file on both sides, to and from which data may be moved. -/
structure Channel.SameChange (m o : Footprint) (d d' : Devices) (c c' : Channel) : Prop where
  file : c'.file = c.file
  within : c.file.source.Within m o d.files.files.length
  devices : Devices.SameChange m o d d' c.devices c'.devices

namespace Channel

private theorem parallel_useCall : Parallel (SameChange m o d d') useCall := by
  intro c c' h
  have hsource := ensures_useCall (c := c)
  unfold useCall at hsource ⊢
  rw [h.file]
  cases huse : c.file.useCall with
  | none => exact .error h
  | some file =>
    simp only [Ensures, huse] at hsource
    refine .ok ⟨rfl, ?_, h.devices⟩
    rw [hsource.1]
    exact h.within

theorem parallel_read (n : Nat) : Parallel (SameChange m o d d') (read n) := by
  unfold read
  apply parallel_useCall.bind
  rintro _ c c' h
  simp only [bind, EStateM.bind, get, getThe, MonadStateOf.get, EStateM.get]
  rw [h.file]
  rcases Source.read_sameChange h.devices h.within (OpenFile.within n c.file.limits.maxRead) with
    ⟨error, hread, hread'⟩ | ⟨data, after, hread, hread', hafter⟩
  · rw [hread, hread']
    exact .error h
  · rw [hread, hread']
    exact .ok ⟨rfl, hafter, h.devices⟩

theorem parallel_write (data : Bytes) : Parallel (SameChange m o d d') (write data) := by
  unfold write
  apply parallel_useCall.bind
  rintro _ c c' h
  simp only [bind, EStateM.bind, get, getThe, MonadStateOf.get, EStateM.get]
  rw [h.file]
  rcases Source.write_sameChange h.devices h.within
    (data.take (OpenFile.within data.length c.file.limits.maxWrite)) with
    ⟨error, hwrite, hwrite'⟩ | ⟨count, after, e₁, e₁', hwrite, hwrite', hdevices, hafter⟩
  · rw [hwrite, hwrite']
    exact .error h
  · rw [hwrite, hwrite']
    exact .ok ⟨rfl, hafter, hdevices⟩

end Channel

namespace Desk

/-- The desks of one process, before and after work elsewhere. -/
structure SameChange (m o : Footprint) (d d' : Devices) (s s' : Desk) : Prop where
  descriptors : s'.descriptors = s.descriptors
  devices : Devices.SameChange m o d d' s.devices s'.devices

/-- From and to the file of a descriptor data may be moved. -/
structure SameChangeAt (fd : Int) (m o : Footprint) (d d' : Devices) (s s' : Desk) : Prop
    extends SameChange m o d d' s s' where
  within : ∀ slot file, s.descriptors.find? fd = some (slot, file) →
    file.source.Within m o d.files.files.length

theorem parallel_file {rel : Desk → Desk → Prop}
    (hrel : ∀ s s', rel s s' → s'.descriptors = s.descriptors) (fd : Int) :
    Parallel rel (Desk.file fd) :=
  Parallel.get (g := fun s : Desk => s.descriptors.find? fd)
    (k := fun found => orRefuse Errno.badFileDescriptor found)
    (fun s s' h => by rw [hrel s s' h]) fun _ => .orRefuse _ _

theorem parallel_onFile {x : EStateM Errno Channel α}
    (hx : Parallel (Channel.SameChange m o d d') x) {fd : Int} (hfd : 0 ≤ fd) :
    Parallel (SameChangeAt fd m o d d') (onFile fd.toNat x) := by
  intro s s' h
  unfold onFile
  simp only [bind, EStateM.bind, get, getThe, MonadStateOf.get, EStateM.get]
  rw [h.descriptors]
  cases hslot : s.descriptors.slot? fd.toNat with
  | none => exact .error h
  | some file =>
    have hfind := DescriptorTable.find?_eq_some_iff.2 ⟨hfd, rfl, hslot⟩
    have hchannel : Channel.SameChange m o d d' ⟨file, s.devices⟩ ⟨file, s'.devices⟩ :=
      ⟨rfl, h.within _ file hfind, h.devices⟩
    have hset : ∀ {c c' : Channel}, Channel.SameChange m o d d' c c' →
        SameChangeAt fd m o d d' ⟨s.descriptors.setFile fd.toNat c.file, c.devices⟩
          ⟨s.descriptors.setFile fd.toNat c'.file, c'.devices⟩ := by
      intro c c' hc
      refine ⟨⟨by rw [hc.file], hc.devices⟩, fun slot found hfound => ?_⟩
      obtain ⟨-, rfl, hfound⟩ := DescriptorTable.find?_eq_some_iff.1 hfound
      have hlt := DescriptorTable.lt_of_slot? hslot
      simp only [DescriptorTable.setFile, DescriptorTable.slot?_set _ _ hlt, if_true] at hfound
      cases hfound
      exact hc.within
    have hagree := hx _ _ hchannel
    simp only
    generalize x ⟨file, s.devices⟩ = r at hagree
    generalize x ⟨file, s'.devices⟩ = r' at hagree
    cases hagree with
    | ok hc => exact .ok (hset hc)
    | error hc => exact .error (hset hc)

theorem parallel_close (fd : Int) : Parallel (SameChange m o d d') (close fd) := by
  intro s s' h
  unfold close
  simp only [bind, EStateM.bind, get, getThe, MonadStateOf.get, EStateM.get]
  cases DescriptorTable.index? fd with
  | none => exact .error h
  | some i =>
    simp only [Option.map_some, closeSlot, h.descriptors]
    cases hslot : s.descriptors.slot? i with
    | none => exact .error h
    | some file => exact .ok ⟨rfl, h.devices.close file⟩

end Desk

end

end PagedKernel

import PagedKernel.Proofs.Descriptors
import PagedKernel.Proofs.Ensures

/-!
# Work on descriptors

A descriptor that is free has a slot, and its number is a signed word. So a file can always be put
under it, and the number that a program gets is never taken for a refusal. Files that are opened
and closed keep the count of open files in balance with the descriptors.
-/

namespace PagedKernel

namespace DescriptorTable

variable {t t' : DescriptorTable} {file : OpenFile} {i : Nat}

/-- Every free descriptor has a slot, and is a signed word. -/
def InRange (t : DescriptorTable) : Prop := ∀ i ∈ t.free, i < t.capacity ∧ i < wordLimit

theorem inRange_create (capacity : Nat) : (create capacity).InRange := by
  intro i hi
  have hrange := List.mem_range'_1.1 hi
  have hlt := nameable_lt (max capacity firstFree)
  have hle : nameable (max capacity firstFree) ≤ max capacity firstFree := nameable_le _
  rw [capacity_create]
  omega

private theorem InRange.setFile (h : t.InRange) (i : Nat) (file : OpenFile) :
    (t.setFile i file).InRange := by
  intro j hj
  have hcapacity : (t.setFile i file).capacity = t.capacity := List.length_set
  rw [hcapacity]
  exact h j hj

private theorem InRange.vacate (h : t.InRange) (hi : i < t.capacity) (hl : i < wordLimit) :
    (t.vacate i).InRange := by
  intro j hj
  have hcapacity : (t.vacate i).capacity = t.capacity := List.length_set
  rw [hcapacity]
  rw [DescriptorTable.vacate] at hj
  split at hj
  · rcases List.mem_append.1 hj with hold | hnew
    · exact h j hold
    · rw [List.mem_singleton.1 hnew]
      exact ⟨hi, hl⟩
  · exact h j hj

private theorem InRange.place (h : t.InRange) (hp : t.place? file = some (i, t')) :
    t'.InRange ∧ i < t'.capacity ∧ i < wordLimit := by
  rw [place?] at hp
  split at hp
  · cases hp
  · next j rest hfree =>
    cases hp
    have hcapacity : DescriptorTable.capacity ⟨t.slots.set i (some file), rest⟩ = t.capacity :=
      List.length_set
    rw [hcapacity]
    refine ⟨?_, h i (hfree ▸ List.mem_cons_self ..)⟩
    intro j hj
    rw [hcapacity]
    exact h j (hfree ▸ List.mem_cons_of_mem _ hj)

end DescriptorTable

theorem OpenFile.within_le (length : Nat) (limit : Option Nat) : within length limit ≤ length := by
  cases limit with
  | none => exact Nat.le_refl _
  | some most => exact Nat.min_le_left ..

namespace Channel

variable {c c' : Channel}

/-- The file stays the one that it is, and none is made, named, opened or closed. -/
structure Holds (c c' : Channel) : Prop where
  id : c'.file.source.id? = c.file.source.id?
  names : c'.devices.files.names = c.devices.files.names
  count : c'.devices.files.files.length = c.devices.files.files.length
  handles : c'.devices.files.openHandles = c.devices.files.openHandles

theorem Holds.refl (c : Channel) : Holds c c := ⟨rfl, rfl, rfl, rfl⟩

private theorem Holds.holdsFile (h : Holds c c') :
    c'.file.source.holdsFile = c.file.source.holdsFile := by
  rw [Source.holdsFile_eq, Source.holdsFile_eq, h.id]

theorem Holds.trans {c'' : Channel} (h : Holds c c') (h' : Holds c' c'') : Holds c c'' where
  id := h'.id.trans h.id
  names := h'.names.trans h.names
  count := h'.count.trans h.count
  handles := h'.handles.trans h.handles

private theorem holds_of_same (hsource : c'.file.source = c.file.source)
    (hdevices : c'.devices = c.devices) : Holds c c' := by
  constructor <;> simp [hsource, hdevices]

theorem ensures_useCall : Ensures useCall c
    (fun _ c' => c'.file.source = c.file.source ∧ c'.devices = c.devices) (fun _ c' => c' = c) := by
  unfold Ensures useCall
  cases huse : c.file.useCall with
  | none => exact rfl
  | some file =>
    refine ⟨?_, rfl⟩
    unfold OpenFile.useCall at huse
    split at huse
    · cases huse
      rfl
    · cases huse
    · cases huse
      rfl

theorem ensures_read (length : Nat) : Ensures (read length) c
    (fun data c' => data.length ≤ length ∧ c.Holds c') (fun _ c' => c.Holds c') := by
  unfold read
  refine ensures_useCall.bind ?_ (fun _ _ h => h ▸ .refl c)
  rintro _ c' ⟨hsource, hdevices⟩
  rw [ensures_bind, ensures_get]
  cases hread : c'.file.source.read c'.devices
      (OpenFile.within length c'.file.limits.maxRead) with
  | error e => exact holds_of_same hsource hdevices
  | ok result =>
    obtain ⟨data, source, devices⟩ := result
    simp only
    rw [ensures_bind, ensures_set, ensures_pure]
    have hholds : data.length ≤ OpenFile.within length c'.file.limits.maxRead ∧
        Holds c' ⟨{ c'.file with source }, devices⟩ := by
      unfold Source.read at hread
      split at hread
      · next hfile =>
        cases hread
        rw [Bytes.length_slice]
        exact ⟨Nat.min_le_left .., (congrArg Source.id? hfile).symm, rfl, rfl, rfl⟩
      · next hinput =>
        cases hread
        exact ⟨List.length_take_le .., (congrArg Source.id? hinput).symm, rfl, rfl, rfl⟩
      all_goals cases hread
    exact
      ⟨Nat.le_trans hholds.1 (OpenFile.within_le ..), (holds_of_same hsource hdevices).trans hholds.2⟩

theorem ensures_write (data : Bytes) : Ensures (write data) c
    (fun _ c' => True ∧ c.Holds c') (fun _ c' => c.Holds c') := by
  unfold write
  refine ensures_useCall.bind ?_ (fun _ _ h => h ▸ .refl c)
  rintro _ c' ⟨hsource, hdevices⟩
  rw [ensures_bind, ensures_get]
  cases hwrite : c'.file.source.write c'.devices
      (data.take (OpenFile.within data.length c'.file.limits.maxWrite)) with
  | error e => exact holds_of_same hsource hdevices
  | ok result =>
    obtain ⟨count, source, devices⟩ := result
    simp only
    rw [ensures_bind, ensures_set, ensures_pure]
    have hholds : Holds c' ⟨{ c'.file with source }, devices⟩ := by
      unfold Source.write at hwrite
      split at hwrite
      · next hfile =>
        cases hwrite
        exact ⟨(congrArg Source.id? hfile).symm, rfl, List.length_set, rfl⟩
      · next houtput =>
        cases hwrite
        exact ⟨(congrArg Source.id? houtput).symm, rfl, rfl, rfl⟩
      all_goals cases hwrite
    exact ⟨trivial, (holds_of_same hsource hdevices).trans hholds⟩

end Channel

theorem Devices.open?_cases {d d' : Devices} {file : OpenFile} {name : String} {create : Bool}
    (h : d.open? name create = some (file, d')) :
    (∃ id, d.files.names.find? name = some id ∧ file = ⟨.file name (some id) 0, {}⟩ ∧
      d' = { d with files := { d.files with openHandles := d.files.openHandles + 1 } }) ∨
    d.files.names.find? name = none ∧ create = true ∧
      file = ⟨.file name (some d.files.files.length) 0, {}⟩ ∧
      d' = { d with files :=
        { d.files.insert name [] with openHandles := d.files.openHandles + 1 } } := by
  rw [Devices.open?, FileSystem.open?] at h
  cases hfind : d.files.names.find? name with
  | some id =>
    rw [hfind] at h
    cases h
    exact .inl ⟨id, rfl, rfl, rfl⟩
  | none =>
    rw [hfind] at h
    cases create with
    | true =>
      cases h
      exact .inr ⟨rfl, rfl, rfl, rfl⟩
    | false => cases h

namespace Desk

variable {α : Type} {s s' s'' : Desk} {file : OpenFile} {name : String} {others : Nat}

/-- The open files of the file system are those under the descriptors, and `others` besides. -/
def Balanced (s : Desk) (others : Nat) : Prop :=
  s.devices.files.openHandles = others + s.descriptors.fileCount

/-- Every name, and every file that is open, is that of a file that was made. -/
structure Grounded (s : Desk) : Prop where
  names : s.devices.files.Grounded
  below : s.descriptors.Below s.devices.files.files.length

/-- The descriptors stay in range, the free ones exact, and all in balance with the open files, whatever
files others have open. No file is lost, and names and descriptors lead to those that there are. -/
structure FilesKept (s s' : Desk) : Prop where
  inRange : s.descriptors.InRange → s'.descriptors.InRange
  freeExact : s.descriptors.FreeExact → s'.descriptors.FreeExact
  balanced : s.descriptors.FreeExact → ∀ others, s.Balanced others → s'.Balanced others
  grounded : s.Grounded → s'.Grounded
  count : s.devices.files.files.length ≤ s'.devices.files.files.length

theorem FilesKept.refl (s : Desk) : FilesKept s s :=
  ⟨fun h => h, fun h => h, fun _ _ h => h, fun h => h, Nat.le_refl _⟩

theorem FilesKept.trans (h : FilesKept s s') (h' : FilesKept s' s'') : FilesKept s s'' where
  inRange hs := h'.inRange (h.inRange hs)
  freeExact hs := h'.freeExact (h.freeExact hs)
  balanced hs others hbalanced := h'.balanced (h.freeExact hs) others (h.balanced hs others hbalanced)
  grounded hs := h'.grounded (h.grounded hs)
  count := Nat.le_trans h.count h'.count

/-- A computation that keeps the descriptors in range and in balance. -/
abbrev KeepsFiles (x : EStateM (Stop Errno) Desk α) (ok : α → Prop) : Prop :=
  Obeys (fun s : Desk => s.descriptors.InRange) FilesKept x ok

theorem exists_close_eq (file : OpenFile) (d : Devices) : ∃ openHandles,
    (file.close d).2 = { d with files := { d.files with openHandles } } := by
  obtain ⟨source, limits⟩ := file
  cases source with
  | file name id position =>
    cases id with
    | none => exact ⟨_, rfl⟩
    | some id => exact ⟨_, rfl⟩
  | input isOpen => exact ⟨_, rfl⟩
  | output isOpen => exact ⟨_, rfl⟩

private theorem Grounded.close {descriptors : DescriptorTable} (h : s.Grounded) (file : OpenFile)
    (hbelow : descriptors.Below s.devices.files.files.length) :
    Grounded ⟨descriptors, (file.close s.devices).2⟩ := by
  obtain ⟨openHandles, hclose⟩ := exists_close_eq file s.devices
  rw [hclose]
  exact ⟨h.names, hbelow⟩

theorem handles_close (file : OpenFile) (d : Devices) :
    (file.close d).2.files.openHandles = d.files.openHandles - file.source.holdsFile.toNat := by
  obtain ⟨source, limits⟩ := file
  cases source with
  | file name id position =>
    cases id with
    | none => rfl
    | some id => rfl
  | input isOpen => rfl
  | output isOpen => rfl

theorem handles_open {d d' : Devices} {create : Bool} (h : d.open? name create = some (file, d')) :
    d'.files.openHandles = d.files.openHandles + file.source.holdsFile.toNat := by
  rcases Devices.open?_cases h with ⟨id, -, rfl, rfl⟩ | ⟨-, -, rfl, rfl⟩
  · rfl
  · rfl

theorem grounded_open {d d' : Devices} {create : Bool}
    (h : d.open? name create = some (file, d')) :
    d.files.files.length ≤ d'.files.files.length ∧
      (d.files.Grounded → d'.files.Grounded ∧
        ∀ id, file.source.id? = some id → id < d'.files.files.length) := by
  rcases Devices.open?_cases h with ⟨id, hfind, rfl, rfl⟩ | ⟨-, -, rfl, rfl⟩
  · refine ⟨Nat.le_refl _, fun hd => ⟨hd, ?_⟩⟩
    rintro _ ⟨⟩
    exact hd name id hfind
  · have hlength : (d.files.insert name []).files.length = d.files.files.length + 1 := by
      simp [FileSystem.insert]
    refine ⟨by simp [hlength], fun hd => ⟨hd.insert name [], ?_⟩⟩
    rintro _ ⟨⟩
    simp [hlength]

theorem ensures_install (file : OpenFile) (hs : s.descriptors.InRange) :
    Ensures (install file) s
      (fun i s' => s.descriptors.place? file = some (i, s'.descriptors) ∧ s'.devices = s.devices)
      (fun stop s' => stop = .refused .tooManyOpenFiles ∧ s.descriptors.free = [] ∧
        s' = ⟨s.descriptors, (file.close s.devices).2⟩) := by
  unfold install
  rw [ensures_bind, ensures_get]
  cases hplace : s.descriptors.place? file with
  | none =>
    refine ⟨rfl, ?_, rfl⟩
    rw [DescriptorTable.place?] at hplace
    split at hplace
    · assumption
    · cases hplace
  | some placed =>
    obtain ⟨i, descriptors⟩ := placed
    obtain ⟨-, hcapacity, -⟩ := hs.place hplace
    simp only
    rw [ensures_bind, ensures_set, if_neg (Nat.not_le.2 hcapacity), ensures_pure]
    exact ⟨rfl, rfl⟩

private theorem ensures_install_filesKept (file : OpenFile) (d : Devices)
    (hopened : s.devices.files.openHandles =
      d.files.openHandles + file.source.holdsFile.toNat)
    (hcount : d.files.files.length ≤ s.devices.files.files.length)
    (hground : d.files.Grounded → s.devices.files.Grounded ∧
      ∀ id, file.source.id? = some id → id < s.devices.files.files.length)
    (hs : s.descriptors.InRange) :
    Ensures (install file) s
      (fun i s' => i < wordLimit ∧ FilesKept ⟨s.descriptors, d⟩ s')
      (fun stop s' => stop.IsRefusal ∧ FilesKept ⟨s.descriptors, d⟩ s') := by
  apply (ensures_install file hs).mono
  · rintro i s' ⟨hplace, hdevices⟩
    obtain ⟨hrange, -, hword⟩ := hs.place hplace
    refine ⟨hword, fun _ => hrange, fun hexact => (hexact.place hplace).1, ?_, fun hgrounded => ?_, ?_⟩
    · intro hexact others hbalanced
      obtain ⟨-, -, -, -, hcount⟩ := DescriptorTable.FreeExact.place hexact hplace
      simp only [Balanced] at hbalanced ⊢
      rw [hdevices]
      dsimp only at hcount
      omega
    · obtain ⟨hnames, hfile⟩ := hground hgrounded.names
      refine ⟨by rwa [hdevices], ?_⟩
      rw [hdevices]
      exact DescriptorTable.Below.place (hgrounded.below.mono hcount) hfile hplace
    · rw [hdevices]
      exact hcount
  · rintro stop s' ⟨rfl, -, rfl⟩
    have hclose := handles_close file s.devices
    obtain ⟨openHandles, hclosed⟩ := exists_close_eq file s.devices
    refine ⟨⟨_, rfl⟩, fun h => h, fun h => h, fun _ others hbalanced => ?_, fun hgrounded => ?_, ?_⟩
    · simp only [Balanced] at hbalanced ⊢
      omega
    · have hopen : Grounded s :=
        ⟨(hground hgrounded.names).1, hgrounded.below.mono hcount⟩
      exact hopen.close file hopen.below
    · rw [hclosed]
      exact hcount

theorem keepsFiles_openFile (name : String) (create : Bool) :
    KeepsFiles (openFile name create) (· < wordLimit) := by
  intro s hs
  unfold openFile
  rw [ensures_bind, ensures_get]
  cases hopen : s.devices.open? name create with
  | none => exact ⟨FilesKept.refl s, _, rfl⟩
  | some opened =>
    obtain ⟨file, devices⟩ := opened
    simp only
    rw [ensures_bind, ensures_set]
    obtain ⟨hcount, hground⟩ := grounded_open hopen
    apply (ensures_install_filesKept file (s := ⟨s.descriptors, devices⟩) s.devices
      (handles_open hopen) hcount hground hs).mono
    · rintro i s' ⟨hword, htends⟩
      exact ⟨htends, hword⟩
    · rintro stop s' ⟨hstop, htends⟩
      exact ⟨htends, hstop⟩

theorem keepsFiles_file (fd : Int) : KeepsFiles (Desk.file fd) (fun _ => True) := by
  intro s _
  unfold Desk.file
  rw [ensures_bind, ensures_get]
  apply ensures_orRefuse
  · intro _ _
    exact ⟨FilesKept.refl s, trivial⟩
  · intro _
    exact ⟨FilesKept.refl s, _, rfl⟩

private theorem filesKept_setFile {c : Channel} {i : Nat} (hslot : s.descriptors.slot? i = some file)
    (hc : Channel.Holds ⟨file, s.devices⟩ c) :
    FilesKept s ⟨s.descriptors.setFile i c.file, c.devices⟩ where
  inRange hs := hs.setFile i c.file
  freeExact hs := hs.setFile hslot hc.holdsFile
  balanced _ others hbalanced := by
    simp only [Balanced] at hbalanced ⊢
    rw [hc.handles, DescriptorTable.fileCount_setFile hslot hc.holdsFile]
    exact hbalanced
  grounded hs := by
    have hnames : c.devices.files.Grounded := by
      rw [FileSystem.Grounded, hc.names, hc.count]
      exact hs.names
    refine ⟨hnames, ?_⟩
    rw [hc.count]
    apply hs.below.set
    rintro _ ⟨⟩ id hid
    rw [hc.id] at hid
    exact hs.below file (DescriptorTable.mem_slots hslot) id hid
  count := Nat.le_of_eq hc.count.symm

theorem keepsFiles_onFile {x : EStateM Errno Channel α} {ok : α → Prop}
    (hx : ∀ c, Ensures x c (fun a c' => ok a ∧ c.Holds c') (fun _ c' => c.Holds c')) (i : Nat) :
    KeepsFiles (onFile i x) ok := by
  intro s _
  unfold onFile
  rw [ensures_bind, ensures_get]
  cases hslot : s.descriptors.slot? i with
  | none => exact ⟨FilesKept.refl s, _, rfl⟩
  | some file =>
    simp only
    rcases hrun : x ⟨file, s.devices⟩ with ⟨a, c⟩ | ⟨e, c⟩
    · obtain ⟨ha, hholds⟩ := (hx _).of_ok hrun
      exact ⟨filesKept_setFile hslot hholds, ha⟩
    · exact ⟨filesKept_setFile hslot ((hx _).of_error hrun), _, rfl⟩

private theorem filesKept_closeSlot {i : Nat} (hi : i < wordLimit) : FilesKept s (s.closeSlot i).2 := by
  unfold closeSlot
  cases hslot : s.descriptors.slot? i with
  | none => exact FilesKept.refl s
  | some file =>
    obtain ⟨openHandles, hclosed⟩ := exists_close_eq file s.devices
    refine ⟨fun hs => hs.vacate (DescriptorTable.lt_of_slot? hslot) hi,
      fun hs => (hs.vacate hslot).1, ?_, fun hs => ?_, ?_⟩
    · intro hexact others hbalanced
      obtain ⟨-, -, -, hcount⟩ := hexact.vacate hslot
      simp only [Balanced] at hbalanced ⊢
      have hclose := handles_close file s.devices
      omega
    · exact hs.close file (hs.below.set (by rintro _ ⟨⟩) _ _)
    · change _ ≤ (file.close s.devices).2.files.files.length
      rw [hclosed]

theorem ensures_close (fd : Int) (s : Desk) : Ensures (close fd) s
    (fun _ s' => 0 ≤ fd ∧ (s.descriptors.slot? fd.toNat).isSome ∧ s' = (s.closeSlot fd.toNat).2)
    (fun stop s' => stop = .refused .badFileDescriptor ∧ s' = s) := by
  unfold close
  rw [ensures_bind, ensures_get, DescriptorTable.index?]
  by_cases hfd : fd < 0
  · rw [if_pos hfd]
    exact ⟨rfl, rfl⟩
  · rw [if_neg hfd, Option.map_some, closeSlot]
    cases hslot : s.descriptors.slot? fd.toNat with
    | none => exact ⟨rfl, rfl⟩
    | some file => exact ⟨Int.not_lt.1 hfd, rfl, rfl⟩

theorem keepsFiles_close {fd : Int} (hfd : fd < wordLimit) : KeepsFiles (close fd) (fun _ => True) := by
  intro s _
  apply (ensures_close fd s).mono
  · rintro _ s' ⟨hpos, -, rfl⟩
    exact ⟨filesKept_closeSlot (by omega), trivial⟩
  · rintro stop s' ⟨rfl, rfl⟩
    exact ⟨FilesKept.refl s', _, rfl⟩

private theorem filesKept_closeSlots {slots : List Nat} (hslots : ∀ i ∈ slots, i < wordLimit) :
    FilesKept s (s.closeSlots slots).2 := by
  induction slots generalizing s with
  | nil => exact FilesKept.refl s
  | cons i rest ih =>
    have hfirst : FilesKept s _ := filesKept_closeSlot (hslots i (List.mem_cons_self ..))
    exact hfirst.trans (ih fun j hj => hslots j (List.mem_cons_of_mem _ hj))

theorem filesKept_closeAll : FilesKept s s.closeAll.2 := by
  apply filesKept_closeSlots
  intro i hi
  exact Nat.lt_trans (List.mem_range.1 hi) (DescriptorTable.nameable_lt _)

/-- The files of some slots were closed, and each that was open counts as one fewer. -/
structure Cleared (slots : List Nat) (s s' : Desk) : Prop where
  freeExact : s'.descriptors.FreeExact
  capacity : s'.descriptors.capacity = s.descriptors.capacity
  slot : ∀ i, s'.descriptors.slot? i = if i ∈ slots then none else s.descriptors.slot? i
  handles : s'.devices.files.openHandles - s'.descriptors.fileCount =
    s.devices.files.openHandles - s.descriptors.fileCount

private theorem cleared_closeSlot (h : s.descriptors.FreeExact) (i : Nat) :
    Cleared [i] s (s.closeSlot i).2 := by
  unfold closeSlot
  cases hslot : s.descriptors.slot? i with
  | none =>
    refine ⟨h, rfl, fun j => ?_, rfl⟩
    by_cases hj : j ∈ [i]
    · rw [if_pos hj, List.mem_singleton.1 hj]
      exact hslot
    · rw [if_neg hj]
  | some file =>
    obtain ⟨hexact, hcapacity, hslots, hcount⟩ := h.vacate hslot
    have hclose := handles_close file s.devices
    refine ⟨hexact, hcapacity, fun j => ?_, ?_⟩
    · rw [hslots j]
      simp only [List.mem_singleton, eq_comm]
    · dsimp only
      omega

private theorem cleared_closeSlots (h : s.descriptors.FreeExact) (slots : List Nat) :
    Cleared slots s (s.closeSlots slots).2 := by
  induction slots generalizing s with
  | nil => exact ⟨h, rfl, fun i => (if_neg List.not_mem_nil).symm, rfl⟩
  | cons i rest ih =>
    have hfirst := cleared_closeSlot h i
    have hrest := ih hfirst.freeExact
    refine ⟨hrest.freeExact, hrest.capacity.trans hfirst.capacity, fun j => ?_,
      hrest.handles.trans hfirst.handles⟩
    change (closeSlots (s.closeSlot i).2 rest).2.descriptors.slot? j = _
    rw [hrest.slot, hfirst.slot]
    simp only [List.mem_cons, List.not_mem_nil, or_false]
    by_cases hrest : j ∈ rest
    · rw [if_pos hrest, if_pos (Or.inr hrest)]
    · simp only [hrest, if_false, or_false]

theorem closeAll_freeExact (h : s.descriptors.FreeExact) :
    (∀ i < DescriptorTable.nameable s.descriptors.capacity,
      s.closeAll.2.descriptors.slot? i = none) ∧
    s.closeAll.2.descriptors.capacity = s.descriptors.capacity ∧
    s.closeAll.2.descriptors.fileCount = 0 ∧
    s.closeAll.2.devices.files.openHandles =
      s.devices.files.openHandles - s.descriptors.fileCount := by
  have hcleared : Cleared _ s s.closeAll.2 := cleared_closeSlots h _
  have hslot : ∀ i < DescriptorTable.nameable s.descriptors.capacity,
      s.closeAll.2.descriptors.slot? i = none := by
    intro i hi
    rw [hcleared.slot, if_pos (List.mem_range.2 hi)]
  have hcount : s.closeAll.2.descriptors.fileCount = 0 := by
    apply DescriptorTable.fileCount_eq_zero
    intro i file hfile
    rcases hcleared.freeExact.named i file hfile with hconsole | hnamed
    · exact hcleared.freeExact.console i file hfile hconsole
    · rw [hcleared.capacity] at hnamed
      rw [hslot i hnamed] at hfile
      cases hfile
  have hhandles := hcleared.handles
  rw [hcount, Nat.sub_zero] at hhandles
  exact ⟨hslot, hcleared.capacity, hcount, hhandles⟩

theorem openCount_closeAll (h : s.descriptors.FreeExact)
    (hcapacity : s.descriptors.capacity < wordLimit) :
    s.closeAll.2.descriptors.openCount = 0 := by
  obtain ⟨hslot, hsame, -, -⟩ := closeAll_freeExact h
  apply DescriptorTable.openCount_eq_zero
  intro i hi
  apply hslot
  rwa [DescriptorTable.nameable_eq hcapacity, ← hsame]

end Desk

end PagedKernel

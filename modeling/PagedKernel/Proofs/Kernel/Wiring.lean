import PagedKernel.Proofs.Kernel.DeskWork
import PagedKernel.Proofs.Kernel.Transfers

/-!
# How descriptors are wired

The console is at the first two descriptors of a process, while it has not closed them, and files of
the file system are at the others. No file gets shorter, so no position in a file is behind its end.
Reads from descriptor 0 and writes to descriptor 1 move bytes from and to the console, and nothing
else does.
-/

namespace PagedKernel

namespace FileSystem

variable {fs fs' fs'' : FileSystem}

/-- No file is lost, and none gets shorter. -/
structure Grown (fs fs' : FileSystem) : Prop where
  count : fs.files.length ≤ fs'.files.length
  bytes : ∀ id < fs.files.length, (fs.bytes id).length ≤ (fs'.bytes id).length

private theorem Grown.of_bytes (hcount : fs.files.length ≤ fs'.files.length)
    (hbytes : ∀ id, fs'.bytes id = fs.bytes id) : Grown fs fs' :=
  ⟨hcount, fun id _ => Nat.le_of_eq (congrArg List.length (hbytes id).symm)⟩

theorem Grown.of_files (h : fs'.files = fs.files) : Grown fs fs' :=
  .of_bytes (Nat.le_of_eq (congrArg List.length h.symm)) fun id => by simp only [FileSystem.bytes, h]

theorem Grown.refl (fs : FileSystem) : Grown fs fs := .of_files rfl

theorem Grown.trans (h : Grown fs fs') (h' : Grown fs' fs'') : Grown fs fs'' where
  count := Nat.le_trans h.count h'.count
  bytes id hid := Nat.le_trans (h.bytes id hid) (h'.bytes id (Nat.lt_of_lt_of_le hid h.count))

private theorem grown_setBytes {id : FileId} {data : Bytes} (h : (fs.bytes id).length ≤ data.length) :
    Grown fs (fs.setBytes id data) where
  count := Nat.le_of_eq (length_setBytes ..).symm
  bytes j hj := by
    rw [bytes_setBytes]
    split
    · next heq => exact heq.1 ▸ h
    · exact Nat.le_refl _

theorem Grounded.remove {name : String} (h : fs.Grounded) (hremove : fs.remove? name = some fs') :
    fs'.Grounded ∧ fs'.files = fs.files := by
  obtain ⟨id, -, rfl⟩ := Option.map_eq_some_iff.1 hremove
  refine ⟨fun other id hid => ?_, rfl⟩
  rw [Assoc.find?_erase] at hid
  split at hid
  · cases hid
  · exact h other id hid

end FileSystem

/-- The file of a descriptor: an end of the console, or a file that was made, at a place in it or at
its end. -/
inductive OpenFile.Wired (fs : FileSystem) : Nat → OpenFile → Prop
  | stdin : Wired fs 0 .stdin
  | stdout : Wired fs 1 .stdout
  | file {i : Nat} {name : String} {id : FileId} {position : Nat}
      (hi : DescriptorTable.firstFree ≤ i) (hid : id < fs.files.length)
      (hposition : position ≤ (fs.bytes id).length) :
      Wired fs i ⟨.file name (some id) position, {}⟩

private theorem OpenFile.Wired.grown {fs fs' : FileSystem} {i : Nat} {file : OpenFile}
    (h : file.Wired fs i) (hgrown : fs.Grown fs') : file.Wired fs' i := by
  cases h with
  | stdin => exact .stdin
  | stdout => exact .stdout
  | file hi hid hposition =>
    exact .file hi (Nat.lt_of_lt_of_le hid hgrown.count)
      (Nat.le_trans hposition (hgrown.bytes _ hid))

namespace DescriptorTable

variable {t t' : DescriptorTable} {fs fs' : FileSystem} {file : OpenFile} {i : Nat}

/-- Every slot has the file that it may have, and none that the console had is free. -/
structure Wired (t : DescriptorTable) (fs : FileSystem) : Prop where
  slots : ∀ i file, t.slot? i = some file → file.Wired fs i
  free : ∀ i ∈ t.free, firstFree ≤ i

theorem wired_create (capacity : Nat) (fs : FileSystem) : (create capacity).Wired fs where
  slots i file h := by
    match i with
    | 0 =>
      cases h
      exact .stdin
    | 1 =>
      cases h
      exact .stdout
    | i + 2 =>
      simp only [slot?, create, List.getElem?_cons_succ, List.getElem?_replicate] at h
      split at h <;> cases h
  free i hi := (List.mem_range'_1.1 hi).1

theorem Wired.grown (h : t.Wired fs) (hgrown : fs.Grown fs') : t.Wired fs' :=
  ⟨fun i file hslot => (h.slots i file hslot).grown hgrown, h.free⟩

private theorem Wired.set (h : t.Wired fs) {slot : Option OpenFile} {free : List Nat}
    (hslot : ∀ file, slot = some file → file.Wired fs i) (hfree : ∀ j ∈ free, firstFree ≤ j) :
    Wired ⟨t.slots.set i slot, free⟩ fs where
  slots j file hj := by
    rw [slot?, List.getElem?_set] at hj
    by_cases heq : i = j
    · rw [if_pos heq] at hj
      split at hj
      · exact heq ▸ hslot file hj
      · cases hj
    · rw [if_neg heq] at hj
      exact h.slots j file hj
  free := hfree

private theorem Wired.place (h : t.Wired fs) (hfile : ∀ i, firstFree ≤ i → file.Wired fs i)
    (hp : t.place? file = some (i, t')) : t'.Wired fs := by
  rw [place?] at hp
  split at hp
  · cases hp
  · next j rest hfree =>
    cases hp
    have hrest : ∀ k ∈ rest, firstFree ≤ k := fun k hk =>
      h.free k (hfree ▸ List.mem_cons_of_mem _ hk)
    refine h.set ?_ hrest
    rintro _ ⟨⟩
    exact hfile i (h.free i (hfree ▸ List.mem_cons_self ..))

private theorem Wired.vacate (h : t.Wired fs) (i : Nat) : (t.vacate i).Wired fs := by
  refine h.set nofun fun j hj => ?_
  split at hj
  · next hi =>
    rcases List.mem_append.1 hj with hold | hnew
    · exact h.free j hold
    · rwa [List.mem_singleton.1 hnew]
  · exact h.free j hj

end DescriptorTable

namespace Desk

variable {s s' : Desk} {file : OpenFile} {slot : Nat}

/-- Every name leads to a file that was made, and every descriptor to the console or to such a file. -/
structure Wired (s : Desk) : Prop where
  names : s.devices.files.Grounded
  table : s.descriptors.Wired s.devices.files

/-- Work at a desk, in which bytes were taken from the console and others were printed on it. -/
structure Carries (taken printed : Bytes) (s s' : Desk) : Prop where
  wired : s'.Wired
  grown : s.devices.files.Grown s'.devices.files
  input : s.devices.console.input = taken ++ s'.devices.console.input
  output : s'.devices.console.output = s.devices.console.output ++ printed

theorem carries_of_console (hwired : s'.Wired) (hgrown : s.devices.files.Grown s'.devices.files)
    (hconsole : s'.devices.console = s.devices.console) : Carries [] [] s s' :=
  ⟨hwired, hgrown, by rw [hconsole]; rfl, by rw [hconsole, List.append_nil]⟩

theorem Carries.refl (h : s.Wired) : Carries [] [] s s := carries_of_console h (.refl _) rfl

theorem Wired.carries_of_eq (h : s.Wired) (heq : s' = s) : Carries [] [] s s' := heq ▸ .refl (heq ▸ h)

theorem Carries.trans {s'' : Desk} (h : Carries [] [] s s') (h' : Carries [] [] s' s'') :
    Carries [] [] s s'' where
  wired := h'.wired
  grown := h.grown.trans h'.grown
  input := h.input.trans h'.input
  output := by rw [h'.output, h.output, List.append_nil]

private theorem wired_open {d d' : Devices} {name : String} {create : Bool} (hd : d.files.Grounded)
    (h : d.open? name create = some (file, d')) :
    (∀ i, DescriptorTable.firstFree ≤ i → file.Wired d'.files i) ∧ d'.files.Grounded ∧
      d.files.Grown d'.files ∧ d'.console = d.console := by
  obtain ⟨hcount, hground⟩ := grounded_open h
  obtain ⟨hnames, hmade⟩ := hground hd
  rcases Devices.open?_cases h with ⟨id, -, rfl, rfl⟩ | ⟨-, -, rfl, rfl⟩
  · exact ⟨fun i hi => .file hi (hmade id rfl) (Nat.zero_le _), hnames, .of_files rfl, rfl⟩
  · exact ⟨fun i hi => .file hi (hmade _ rfl) (Nat.zero_le _), hnames,
      .of_bytes hcount fun id => FileSystem.bytes_insert d.files name id, rfl⟩

private theorem Wired.close {descriptors : DescriptorTable} (h : s.Wired) (file : OpenFile)
    (htable : descriptors.Wired s.devices.files) :
    Carries [] [] s ⟨descriptors, (file.close s.devices).2⟩ := by
  obtain ⟨openHandles, hclose⟩ := exists_close_eq file s.devices
  rw [hclose]
  exact carries_of_console ⟨h.names, htable.grown (.of_files rfl)⟩ (.of_files rfl) rfl

theorem Wired.openFile (h : s.Wired) (name : String) (create : Bool) :
    Ensures (openFile name create) s (fun _ s' => Carries [] [] s s')
      (fun _ s' => Carries [] [] s s') := by
  unfold Desk.openFile
  rw [ensures_bind, ensures_get]
  cases hopen : s.devices.open? name create with
  | none => exact .refl h
  | some opened =>
    obtain ⟨file, devices⟩ := opened
    obtain ⟨hfile, hnames, hgrown, hconsole⟩ := wired_open h.names hopen
    have hopened : Carries [] [] s ⟨s.descriptors, devices⟩ :=
      carries_of_console ⟨hnames, h.table.grown hgrown⟩ hgrown hconsole
    simp only
    rw [ensures_bind, ensures_set, install, ensures_bind, ensures_get]
    cases hplace : s.descriptors.place? file with
    | none => exact hopened.trans (hopened.wired.close file hopened.wired.table)
    | some placed =>
      obtain ⟨i, descriptors⟩ := placed
      have hplaced : Carries [] [] s ⟨descriptors, devices⟩ :=
        carries_of_console ⟨hnames, hopened.wired.table.place hfile hplace⟩ hgrown hconsole
      simp only
      rw [ensures_bind, ensures_set]
      split
      · exact hplaced
      · exact hplaced

theorem Wired.closeSlot (h : s.Wired) (i : Nat) : Carries [] [] s (s.closeSlot i).2 := by
  unfold Desk.closeSlot
  split
  · exact .refl h
  · next file hslot => exact h.close file (h.table.vacate i)

private theorem Wired.closeSlots (h : s.Wired) (slots : List Nat) :
    Carries [] [] s (s.closeSlots slots).2 := by
  induction slots generalizing s with
  | nil => exact .refl h
  | cons i rest ih => exact (h.closeSlot i).trans (ih (h.closeSlot i).wired)

theorem Wired.closeAll (h : s.Wired) : Carries [] [] s s.closeAll.2 := h.closeSlots _

theorem Wired.pull (h : s.Wired) (hslot : s.descriptors.slot? slot = some file) {count : Nat}
    (hcount : count ≤ (Channel.rest ⟨file, s.devices⟩).length) :
    let c := Channel.pulled ⟨file, s.devices⟩ count
    Carries (if slot = 0 then s.devices.console.input.take count else []) [] s
      ⟨s.descriptors.setFile slot c.file, c.devices⟩ := by
  have hsame := DescriptorTable.setFile_self hslot
  cases h.table.slots slot file hslot with
  | stdin =>
    simp only [Channel.pulled, OpenFile.stdin, if_true] at hsame ⊢
    rw [hsame]
    exact ⟨⟨h.names, h.table⟩, .refl _, (List.take_append_drop ..).symm,
      (List.append_nil _).symm⟩
  | stdout =>
    simp only [Channel.pulled, OpenFile.stdout, Nat.one_ne_zero, if_false] at hsame ⊢
    rw [hsame]
    exact .refl h
  | @file i name id position hi hid hposition =>
    have hplaced : Channel.Placed ⟨⟨.file name (some id) position, {}⟩, s.devices⟩ :=
      ⟨hid, hposition⟩
    have hother : slot ≠ 0 := by
      simp only [DescriptorTable.firstFree] at hi
      omega
    rw [if_neg hother]
    refine carries_of_console ⟨h.names, h.table.set ?_ h.table.free⟩ (.refl _) rfl
    rintro _ ⟨⟩
    exact .file hi hid (hplaced.pulled hcount).2

private theorem Wired.push (h : s.Wired) (hslot : s.descriptors.slot? slot = some file) (data : Bytes) :
    let c := Channel.pushed ⟨file, s.devices⟩ data
    Carries [] (if slot = 1 then data else []) s
      ⟨s.descriptors.setFile slot c.file, c.devices⟩ := by
  have hsame := DescriptorTable.setFile_self hslot
  cases h.table.slots slot file hslot with
  | stdin =>
    simp only [Channel.pushed, OpenFile.stdin, Nat.zero_ne_one, if_false] at hsame ⊢
    rw [hsame]
    exact .refl h
  | stdout =>
    simp only [Channel.pushed, OpenFile.stdout, if_true] at hsame ⊢
    rw [hsame]
    exact ⟨⟨h.names, h.table⟩, .refl _, rfl, rfl⟩
  | @file i name id position hi hid hposition =>
    have hplaced : Channel.Placed ⟨⟨.file name (some id) position, {}⟩, s.devices⟩ :=
      ⟨hid, hposition⟩
    have hother : slot ≠ 1 := by
      simp only [DescriptorTable.firstFree] at hi
      omega
    have hgrown : s.devices.files.Grown
        (s.devices.files.setBytes id ((s.devices.files.bytes id).overwrite position data)) :=
      FileSystem.grown_setBytes (by rw [Bytes.length_overwrite]; exact Nat.le_max_left ..)
    have hnames : (s.devices.files.setBytes id
        ((s.devices.files.bytes id).overwrite position data)).Grounded := by
      intro other id hother
      rw [FileSystem.length_setBytes]
      exact h.names other id hother
    rw [if_neg hother]
    refine carries_of_console ⟨hnames, (h.table.grown hgrown).set ?_ h.table.free⟩ hgrown rfl
    rintro _ ⟨⟩
    exact .file hi (hplaced.pushed data).1 (hplaced.pushed data).2

end Desk

theorem OpenFile.Wired.limits {fs : FileSystem} {i : Nat} {file : OpenFile} (h : file.Wired fs i) :
    file.limits = {} := by
  cases h <;> rfl

theorem OpenFile.Wired.placed {fs : FileSystem} {i : Nat} {file : OpenFile} (h : file.Wired fs i) :
    file.source.Placed fs := by
  cases h with
  | stdin => trivial
  | stdout => trivial
  | file hi hid hposition => exact ⟨hid, hposition⟩

private theorem OpenFile.Wired.writable {fs : FileSystem} {i : Nat} {file : OpenFile}
    (h : file.Wired fs i) : file.source.writable = !decide (i = 0) := by
  cases h with
  | stdin => rfl
  | stdout => rfl
  | @file i name id position hi hid hposition =>
    simp only [DescriptorTable.firstFree] at hi
    simp [Source.writable, show i ≠ 0 by omega]

namespace Turn

open UserMemory Desk

variable {t t' : Turn} {q : CallRequest}

theorem slot_eq_iff {fd : Int32} {slot : Nat} {file : OpenFile}
    (hfind : t.self.descriptors.find? fd.toInt = some (slot, file)) (r : Int32) (hr : 0 ≤ r.toInt) :
    slot = r.toInt.toNat ↔ fd = r := by
  obtain ⟨hfd, rfl, -⟩ := DescriptorTable.find?_eq_some_iff.1 hfind
  rw [← Int32.toInt_inj]
  omega

/-- A read takes bytes from the console if it is one from descriptor 0, and whether the bytes could be
stored or not. -/
theorem carries_readCall (hframed : t.memory.Framed) (hw : t.desk.Wired) (q : CallRequest) :
    Ensures (readCall q) t
      (fun _ t' => ∃ taken, Carries taken [] t.desk t'.desk ∧ (q.arg1 ≠ 0 → taken = []))
      (fun _ t' => ∃ taken, Carries taken [] t.desk t'.desk ∧ (q.arg1 ≠ 0 → taken = [])) := by
  have hnone : ∀ t' : Turn, t'.desk = t.desk →
      ∃ taken, Carries taken [] t.desk t'.desk ∧ (q.arg1 ≠ 0 → taken = []) := by
    intro t' hdesk
    exact ⟨[], hw.carries_of_eq hdesk, fun _ => rfl⟩
  rw [readCall_eq_transfer]
  refine ensures_transfer (fun _ => hnone t rfl) fun va slot file hpointer hfind hsize => ?_
  rw [← readCall_eq_transfer]
  obtain ⟨-, -, hslot⟩ := DescriptorTable.find?_eq_some_iff.1 hfind
  have hfile := hw.table.slots slot file hslot
  have hcalls : file.limits.calls = none := congrArg Limits.calls hfile.limits
  cases hreadable : file.source.readable with
  | false =>
    exact (ensures_readCall_of_not_readable hpointer hfind hsize hreadable hcalls).mono
      (fun _ _ h => hnone _ h.2) fun _ _ h => hnone _ h
  | true =>
    have hpull : ∀ m count, count ≤ (Channel.rest ⟨file, t.kernel.machine.devices⟩).length →
        ∃ taken, Carries taken [] t.desk
          (t.plug slot m (Channel.pulled ⟨file, t.kernel.machine.devices⟩ count)).desk ∧
          (q.arg1 ≠ 0 → taken = []) := by
      intro m count hcount
      refine ⟨_, hw.pull hslot hcount, fun hother => if_neg ?_⟩
      exact fun h => hother ((slot_eq_iff hfind 0 (by decide)).1 h)
    apply (ensures_readCall hframed hpointer hfind hsize hreadable hcalls).mono
    · rintro _ t' ⟨rfl, -, m, -, rfl⟩
      exact hpull m _ (Nat.min_le_right ..)
    · rintro stop t' ⟨rfl, chunk, m, -, -, rfl⟩
      exact hpull m _ (by omega)

/-- A write prints its whole buffer if it is one to descriptor 1 that succeeds, and else nothing. -/
theorem carries_writeCall (hframed : t.memory.Framed) (hw : t.desk.Wired) (q : CallRequest) :
    Ensures (writeCall q) t
      (fun _ t' => Carries [] (if q.arg1 = 1 then
        t.memory.bytesAt q.arg2.toInt.toNat q.arg3.toInt.toNat else []) t.desk t'.desk)
      (fun _ t' => Carries [] [] t.desk t'.desk) := by
  rw [writeCall_eq_transfer]
  refine ensures_transfer (fun _ => .refl hw) fun va slot file hpointer hfind hsize => ?_
  rw [← writeCall_eq_transfer]
  obtain ⟨-, -, hslot⟩ := DescriptorTable.find?_eq_some_iff.1 hfind
  have hfile := hw.table.slots slot file hslot
  have hcalls : file.limits.calls = none := congrArg Limits.calls hfile.limits
  have hva : va.toNat = q.arg2.toInt.toNat := by
    have hint := toNat_pointer hpointer
    omega
  have hfd : slot = 1 ↔ q.arg1 = 1 := slot_eq_iff hfind 1 (by decide)
  simp only [← hfd, ← hva]
  cases hwritable : file.source.writable with
  | false =>
    have hinput : slot = 0 := by simpa [hfile.writable] using hwritable
    rw [if_neg (by omega)]
    exact (ensures_writeCall_of_not_writable hpointer hfind hsize hwritable hcalls).mono
      (fun _ _ h => hw.carries_of_eq h) fun _ _ h => hw.carries_of_eq h
  | true =>
    apply (ensures_writeCall hframed hpointer hfind hsize hwritable hfile.placed).mono
    · rintro _ t' ⟨rfl, -, -, hdrains⟩
      rw [hdrains, Channel.spent_of_none hcalls]
      exact hw.push hslot _
    · rintro stop t' (⟨-, -, rfl⟩ | ⟨-, -, hshort, -⟩)
      · exact .refl hw
      · rw [hfile.limits] at hshort
        exact absurd hshort (Nat.lt_irrefl _)

end Turn

end PagedKernel

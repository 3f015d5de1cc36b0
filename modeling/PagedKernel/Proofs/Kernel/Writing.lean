import PagedKernel.Proofs.Kernel.Sessions

/-!
# Writing to a file

A write moves the whole buffer into a file, or nothing of it: the buffer is checked before the first
chunk, and a buffer that passes is read chunk by chunk without fail. A file that is limited to short
or few transfers is left with the start of the buffer.
-/

namespace PagedKernel

private theorem Limits.writes_unlimited (size : Nat) : ({} : Limits).writes size = size := rfl

namespace World

variable {allowed : Move → Prop} {w : World} {p : Process} {passed : List Traffic}

private theorem Session.placed (h : Session allowed passed w) (hp : p ∈ w.running) {fd : Int}
    {slot : Nat}
    {file : OpenFile} (hfind : p.descriptors.find? fd = some (slot, file)) :
    file.limits = {} ∧ file.source.Placed w.kernel.machine.devices.files := by
  obtain ⟨-, -, hslot⟩ := DescriptorTable.find?_eq_some_iff.1 hfind
  have hself := h.balanced.wired.desk (List.mem_append_left _ hp)
  have hfile := hself.table.slots slot file hslot
  exact ⟨hfile.limits, hfile.placed⟩

end World

namespace Turn

open UserMemory World

/-- The turn with other memory, in which data stands in a file from a place on, and the file of the
slot stands behind it. -/
def inscribe (t : Turn) (m : UserMemory) (slot : Nat) (name : String) (id : FileId) (position : Nat)
    (limits : Limits) (data : Bytes) : Turn :=
  let contents := t.kernel.machine.devices.files.bytes id
  t.put m
    ⟨t.self.descriptors.setFile slot ⟨.file name (some id) (position + data.length), limits⟩,
      { t.kernel.machine.devices with
        files := t.kernel.machine.devices.files.setBytes id
          (contents.take position ++ data ++ contents.drop (position + data.length)) }⟩

private theorem plug_pushed (t : Turn) (slot : Nat) (m : UserMemory) {name : String} {id : FileId}
    {position : Nat} {limits : Limits}
    (h : (Source.file name (some id) position).Placed t.kernel.machine.devices.files) (calls : Nat)
    (data : Bytes) :
    t.plug slot m ((Channel.spent ⟨⟨.file name (some id) position, limits⟩,
      t.kernel.machine.devices⟩ calls).pushed data) =
        t.inscribe m slot name id position (limits.spend calls) data := by
  rw [inscribe, ← Bytes.overwrite_of_le h.2]
  rfl

/-- A buffer that can be read is written chunk by chunk without fail to a file without limits. -/
theorem exists_writeChunks_eq {t : Turn} {slot address size : Nat} {source : Source}
    (hframed : t.memory.Framed) (hslot : t.self.descriptors.slot? slot = some ⟨source, {}⟩)
    (hwritable : source.writable = true) (hplaced : source.Placed t.kernel.machine.devices.files)
    (hmovable : ∀ i < size, t.self.table.Movable .read (address + i)) :
    ∃ t', writeChunks slot address (chunkCount size) size t = .ok ⟨⟩ t' := by
  have hwrite := ensures_writeChunks (t := t) (m := t.memory)
    (c := ⟨⟨source, {}⟩, t.kernel.machine.devices⟩) (DescriptorTable.lt_of_slot? hslot) hframed
    hwritable hplaced hmovable (Nat.le_refl _)
  rw [plug_self hslot] at hwrite
  rcases hrun : writeChunks slot address (chunkCount size) size t with ⟨_, t'⟩ | ⟨stop, t'⟩
  · exact ⟨t', rfl⟩
  · exact absurd (hwrite.of_error hrun).2.1 (Nat.lt_irrefl size)

/-- A write checks the pointer, the descriptor, the size and the buffer, and then moves all of the
buffer into the file, or the start of it that a limited file takes. -/
theorem write_outcome :
    (∀ (allowed : Move → Prop) (passed : List Traffic) (w : World) (p : Process) (fd : Int)
      (slot : Nat) (file : OpenFile), Session allowed passed w → p ∈ w.running →
      p.descriptors.find? fd = some (slot, file) →
      (w.memory p).Framed ∧ file.limits = {} ∧
        file.source.Placed w.kernel.machine.devices.files) ∧
    ∀ (t : Turn) (q : CallRequest), t.memory.Framed →
      t.Checks q (serve .write q t) fun va slot file =>
        ∀ name id position, file.source = .file name (some id) position →
          file.source.Placed t.kernel.machine.devices.files →
          let size := q.arg3.toInt.toNat
          let buffer := t.memory.bytesAt va.toNat size
          (¬ (∀ i < size, t.self.table.Movable .read (va.toNat + i)) →
            serve .write q t = .error (.refused .badAddress) t) ∧
          ((∀ i < size, t.self.table.Movable .read (va.toNat + i)) →
            (file.limits = {} → file.limits.writes size = size ∧
              ∃ t', writeChunks slot va.toNat (chunkCount size) size t = .ok ⟨⟩ t') ∧
            (file.limits.writes size = size → ∃ m calls, t.memory.Peeked m ∧
              serve .write q t =
                .ok size (t.inscribe m slot name id position (file.limits.spend calls) buffer)) ∧
            (file.limits.writes size < size → ∃ m calls, t.memory.Peeked m ∧
              serve .write q t = .error (.refused .ioError)
                (t.inscribe m slot name id position (file.limits.spend calls)
                  (buffer.take (file.limits.writes size))))) := by
  refine ⟨fun _ _ _ _ _ _ _ hw hp hfind =>
    ⟨(hw.reachable.proper hp).framed, hw.placed hp hfind⟩, fun t q hframed => ?_⟩
  rw [show serve .write q = writeCall q from rfl]
  refine checks_writeCall fun va slot file hpointer hfind hsize name id position hsource hplaced => ?_
  obtain ⟨source, limits⟩ := file
  subst hsource
  have hwrite := ensures_writeCall hframed hpointer hfind hsize rfl hplaced
  intro size buffer
  constructor
  · intro hmovable
    rcases hrun : writeCall q t with ⟨count, t'⟩ | ⟨stop, t'⟩
    · exact absurd (hwrite.of_ok hrun).2.2.1 hmovable
    · rcases hwrite.of_error hrun with ⟨-, rfl, rfl⟩ | ⟨hall, -⟩
      · rfl
      · exact absurd hall hmovable
  · intro hmovable
    refine ⟨?_, fun hall => ?_, fun hshort => ?_⟩
    · rintro ⟨⟩
      obtain ⟨-, -, hslot⟩ := DescriptorTable.find?_eq_some_iff.1 hfind
      exact ⟨Limits.writes_unlimited size, exists_writeChunks_eq hframed hslot rfl hplaced hmovable⟩
    · rcases hrun : writeCall q t with ⟨count, t'⟩ | ⟨stop, t'⟩
      · obtain ⟨rfl, -, -, rfl⟩ := hwrite.of_ok hrun
        exact ⟨_, _, peeked_afterRead .., by rw [plug_pushed _ _ _ hplaced]⟩
      · rcases hwrite.of_error hrun with ⟨hbad, -⟩ | ⟨-, -, hshort, -⟩
        · exact absurd hmovable hbad
        · exact absurd hall (Nat.ne_of_lt hshort)
    · rcases hrun : writeCall q t with ⟨count, t'⟩ | ⟨stop, t'⟩
      · exact absurd (hwrite.of_ok hrun).2.1 (Nat.ne_of_lt hshort)
      · rcases hwrite.of_error hrun with ⟨hbad, -⟩ | ⟨-, rfl, -, seen, calls, rfl⟩
        · exact absurd hmovable hbad
        · refine ⟨t.memory.afterRead va.toNat seen, calls, peeked_afterRead .., ?_⟩
          rw [plug_pushed _ _ _ hplaced, take_bytesAt _ _ (Nat.le_of_lt hshort)]

/-- Five bytes are written over the last two of a file. A buffer that leaves the only page is not
written. -/
theorem write_outcome_past_end : (∃ m calls, sampleReader.memory.Peeked m ∧
    serve .write ⟨7, 2, 8, 5, 0⟩ sampleReader =
      .ok 5 (sampleReader.inscribe m 2 "log" 0 1 (Limits.spend {} calls) [0, 0, 0, 0, 0]) ∧
    (sampleReader.inscribe m 2 "log" 0 1 (Limits.spend {} calls)
      [0, 0, 0, 0, 0]).kernel.machine.devices.files.bytes 0 = [1, 0, 0, 0, 0, 0]) ∧
    serve .write ⟨7, 2, 4095, 5, 0⟩ sampleReader = .error (.refused .badAddress) sampleReader := by
  have hcall := write_outcome.2 sampleReader
  have hmovable : ∀ a, a + 5 ≤ addressLimit → (sampleReader.memory.rangeOk a 5 .read = true ↔
      ∀ i < 5, sampleReader.self.table.Movable .read (a + i)) := fun a h => rangeOk_iff_movable h
  have hplaced : (Source.file "log" (some 0) 1).Placed sampleReader.kernel.machine.devices.files :=
    ⟨by decide, by decide⟩
  obtain ⟨-, hinside⟩ := (hcall ⟨7, 2, 8, 5, 0⟩ proper_sampleReader.framed).passed ⟨8, by decide⟩ 2
    ⟨.file "log" (some 0) 1, {}⟩ (by decide) (by decide) (by decide) "log" 0 1 rfl hplaced
  obtain ⟨houtside, -⟩ := (hcall ⟨7, 2, 4095, 5, 0⟩ proper_sampleReader.framed).passed
    ⟨4095, by decide⟩ 2 ⟨.file "log" (some 0) 1, {}⟩ (by decide) (by decide) (by decide) "log" 0 1
    rfl hplaced
  obtain ⟨-, hwritten, -⟩ := hinside ((hmovable 8 (by decide)).1 (by decide))
  obtain ⟨m, calls, hpeeked, hserve⟩ := hwritten rfl
  refine ⟨⟨m, calls, hpeeked, hserve, rfl⟩, houtside ?_⟩
  exact (hmovable 4095 (by decide)).not.1 (by decide)

end Turn

end PagedKernel

import PagedKernel.Proofs.Kernel.Transfers
import PagedKernel.Proofs.Kernel.World

/-!
# Reading from a file

A read moves what is left of a file into the buffer, as far as it was asked for. The buffer need not
be writable behind the bytes that come. If it is not writable in front of their end, the chunks before
the first bad one are there, and the file has moved past that one.
-/

namespace PagedKernel

namespace UserMemory

variable {m m' : UserMemory} {a : Nat} {data : Bytes}

/-- Every frame that the table names is there, and none is named twice. -/
structure Proper (m : UserMemory) : Prop where
  framed : m.Framed
  distinct : m.table.mapped.Nodup

/-- Data is stored at an address, and no other byte of the memory is different, whether the program
sees it or not. -/
structure Stores (m m' : UserMemory) (a : Nat) (data : Bytes) : Prop where
  stored : m'.bytesAt a data.length = data
  kept : ∀ b, ¬ (a ≤ b ∧ b < a + data.length) → m'.byte? b = m.byte? b
  elsewhere : ∀ f o, (∀ b, a ≤ b → b < a + data.length → m.table.place? b ≠ some (f, o)) →
    m'.memory.at? f o = m.memory.at? f o
  size : m'.memory.size = m.memory.size
  mapping : m'.table.mapping = m.table.mapping

theorem Wrote.stores (h : Wrote m m' a data) (hm : m.Proper) : Stores m m' a data where
  stored := by
    apply List.ext_getElem?
    intro i
    by_cases hi : i < data.length
    · have hin : a ≤ a + i ∧ a + i < a + data.length := by omega
      rw [getElem?_bytesAt hi, h.byte hm.distinct, if_pos hin, Nat.add_sub_cancel_left,
        List.getElem?_eq_getElem hi, Option.getD_some]
    · rw [List.getElem?_eq_none (by simpa using hi), List.getElem?_eq_none (by omega)]
  kept b hb := by rw [h.byte hm.distinct, if_neg hb]
  elsewhere := h.elsewhere
  size := h.size
  mapping := h.mapping

end UserMemory

namespace World

variable {allowed : Move → Prop} {w : World} {p : Process}

theorem Reachable.proper (hw : Reachable allowed w) (hp : p ∈ w.running) : (w.memory p).Proper := by
  obtain ⟨before, after, hrunning⟩ := List.append_of_mem hp
  have hs := sound_turn hw.sound hrunning
  exact ⟨hs.framed, hs.nodup⟩

end World

namespace Turn

open UserMemory World

def seek (t : Turn) (m : UserMemory) (slot : Nat) (file : OpenFile) (source : Source) : Turn :=
  t.put m ⟨t.self.descriptors.setFile slot { file with source }, t.kernel.machine.devices⟩

/-- A read checks the pointer, the descriptor and the size, and then moves what is left of the file,
up to the first chunk that cannot be stored. -/
theorem read_outcome :
    (∀ (allowed : Move → Prop) (w : World) (p : Process), Reachable allowed w → p ∈ w.running →
      (w.memory p).Proper) ∧
    ∀ (t : Turn) (q : CallRequest), t.memory.Proper →
      t.Checks q (serve .read q t) fun va slot file =>
        ∀ name id position, file.source = .file name (some id) position →
          file.limits.calls = none →
          let contents := t.kernel.machine.devices.files.bytes id
          let n := min (file.limits.reads q.arg3.toInt.toNat) (contents.length - position)
          ((∀ i < n, t.self.table.Movable .write (va.toNat + i)) → ∃ m,
            t.memory.Stores m va.toNat ((contents.drop position).take n) ∧
            serve .read q t = .ok n (t.seek m slot file (.file name (some id) (position + n)))) ∧
          (¬ (∀ i < n, t.self.table.Movable .write (va.toNat + i)) → ∃ chunk m,
            t.self.table.Breaks .write va.toNat n chunk ∧
            t.memory.Stores m va.toNat ((contents.drop position).take (pageSize * chunk)) ∧
            serve .read q t = .error (.refused .badAddress) (t.seek m slot file
              (.file name (some id) (position + min (pageSize * (chunk + 1)) n)))) := by
  refine ⟨fun _ _ _ hw hp => hw.proper hp, fun t q hm => ?_⟩
  rw [show serve .read q = readCall q from rfl]
  refine checks_readCall fun va slot file hpointer hfind hsize name id position hsource hcalls => ?_
  obtain ⟨source, limits⟩ := file
  subst hsource
  have hread := ensures_readCall hm.framed hpointer hfind hsize rfl hcalls
  have hrest : Channel.rest ⟨⟨.file name (some id) position, limits⟩, t.kernel.machine.devices⟩ =
      (t.kernel.machine.devices.files.bytes id).drop position := rfl
  simp only [hrest, List.length_drop] at hread
  intro contents n
  constructor
  · intro hmovable
    rcases hrun : readCall q t with ⟨count, t'⟩ | ⟨stop, t'⟩
    · obtain ⟨rfl, -, m, hwrote, rfl⟩ := hread.of_ok hrun
      exact ⟨m, Wrote.stores hwrote hm, rfl⟩
    · obtain ⟨-, chunk, m, hbreaks, -⟩ := hread.of_error hrun
      exact absurd hmovable hbreaks.not_movable
  · intro hmovable
    rcases hrun : readCall q t with ⟨count, t'⟩ | ⟨stop, t'⟩
    · exact absurd (hread.of_ok hrun).2.movable hmovable
    · obtain ⟨rfl, chunk, m, hbreaks, hwrote, rfl⟩ := hread.of_error hrun
      exact ⟨chunk, m, hbreaks, Wrote.stores hwrote hm, rfl⟩

def sampleReader : Turn where
  kernel := .boot { physPages := 2 } { files := ({} : FileSystem).insert "log" [1, 2, 3] }
  self :=
    { pid := .root
      table := PageTable.push {} 0 false
      descriptors := (DescriptorTable.create 3).setFile 2 ⟨.file "log" (some 0) 1, {}⟩ }

theorem proper_sampleReader : sampleReader.memory.Proper where
  framed := by unfold Framed; decide
  distinct := by decide

/-- Two bytes are left of the file, and five were asked for. The second one does not fit into the only
page if the buffer starts at its last byte: nothing is stored, and the file is at its end. -/
theorem read_outcome_at_end :
    (∃ m, sampleReader.memory.Stores m 8 [2, 3] ∧ serve .read ⟨6, 2, 8, 5, 0⟩ sampleReader =
      .ok 2 (sampleReader.seek m 2 ⟨.file "log" (some 0) 1, {}⟩ (.file "log" (some 0) 3))) ∧
    ∃ m, sampleReader.memory.Stores m 4095 [] ∧ serve .read ⟨6, 2, 4095, 5, 0⟩ sampleReader =
      .error (.refused .badAddress)
        (sampleReader.seek m 2 ⟨.file "log" (some 0) 1, {}⟩ (.file "log" (some 0) 3)) := by
  have hcall := read_outcome.2 sampleReader
  have hmovable : ∀ a, a + 2 ≤ addressLimit → (sampleReader.memory.rangeOk a 2 .write = true ↔
      ∀ i < 2, sampleReader.self.table.Movable .write (a + i)) := fun a h => rangeOk_iff_movable h
  obtain ⟨hinside, -⟩ := (hcall ⟨6, 2, 8, 5, 0⟩ proper_sampleReader).passed ⟨8, by decide⟩ 2
    ⟨.file "log" (some 0) 1, {}⟩ (by decide) (by decide) (by decide) "log" 0 1 rfl rfl
  obtain ⟨-, houtside⟩ := (hcall ⟨6, 2, 4095, 5, 0⟩ proper_sampleReader).passed ⟨4095, by decide⟩ 2
    ⟨.file "log" (some 0) 1, {}⟩ (by decide) (by decide) (by decide) "log" 0 1 rfl rfl
  refine ⟨hinside ((hmovable 8 (by decide)).1 (by decide)), ?_⟩
  obtain ⟨chunk, m, hbreaks, hstores, hserve⟩ :=
    houtside ((hmovable 4095 (by decide)).not.1 (by decide))
  obtain rfl : chunk = 0 := by
    have hfirst : pageSize * chunk < 2 := hbreaks.inside
    simp only [pageSize] at hfirst
    omega
  exact ⟨m, hstores, hserve⟩

end Turn

end PagedKernel

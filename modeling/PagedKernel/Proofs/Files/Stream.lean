import PagedKernel.Address
import PagedKernel.Proofs.Files.Footprint

/-!
# Open files as streams

What is read from an open file is the start of what is left of it, and what is written lands where
the file stands. So transfers that follow one another are one transfer of all their data. A limited
file moves the start of that data.
-/

namespace PagedKernel

section

variable {bs : Bytes} {position : Nat}

theorem Bytes.overwrite_of_le (h : position ≤ bs.length) (data : Bytes) :
    bs.overwrite position data =
      bs.take position ++ data ++ bs.drop (position + data.length) := by
  rw [overwrite, Nat.sub_eq_zero_of_le h, List.replicate_zero, List.append_nil]

private theorem Bytes.overwrite_overwrite (bs : Bytes) (position : Nat) (data more : Bytes) :
    (bs.overwrite position data).overwrite (position + data.length) more =
      bs.overwrite position (data ++ more) := by
  obtain ⟨head, hhead, hwhole⟩ : ∃ head : Bytes, head.length = position ∧
      ∀ data, bs.overwrite position data = head ++ data ++ bs.drop (position + data.length) := by
    refine ⟨bs.take position ++ List.replicate (position - bs.length) 0, ?_, fun _ => rfl⟩
    simp only [List.length_append, List.length_take, List.length_replicate]
    omega
  have hfront : (head ++ data).length = position + data.length := by
    rw [List.length_append, hhead]
  rw [overwrite_of_le (by rw [length_overwrite]; omega), hwhole, hwhole, ← hfront,
    List.take_left, ← List.drop_drop, List.drop_left, List.drop_drop, hfront, Nat.add_assoc,
    List.length_append, List.append_assoc head data more]

private theorem FileSystem.overwrite_setBytes (fs : FileSystem) (id : FileId) (position : Nat)
    (data more : Bytes) :
    let first := fs.setBytes id ((fs.bytes id).overwrite position data)
    first.setBytes id ((first.bytes id).overwrite (position + data.length) more) =
      fs.setBytes id ((fs.bytes id).overwrite position (data ++ more)) := by
  by_cases hid : id < fs.files.length
  · simp only [bytes_setBytes, hid, and_self, if_true, Bytes.overwrite_overwrite]
    simp only [setBytes, List.set_set]
  · have hnone : ∀ data, fs.setBytes id data = fs := by
      intro data
      simp only [setBytes, List.set_eq_of_length_le (Nat.not_lt.1 hid)]
    simp only [hnone]

end

namespace Source

def rest (d : Devices) : Source → Bytes
  | file _ (some id) position => (d.files.bytes id).drop position
  | input true => d.console.input
  | file _ none _ | input false | output _ => []

def readable : Source → Bool
  | file _ id _ => id.isSome
  | input isOpen => isOpen
  | output _ => false

def writable : Source → Bool
  | file _ id _ => id.isSome
  | input _ => false
  | output isOpen => isOpen

/-- A file that was made, and a place in it or at its end. -/
def Placed (files : FileSystem) : Source → Prop
  | file _ (some id) position => id < files.files.length ∧ position ≤ (files.bytes id).length
  | file _ none _ | input _ | output _ => True

end Source

def Limits.spend (l : Limits) (calls : Nat) : Limits := { l with calls := l.calls.map (· - calls) }

namespace Channel

variable {c : Channel}

def rest (c : Channel) : Bytes := c.file.source.rest c.devices

def pulled (c : Channel) (count : Nat) : Channel :=
  match c.file.source with
  | .file name (some id) position =>
    { c with file.source := .file name (some id) (position + count) }
  | .input true => { c with devices.console.input := c.devices.console.input.drop count }
  | _ => c

def pushed (c : Channel) (data : Bytes) : Channel :=
  match c.file.source with
  | .file name (some id) position =>
    { c with
      file.source := .file name (some id) (position + data.length)
      devices.files := c.devices.files.setBytes id
        ((c.devices.files.bytes id).overwrite position data) }
  | .output true => { c with devices.console := c.devices.console.print data }
  | _ => c

def spent (c : Channel) (calls : Nat) : Channel :=
  { c with file.limits := c.file.limits.spend calls }

def Placed (c : Channel) : Prop := c.file.source.Placed c.devices.files

theorem rest_pulled (c : Channel) (count : Nat) : (c.pulled count).rest = c.rest.drop count := by
  obtain ⟨⟨source, limits⟩, d⟩ := c
  rcases source with ⟨name, _ | id, position⟩ | ⟨_ | _⟩ | isOpen <;> simp [pulled, rest, Source.rest]

theorem pulled_zero (c : Channel) : c.pulled 0 = c := by
  obtain ⟨⟨source, limits⟩, d⟩ := c
  rcases source with ⟨name, _ | id, position⟩ | ⟨_ | _⟩ | isOpen <;> simp [pulled]

theorem pulled_pulled (c : Channel) (count more : Nat) :
    (c.pulled count).pulled more = c.pulled (count + more) := by
  obtain ⟨⟨source, limits⟩, d⟩ := c
  rcases source with ⟨name, _ | id, position⟩ | ⟨_ | _⟩ | isOpen <;> simp [pulled, Nat.add_assoc]

@[simp] theorem readable_pulled (c : Channel) (count : Nat) :
    (c.pulled count).file.source.readable = c.file.source.readable := by
  obtain ⟨⟨source, limits⟩, d⟩ := c
  rcases source with ⟨name, _ | id, position⟩ | ⟨_ | _⟩ | isOpen <;> rfl

@[simp] theorem limits_pulled (c : Channel) (count : Nat) :
    (c.pulled count).file.limits = c.file.limits := by
  obtain ⟨⟨source, limits⟩, d⟩ := c
  rcases source with ⟨name, _ | id, position⟩ | ⟨_ | _⟩ | isOpen <;> rfl

theorem Placed.pulled (h : c.Placed) {count : Nat} (hcount : count ≤ c.rest.length) :
    (c.pulled count).Placed := by
  obtain ⟨⟨source, limits⟩, d⟩ := c
  rcases source with ⟨name, _ | id, position⟩ | ⟨_ | _⟩ | isOpen
  · trivial
  · obtain ⟨hid, hposition⟩ := h
    simp only [rest, Source.rest, List.length_drop] at hcount
    exact ⟨hid, Nat.add_le_of_le_sub' hposition hcount⟩
  · trivial
  · trivial
  · trivial

theorem pushed_pushed (c : Channel) (data more : Bytes) :
    (c.pushed data).pushed more = c.pushed (data ++ more) := by
  obtain ⟨⟨source, limits⟩, d⟩ := c
  rcases source with ⟨name, _ | id, position⟩ | isOpen | ⟨_ | _⟩
  · rfl
  · have hfiles := d.files.overwrite_setBytes id position data more
    simp only [pushed, hfiles, List.length_append, Nat.add_assoc]
  · rfl
  · rfl
  · simp [pushed, Console.print]

@[simp] theorem writable_pushed (c : Channel) (data : Bytes) :
    (c.pushed data).file.source.writable = c.file.source.writable := by
  obtain ⟨⟨source, limits⟩, d⟩ := c
  rcases source with ⟨name, _ | id, position⟩ | isOpen | ⟨_ | _⟩ <;> rfl

@[simp] theorem limits_pushed (c : Channel) (data : Bytes) :
    (c.pushed data).file.limits = c.file.limits := by
  obtain ⟨⟨source, limits⟩, d⟩ := c
  rcases source with ⟨name, _ | id, position⟩ | isOpen | ⟨_ | _⟩ <;> rfl

theorem pushed_nil (h : c.Placed) : c.pushed [] = c := by
  obtain ⟨⟨source, limits⟩, d⟩ := c
  rcases source with ⟨name, _ | id, position⟩ | isOpen | ⟨_ | _⟩
  · rfl
  · obtain ⟨hid, hposition⟩ := h
    have hsame : d.files.setBytes id (d.files.bytes id) = d.files := by
      simp [FileSystem.setBytes, FileSystem.bytes, List.getElem?_eq_getElem hid]
    simp [pushed, Bytes.overwrite_of_le hposition, hsame]
  · rfl
  · rfl
  · simp [pushed, Console.print]

theorem Placed.pushed (h : c.Placed) (data : Bytes) : (c.pushed data).Placed := by
  obtain ⟨⟨source, limits⟩, d⟩ := c
  rcases source with ⟨name, _ | id, position⟩ | isOpen | ⟨_ | _⟩
  · trivial
  · obtain ⟨hid, hposition⟩ := h
    simp only [Placed, Source.Placed, pushed, FileSystem.length_setBytes,
      FileSystem.bytes_setBytes, hid, Bytes.length_overwrite, true_and, if_true]
    exact Nat.le_max_right ..
  · trivial
  · trivial
  · trivial

theorem pushed_spent (c : Channel) (data : Bytes) (calls : Nat) :
    (c.pushed data).spent calls = (c.spent calls).pushed data := by
  obtain ⟨⟨source, limits⟩, d⟩ := c
  rcases source with ⟨name, _ | id, position⟩ | isOpen | ⟨_ | _⟩ <;> rfl

theorem spent_zero (c : Channel) : c.spent 0 = c := by
  obtain ⟨⟨source, _, _, _ | calls⟩, d⟩ := c <;> rfl

theorem spent_spent (c : Channel) (calls more : Nat) :
    (c.spent calls).spent more = c.spent (calls + more) := by
  obtain ⟨⟨source, _, _, _ | most⟩, d⟩ := c
  · rfl
  · simp [spent, Limits.spend, Nat.sub_sub]

theorem spent_of_none (h : c.file.limits.calls = none) (calls : Nat) : c.spent calls = c := by
  obtain ⟨⟨source, _, _, most⟩, d⟩ := c
  cases h
  rfl

private theorem useCall_eq (c : Channel) :
    useCall c = if c.file.limits.calls = some 0 then .error .ioError c else .ok () (c.spent 1) := by
  obtain ⟨⟨source, _, _, _ | _ | calls⟩, d⟩ := c <;> rfl

private theorem useCall_of_none (hcalls : c.file.limits.calls = none) : useCall c = .ok () c := by
  simp [useCall_eq, hcalls, spent_of_none hcalls]

theorem read_eq (hcalls : c.file.limits.calls = none) (hreadable : c.file.source.readable = true)
    (length : Nat) :
    let count := min (OpenFile.within length c.file.limits.maxRead) c.rest.length
    read length c = .ok (c.rest.take count) (c.pulled count) := by
  apply Ensures.eq_ok
  rw [read, ensures_bind, ensures_of_ok (useCall_of_none hcalls), ensures_bind, ensures_get]
  obtain ⟨⟨source, limits⟩, d⟩ := c
  rcases source with ⟨name, _ | id, position⟩ | ⟨_ | _⟩ | isOpen
  · cases hreadable
  · refine ⟨List.take_eq_take_min, ?_⟩
    simp [pulled, rest, Source.rest, Bytes.length_slice]
  · cases hreadable
  · refine ⟨List.take_eq_take_min, ?_⟩
    simp [pulled, rest, Source.rest, ← List.drop_eq_drop_min]
  · cases hreadable

theorem read_eq_of_not_readable (hcalls : c.file.limits.calls = none)
    (hreadable : c.file.source.readable = false) (length : Nat) :
    read length c = .error .badFileDescriptor c := by
  apply Ensures.eq
  rw [read, ensures_bind, ensures_of_ok (useCall_of_none hcalls), ensures_bind, ensures_get]
  obtain ⟨⟨source, limits⟩, d⟩ := c
  rcases source with ⟨name, _ | id, position⟩ | ⟨_ | _⟩ | isOpen
  · rfl
  · cases hreadable
  · rfl
  · cases hreadable
  · rfl

theorem write_eq (hcalls : c.file.limits.calls ≠ some 0) (hwritable : c.file.source.writable = true)
    (data : Bytes) :
    let sent := data.take (OpenFile.within data.length c.file.limits.maxWrite)
    write data c = .ok sent.length ((c.spent 1).pushed sent) := by
  apply Ensures.eq_ok
  have huse : useCall c = .ok () (c.spent 1) := by
    simp [useCall_eq, hcalls]
  rw [write, ensures_bind, ensures_of_ok huse, ensures_bind, ensures_get]
  obtain ⟨⟨source, limits⟩, d⟩ := c
  rcases source with ⟨name, _ | id, position⟩ | isOpen | ⟨_ | _⟩
  · cases hwritable
  · exact ⟨rfl, rfl⟩
  · cases hwritable
  · cases hwritable
  · exact ⟨rfl, rfl⟩

theorem write_eq_of_spent (hcalls : c.file.limits.calls = some 0) (data : Bytes) :
    write data c = .error .ioError c := by
  have huse : useCall c = .error .ioError c := by
    simp [useCall_eq, hcalls]
  exact bind_of_error huse

theorem write_eq_of_not_writable (hcalls : c.file.limits.calls = none)
    (hwritable : c.file.source.writable = false) (data : Bytes) :
    write data c = .error .badFileDescriptor c := by
  apply Ensures.eq
  rw [write, ensures_bind, ensures_of_ok (useCall_of_none hcalls), ensures_bind, ensures_get]
  obtain ⟨⟨source, limits⟩, d⟩ := c
  rcases source with ⟨name, _ | id, position⟩ | isOpen | ⟨_ | _⟩
  · rfl
  · cases hwritable
  · rfl
  · rfl
  · cases hwritable

end Channel

/-- How many of `size` bytes an open file gives: all that there are, unless it gives less than a
first chunk at once. -/
def Limits.reads (l : Limits) (size : Nat) : Nat :=
  match l.maxRead with
  | some most => if most < min size pageSize then most else size
  | none => size

/-- How many of `size` bytes get to an open file before it has been called too often. -/
def Limits.served (l : Limits) (size : Nat) : Nat :=
  match l.calls with
  | some calls => min size (calls * pageSize)
  | none => size

/-- How many of `size` bytes an open file takes: all that get to it, unless it takes less than a
first chunk at once. -/
def Limits.writes (l : Limits) (size : Nat) : Nat :=
  match l.maxWrite with
  | some most => if most < min size pageSize then min most (l.served size) else l.served size
  | none => l.served size

namespace Limits

variable {l : Limits} {size : Nat}

theorem within_maxRead (l : Limits) (size : Nat) :
    OpenFile.within (min size pageSize) l.maxRead = min (min size pageSize) (l.reads size) := by
  unfold reads
  cases l.maxRead with
  | none => simp [OpenFile.within]
  | some most =>
    simp only [OpenFile.within]
    split <;> omega

theorem reads_le (l : Limits) (size : Nat) : l.reads size ≤ size := by
  unfold reads
  split
  · split <;> omega
  · exact Nat.le_refl _

/-- An open file that gives a whole first chunk gives all the others. -/
theorem reads_of_le (h : min size pageSize ≤ l.reads size) :
    l.reads size = size ∧ l.reads (size - min size pageSize) = size - min size pageSize := by
  obtain ⟨_ | most, maxWrite, calls⟩ := l
  · exact ⟨rfl, rfl⟩
  · simp only [reads] at h ⊢
    split at h
    · omega
    · next hmost =>
      rw [if_neg hmost, if_neg (by omega)]
      exact ⟨rfl, rfl⟩

private theorem served_le (l : Limits) (size : Nat) : l.served size ≤ size := by
  unfold served
  split
  · exact Nat.min_le_left ..
  · exact Nat.le_refl _

theorem writes_le (l : Limits) (size : Nat) : l.writes size ≤ size := by
  have hserved := l.served_le size
  unfold writes
  split
  · split <;> omega
  · exact hserved

theorem writes_of_spent (h : l.calls = some 0) (size : Nat) : l.writes size = 0 := by
  obtain ⟨maxRead, _ | most, calls⟩ := l <;> cases h <;> simp [writes, served]

private theorem served_first (hcalls : l.calls ≠ some 0) (size : Nat) :
    l.served size =
      min size pageSize + (l.spend 1).served (size - min size pageSize) := by
  obtain ⟨maxRead, maxWrite, _ | _ | calls⟩ := l
  · simp only [served, spend, Option.map_none]
    omega
  · exact absurd rfl hcalls
  · simp only [served, spend, Option.map_some, Nat.add_one_mul, Nat.add_sub_cancel]
    omega

/-- An open file that takes less than a first chunk takes no more. -/
theorem writes_of_lt (hcalls : l.calls ≠ some 0)
    (h : OpenFile.within (min size pageSize) l.maxWrite < min size pageSize) :
    l.writes size = OpenFile.within (min size pageSize) l.maxWrite := by
  have hfirst := served_first hcalls size
  unfold writes
  cases hmost : l.maxWrite with
  | none => simp [OpenFile.within, hmost] at h
  | some most =>
    rw [hmost] at h
    simp only [OpenFile.within] at h ⊢
    rw [if_pos (by omega)]
    omega

theorem writes_of_le (hcalls : l.calls ≠ some 0)
    (h : min size pageSize ≤ OpenFile.within (min size pageSize) l.maxWrite) :
    l.writes size = min size pageSize + (l.spend 1).writes (size - min size pageSize) := by
  have hfirst := served_first hcalls size
  have hmax : (l.spend 1).maxWrite = l.maxWrite := rfl
  unfold writes
  rw [hmax]
  cases hmost : l.maxWrite with
  | none => exact hfirst
  | some most =>
    rw [hmost] at h
    simp only [OpenFile.within] at h ⊢
    rw [if_neg (by omega), if_neg (by omega), hfirst]

end Limits

namespace DescriptorTable

variable {t : DescriptorTable} {i : Nat} {file : OpenFile}

theorem slot?_setFile (hi : i < t.capacity) (file : OpenFile) :
    (t.setFile i file).slot? i = some file := by
  rw [setFile, slot?_set _ _ hi, if_pos rfl]

theorem setFile_setFile (t : DescriptorTable) (i : Nat) (file file' : OpenFile) :
    (t.setFile i file).setFile i file' = t.setFile i file' := by
  simp [setFile]

theorem setFile_self (h : t.slot? i = some file) : t.setFile i file = t := by
  have hi : i < t.slots.length := lt_of_slot? h
  rw [slot?_eq_getElem hi] at h
  rw [setFile, ← h, List.set_getElem_self]

end DescriptorTable

theorem Desk.ensures_onFile_iff {α : Type} {s : Desk} {i : Nat} {file : OpenFile}
    {x : EStateM Errno Channel α} {ok : α → Desk → Prop} {stop : Stop Errno → Desk → Prop}
    (hfile : s.descriptors.slot? i = some file) :
    Ensures (onFile i x) s ok stop ↔
      Ensures x ⟨file, s.devices⟩ (fun a c => ok a ⟨s.descriptors.setFile i c.file, c.devices⟩)
        (fun e c => stop (.refused e) ⟨s.descriptors.setFile i c.file, c.devices⟩) := by
  rw [onFile, ensures_bind, ensures_get]
  simp only [hfile]
  rcases hx : x ⟨file, s.devices⟩ with ⟨a, c⟩ | ⟨e, c⟩
  · rw [ensures_of_ok hx]
    exact Iff.rfl
  · rw [ensures_of_error hx]
    exact Iff.rfl

end PagedKernel

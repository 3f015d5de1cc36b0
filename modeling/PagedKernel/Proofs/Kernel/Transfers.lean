import PagedKernel.Proofs.Files.Stream
import PagedKernel.Proofs.Kernel.Lifecycle
import PagedKernel.Proofs.Memory.Flat

/-!
# Transfers between files and memory

A call moves data in chunks of a page. Chunk by chunk it does what one transfer of all the data
would do, up to the chunk that cannot be moved.
-/

namespace PagedKernel

/-- The first chunk of a transfer of `n` bytes to an address that does not lie in bytes that can be
moved. -/
structure PageTable.Breaks (t : PageTable) (access : Access) (a n chunk : Nat) : Prop where
  before : ∀ i < pageSize * chunk, t.Movable access (a + i)
  inside : pageSize * chunk < n
  byte : ∃ i, pageSize * chunk ≤ i ∧ i < min (pageSize * (chunk + 1)) n ∧ ¬ t.Movable access (a + i)

namespace PageTable

variable {t t' : PageTable} {access : Access} {a n chunk : Nat}

theorem movable_congr (h : t'.mapping = t.mapping) : t'.Movable access a ↔ t.Movable access a := by
  rw [movable_iff, movable_iff, permits_congr h]

theorem Breaks.congr (h : t'.mapping = t.mapping) (hbreaks : t'.Breaks access a n chunk) :
    t.Breaks access a n chunk := by
  obtain ⟨hbefore, hinside, hbyte⟩ := hbreaks
  simp only [movable_congr h] at hbefore hbyte
  exact ⟨hbefore, hinside, hbyte⟩

private theorem Breaks.succ (h : t.Breaks access (a + pageSize) n chunk)
    (hfirst : ∀ i < pageSize, t.Movable access (a + i)) :
    t.Breaks access a (n + pageSize) (chunk + 1) := by
  have hinside := h.inside
  obtain ⟨i, hl, hu, hi⟩ := h.byte
  rw [Nat.add_assoc] at hi
  have hchunk := Nat.mul_add_one pageSize chunk
  have hnext := Nat.mul_add_one pageSize (chunk + 1)
  refine ⟨fun i hi => ?_, by omega, pageSize + i, by omega, by omega, hi⟩
  rcases Nat.lt_or_ge i pageSize with hlt | hge
  · exact hfirst i hlt
  · have hmovable := h.before (i - pageSize) (by omega)
    rwa [Nat.add_assoc, Nat.add_sub_cancel' hge] at hmovable

private theorem breaks_zero {i : Nat} (hi : i < min pageSize n) (hbyte : ¬ t.Movable access (a + i)) :
    t.Breaks access a n 0 :=
  ⟨nofun, by omega, i, by omega, by omega, hbyte⟩

theorem Breaks.not_movable (h : t.Breaks access a n chunk) :
    ¬ ∀ i < n, t.Movable access (a + i) := by
  obtain ⟨i, -, hi, hbyte⟩ := h.byte
  exact fun hall => hbyte (hall i (by omega))

end PageTable

theorem UserMemory.rangeOk_iff_movable {m : UserMemory} {access : Access} {a length : Nat}
    (h : a + length ≤ addressLimit) :
    m.rangeOk a length access = true ↔ ∀ i < length, m.table.Movable access (a + i) := by
  simp only [rangeOk_iff, h, true_and, PageTable.movable_iff]

namespace UserMemory

private theorem bytesAt_afterRead (m : UserMemory) (a n b k : Nat) :
    (m.afterRead a n).bytesAt b k = m.bytesAt b k :=
  bytesAt_congr fun _ _ => byte?_afterRead ..

private theorem afterRead_zero (m : UserMemory) (a : Nat) : m.afterRead a 0 = m := by
  rw [afterRead, PageTable.touched_zero]

private theorem afterRead_afterRead (m : UserMemory) (a n k : Nat) :
    (m.afterRead a n).afterRead (a + n) k = m.afterRead a (n + k) := by
  rw [afterRead, afterRead, PageTable.touched_touched, afterRead]

theorem take_bytesAt (m : UserMemory) (a : Nat) {n k : Nat} (h : k ≤ n) :
    (m.bytesAt a n).take k = m.bytesAt a k := by
  obtain ⟨rest, rfl⟩ := Nat.exists_eq_add_of_le h
  rw [bytesAt_add, List.take_left' (length_bytesAt ..)]

end UserMemory

namespace Turn

open UserMemory

variable {α : Type} {t : Turn} {slot : Nat} {m : UserMemory} {c : Channel}

def plug (t : Turn) (slot : Nat) (m : UserMemory) (c : Channel) : Turn :=
  t.put m ⟨t.self.descriptors.setFile slot c.file, c.devices⟩

theorem plug_self {file : OpenFile} (h : t.self.descriptors.slot? slot = some file) :
    t.plug slot t.memory ⟨file, t.kernel.machine.devices⟩ = t := by
  simp only [plug, put, DescriptorTable.setFile_self h, memory]

private theorem ensures_onMemory_plug {x : EStateM (Stop Errno) UserMemory α} {ok : α → Turn → Prop}
    {stop : Stop Errno → Turn → Prop} :
    Ensures (onMemory x) (t.plug slot m c) ok stop ↔
      Ensures x m (fun a m' => ok a (t.plug slot m' c)) (fun e m' => stop e (t.plug slot m' c)) :=
  ensures_zoom

private theorem ensures_onFile_plug {x : EStateM Errno Channel α} {ok : α → Turn → Prop}
    {stop : Stop Errno → Turn → Prop} (hslot : slot < t.self.descriptors.capacity) :
    Ensures (onDesk (Desk.onFile slot x)) (t.plug slot m c) ok stop ↔
      Ensures x c (fun a c' => ok a (t.plug slot m c'))
        (fun e c' => stop (.refused e) (t.plug slot m c')) := by
  have hfile := DescriptorTable.slot?_setFile hslot c.file
  let desk : Desk := ⟨t.self.descriptors.setFile slot c.file, c.devices⟩
  refine ensures_zoom.trans ((Desk.ensures_onFile_iff (s := desk) hfile).trans ?_)
  simp only [desk, DescriptorTable.setFile_setFile]
  rfl

/-- A read has moved `n` bytes from a channel to an address. -/
structure Fills (t : Turn) (slot : Nat) (m : UserMemory) (c : Channel) (address n : Nat)
    (t' : Turn) : Prop where
  movable : ∀ i < n, m.table.Movable .write (address + i)
  stored : ∃ m', Wrote m m' address (c.rest.take n) ∧ t' = t.plug slot m' (c.pulled n)

/-- A read of `n` bytes has moved the chunks before the first one that cannot be stored. That one was
taken from the channel too. -/
def Spills (t : Turn) (slot : Nat) (m : UserMemory) (c : Channel) (address n : Nat) (t' : Turn) :
    Prop :=
  ∃ chunk m', m.table.Breaks .write address n chunk ∧
    Wrote m m' address (c.rest.take (pageSize * chunk)) ∧
    t' = t.plug slot m' (c.pulled (min (pageSize * (chunk + 1)) n))

section

variable {m₁ : UserMemory} {address k n : Nat} {t' : Turn}

private theorem fills_zero : Fills t slot m c address 0 (t.plug slot m c) :=
  ⟨nofun, m, Wrote.refl m address, by rw [Channel.pulled_zero]⟩

private theorem Wrote.append_rest (hk : k ≤ c.rest.length) (h : Wrote m m₁ address (c.rest.take k))
    {m' : UserMemory} (h' : Wrote m₁ m' (address + k) ((c.pulled k).rest.take n)) :
    Wrote m m' address (c.rest.take (k + n)) := by
  rw [List.take_add, ← Channel.rest_pulled]
  apply h.trans
  rwa [List.length_take, Nat.min_eq_left hk]

private theorem Fills.append (hk : k ≤ c.rest.length) (hwrote : Wrote m m₁ address (c.rest.take k))
    (hmovable : ∀ i < k, m.table.Movable .write (address + i))
    (h : Fills t slot m₁ (c.pulled k) (address + k) n t') : Fills t slot m c address (k + n) t' := by
  obtain ⟨hrest, m', hwrote', rfl⟩ := h
  refine ⟨fun i hi => ?_, m', Wrote.append_rest hk hwrote hwrote', by rw [Channel.pulled_pulled]⟩
  rcases Nat.lt_or_ge i k with hlt | hge
  · exact hmovable i hlt
  · have hlater := (PageTable.movable_congr hwrote.mapping).1 (hrest (i - k) (by omega))
    rwa [Nat.add_assoc, Nat.add_sub_cancel' hge] at hlater

private theorem Spills.pos (h : Spills t slot m c address n t') : 0 < n := by
  obtain ⟨chunk, m', hbreaks, -⟩ := h
  exact Nat.zero_lt_of_lt hbreaks.inside

private theorem Spills.append (hk : pageSize ≤ c.rest.length)
    (hwrote : Wrote m m₁ address (c.rest.take pageSize))
    (hmovable : ∀ i < pageSize, m.table.Movable .write (address + i))
    (h : Spills t slot m₁ (c.pulled pageSize) (address + pageSize) n t') :
    Spills t slot m c address (pageSize + n) t' := by
  obtain ⟨chunk, m', hbreaks, hwrote', rfl⟩ := h
  have hchunk : pageSize + pageSize * chunk = pageSize * (chunk + 1) := by
    rw [Nat.mul_add_one, Nat.add_comm]
  have htaken : pageSize + min (pageSize * (chunk + 1)) n =
      min (pageSize * (chunk + 1 + 1)) (pageSize + n) := by
    rw [Nat.mul_add_one pageSize (chunk + 1)]
    omega
  refine ⟨chunk + 1, m', ?_, ?_, ?_⟩
  · rw [Nat.add_comm]
    exact (hbreaks.congr hwrote.mapping).succ hmovable
  · rw [← hchunk]
    exact Wrote.append_rest hk hwrote hwrote'
  · rw [Channel.pulled_pulled, htaken]

end

private theorem chunkCount_of_ne_zero {size : Nat} (h : size ≠ 0) :
    chunkCount size = 1 + chunkCount (size - min size pageSize) := by
  simp only [chunkCount, pageSize]
  omega

/-- One chunk is read, and what comes of it is stored. The loop goes on if the chunk was full. -/
theorem ensures_readChunks_succ {address chunks size k : Nat} {ok : Nat → Turn → Prop}
    {stop : Stop Errno → Turn → Prop} (hslot : slot < t.self.descriptors.capacity)
    (hframed : m.Framed) (hreadable : c.file.source.readable = true)
    (hcalls : c.file.limits.calls = none) (hsize : size ≠ 0) (hlimit : address + size ≤ addressLimit)
    (hk : min (min size pageSize) (min (c.file.limits.reads size) c.rest.length) = k)
    (hbad : ∀ i < k, ¬ m.table.Movable .write (address + i) →
      stop (.refused .badAddress) (t.plug slot m (c.pulled k)))
    (hstored : (∀ i < k, m.table.Movable .write (address + i)) → ∀ m₁,
      Wrote m m₁ address (c.rest.take k) →
        (k < min size pageSize → ok k (t.plug slot m₁ (c.pulled k))) ∧
        (k = min size pageSize → Ensures (readChunks slot (address + k) chunks (size - k))
          (t.plug slot m₁ (c.pulled k)) (fun more t' => ok (k + more) t') stop)) :
    Ensures (readChunks slot address (chunks + 1) size) (t.plug slot m c) ok stop := by
  have hread := c.read_eq hcalls hreadable (min size pageSize)
  rw [Limits.within_maxRead, Nat.min_assoc, hk] at hread
  have hlength : (c.rest.take k).length = k := by
    rw [List.length_take]
    omega
  have hput := ensures_putBytes (a := address) hframed (c.rest.take k)
  rw [hlength, rangeOk_iff_movable (by omega)] at hput
  rw [readChunks, if_neg hsize]
  dsimp only
  rw [ensures_bind, ensures_onFile_plug hslot, ensures_of_ok hread, ensures_bind,
    ensures_onMemory_plug]
  apply hput.mono
  · rintro _ m₁ ⟨hmovable, -, hwrote⟩
    obtain ⟨hshort, hwhole⟩ := hstored hmovable m₁ hwrote
    rw [hlength]
    split
    · next hlt => exact hshort hlt
    · next hge => exact ensures_bind.2 (hwhole (by omega))
  · rintro stop m₁ ⟨hunmovable, rfl, rfl⟩
    simp only [not_forall] at hunmovable
    obtain ⟨i, hi, hbyte⟩ := hunmovable
    exact hbad i hi hbyte

private theorem reads_behind {l : Limits} {rest : Bytes} {size : Nat}
    (hfull : min (min size pageSize) (min (l.reads size) rest.length) = min size pageSize) :
    min (l.reads size) rest.length = min size pageSize +
      min (l.reads (size - min size pageSize)) (rest.drop (min size pageSize)).length := by
  obtain ⟨hall, hrest⟩ : l.reads size = size ∧ _ := Limits.reads_of_le (by omega)
  rw [hrest, hall, List.length_drop]
  omega

/-- Chunk by chunk a file is read up to the end of the transfer, of what is left of the file, or of
the bytes that can be written. -/
theorem ensures_readChunks {address chunks size : Nat} (hslot : slot < t.self.descriptors.capacity)
    (hframed : m.Framed) (hreadable : c.file.source.readable = true)
    (hcalls : c.file.limits.calls = none) (hchunks : chunkCount size ≤ chunks)
    (hlimit : address + size ≤ addressLimit) :
    let n := min (c.file.limits.reads size) c.rest.length
    Ensures (readChunks slot address chunks size) (t.plug slot m c)
      (fun count t' => count = n ∧ Fills t slot m c address n t')
      (fun stop t' => stop = .refused .badAddress ∧ Spills t slot m c address n t') := by
  have hreads := c.file.limits.reads_le size
  induction chunks generalizing address size m c with
  | zero =>
    have hnone : c.file.limits.reads size = 0 := by
      simp only [chunkCount, pageSize] at hchunks
      omega
    simp only [hnone, Nat.zero_min]
    exact ⟨rfl, fills_zero⟩
  | succ chunks ih =>
    by_cases hsize : size = 0
    · rw [readChunks, if_pos hsize]
      simp only [show c.file.limits.reads size = 0 by omega, Nat.zero_min]
      exact ⟨rfl, fills_zero⟩
    · obtain ⟨k, hk⟩ : ∃ k,
        min (min size pageSize) (min (c.file.limits.reads size) c.rest.length) = k := ⟨_, rfl⟩
      apply ensures_readChunks_succ hslot hframed hreadable hcalls hsize hlimit hk
      · intro i hi hbyte
        have hfirst : k = min pageSize (min (c.file.limits.reads size) c.rest.length) := by omega
        refine ⟨rfl, 0, m, PageTable.breaks_zero (hfirst ▸ hi) hbyte, Wrote.refl m address, ?_⟩
        rw [hfirst, Nat.zero_add, Nat.mul_one]
      · intro hmovable m₁ hwrote
        constructor
        · intro hshort
          rw [show min (c.file.limits.reads size) c.rest.length = k by omega]
          exact ⟨rfl, hmovable, m₁, hwrote, rfl⟩
        · rintro rfl
          have hcount := chunkCount_of_ne_zero hsize
          have hlater := c.file.limits.reads_le (size - min size pageSize)
          rw [reads_behind hk]
          apply (ih (hwrote.framed hframed) ((Channel.readable_pulled ..).trans hreadable)
            ((congrArg Limits.calls (Channel.limits_pulled ..)).trans hcalls) (by omega)
            (by omega) (Limits.reads_le _ _)).mono
          · rintro more t' ⟨rfl, hfills⟩
            rw [Channel.limits_pulled, Channel.rest_pulled] at hfills ⊢
            exact ⟨rfl, hfills.append (by omega) hwrote hmovable⟩
          · rintro stop t' ⟨rfl, hspills⟩
            rw [Channel.limits_pulled, Channel.rest_pulled] at hspills
            -- A chunk that another one follows is a whole page.
            have hpage : min size pageSize = pageSize := by
              have hpos := hspills.pos
              omega
            rw [hpage] at hspills hwrote hmovable hk ⊢
            exact ⟨rfl, hspills.append (by omega) hwrote hmovable⟩

def Drains (t : Turn) (slot : Nat) (m : UserMemory) (c : Channel) (address size : Nat) (t' : Turn) :
    Prop :=
  t' = t.plug slot (m.afterRead address size)
    ((c.spent (chunkCount size)).pushed (m.bytesAt address size))

/-- A write has moved `n` bytes from an address to a channel, and may have looked at more. -/
def StopsShort (t : Turn) (slot : Nat) (m : UserMemory) (c : Channel) (address n : Nat) (t' : Turn) :
    Prop :=
  ∃ seen calls, t' = t.plug slot (m.afterRead address seen)
    ((c.spent calls).pushed (m.bytesAt address n))

section

variable {address k n : Nat} {t' : Turn}

private theorem drains_zero (h : c.Placed) : Drains t slot m c address 0 (t.plug slot m c) := by
  rw [Drains, afterRead_zero, bytesAt_zero, show chunkCount 0 = 0 from rfl, Channel.spent_zero,
    Channel.pushed_nil h]

private theorem pushed_bytesAt_add (m : UserMemory) (c : Channel) (address k n calls : Nat) :
    ((((c.spent 1).pushed (m.bytesAt address k)).spent calls).pushed
      ((m.afterRead address k).bytesAt (address + k) n)) =
        (c.spent (1 + calls)).pushed (m.bytesAt address (k + n)) := by
  rw [bytesAt_afterRead, bytesAt_add, ← Channel.pushed_pushed, Channel.pushed_spent,
    Channel.spent_spent]

private theorem Drains.append (hcount : chunkCount (k + n) = 1 + chunkCount n)
    (h : Drains t slot (m.afterRead address k) ((c.spent 1).pushed (m.bytesAt address k))
      (address + k) n t') : Drains t slot m c address (k + n) t' := by
  rw [Drains, pushed_bytesAt_add, afterRead_afterRead] at h
  rwa [Drains, hcount]

private theorem StopsShort.append (h : StopsShort t slot (m.afterRead address k)
    ((c.spent 1).pushed (m.bytesAt address k)) (address + k) n t') :
    StopsShort t slot m c address (k + n) t' := by
  obtain ⟨seen, calls, rfl⟩ := h
  exact ⟨k + seen, 1 + calls, by rw [pushed_bytesAt_add, afterRead_afterRead]⟩

end

private theorem ensures_writeChunks_succ {address chunks size : Nat} {ok : Unit → Turn → Prop}
    {stop : Stop Errno → Turn → Prop} (hslot : slot < t.self.descriptors.capacity)
    (hframed : m.Framed) (hwritable : c.file.source.writable = true) (hsize : size ≠ 0)
    (hmovable : ∀ i < size, m.table.Movable .read (address + i))
    (hspent : c.file.limits.calls = some 0 →
      stop (.refused .ioError) (t.plug slot (m.afterRead address (min size pageSize)) c))
    (hpushed : c.file.limits.calls ≠ some 0 →
      let taken := OpenFile.within (min size pageSize) c.file.limits.maxWrite
      let pushed := fun n => t.plug slot (m.afterRead address (min size pageSize))
        ((c.spent 1).pushed (m.bytesAt address n))
      (taken < min size pageSize → stop (.refused .ioError) (pushed taken)) ∧
      (min size pageSize ≤ taken →
        Ensures (writeChunks slot (address + min size pageSize) chunks (size - min size pageSize))
          (pushed (min size pageSize)) ok stop)) :
    Ensures (writeChunks slot address (chunks + 1) size) (t.plug slot m c) ok stop := by
  have hfetch := fetch_eq (ε := Errno) hframed address (min size pageSize)
  have hreach : m.table.reach .read address (min size pageSize) = min size pageSize :=
    PageTable.reach_eq_length_iff.2 fun i hi => PageTable.movable_iff.1 (hmovable i (by omega))
  rw [hreach] at hfetch
  have hdata := length_bytesAt m address (min size pageSize)
  rw [writeChunks, if_neg hsize]
  dsimp only
  -- The buffer can be read, so the loop never finds a part of it missing.
  rw [ensures_bind, ensures_onMemory_plug, ensures_of_ok hfetch, if_neg (by simp), ensures_bind,
    ensures_onFile_plug hslot]
  by_cases hcalls : c.file.limits.calls = some 0
  · rw [ensures_of_error (c.write_eq_of_spent hcalls _)]
    exact hspent hcalls
  · obtain ⟨hshort, hwhole⟩ := hpushed hcalls
    have htaken : OpenFile.within (min size pageSize) c.file.limits.maxWrite ≤ min size pageSize := by
      cases c.file.limits.maxWrite with
      | none => exact Nat.le_refl _
      | some most => exact Nat.min_le_left ..
    have hwrite := c.write_eq hcalls hwritable (m.bytesAt address (min size pageSize))
    rw [hdata, take_bytesAt _ _ htaken] at hwrite
    rw [ensures_of_ok hwrite, length_bytesAt]
    split
    · next hne => exact hshort (by omega)
    · next heq =>
      rw [Decidable.of_not_not heq]
      exact hwhole (by omega)

/-- Chunk by chunk a buffer that can be read is written to a file, up to the end of the transfer or to
the bytes that the file takes. -/
theorem ensures_writeChunks {address chunks size : Nat} (hslot : slot < t.self.descriptors.capacity)
    (hframed : m.Framed) (hwritable : c.file.source.writable = true) (hplaced : c.Placed)
    (hmovable : ∀ i < size, m.table.Movable .read (address + i))
    (hchunks : chunkCount size ≤ chunks) :
    let n := c.file.limits.writes size
    Ensures (writeChunks slot address chunks size) (t.plug slot m c)
      (fun _ t' => n = size ∧ Drains t slot m c address size t')
      (fun stop t' => stop = .refused .ioError ∧ n < size ∧ StopsShort t slot m c address n t') := by
  induction chunks generalizing address size m c with
  | zero =>
    obtain rfl : size = 0 := by
      simp only [chunkCount, pageSize] at hchunks
      omega
    exact ⟨Nat.le_zero.1 (Limits.writes_le _ _), drains_zero hplaced⟩
  | succ chunks ih =>
    by_cases hsize : size = 0
    · subst hsize
      rw [writeChunks, if_pos rfl]
      exact ⟨Nat.le_zero.1 (Limits.writes_le _ _), drains_zero hplaced⟩
    · apply ensures_writeChunks_succ hslot hframed hwritable hsize hmovable
      · intro hcalls
        rw [Limits.writes_of_spent hcalls]
        refine ⟨rfl, Nat.pos_of_ne_zero hsize, min size pageSize, 0, ?_⟩
        rw [Channel.spent_zero, bytesAt_zero, Channel.pushed_nil hplaced]
      · intro hcalls
        constructor
        · intro hshort
          rw [Limits.writes_of_lt hcalls hshort]
          exact ⟨rfl, by omega, min size pageSize, 1, rfl⟩
        · intro hwhole
          have hcount := chunkCount_of_ne_zero hsize
          rw [Limits.writes_of_le hcalls hwhole]
          obtain ⟨k, hk⟩ : ∃ k, k = min size pageSize := ⟨_, rfl⟩
          obtain ⟨n, rfl⟩ : ∃ n, size = k + n := ⟨size - k, by omega⟩
          rw [← hk, Nat.add_sub_cancel_left] at hcount ⊢
          have hlater : ∀ i < n, (m.afterRead address k).table.Movable .read (address + k + i) := by
            intro i hi
            rw [PageTable.movable_congr (mapping_afterRead ..), Nat.add_assoc]
            exact hmovable (k + i) (by omega)
          have hplaced' := Channel.Placed.pushed (c := c.spent 1) hplaced (m.bytesAt address k)
          have hwritable' : ((c.spent 1).pushed (m.bytesAt address k)).file.source.writable = true :=
            (Channel.writable_pushed ..).trans hwritable
          apply (ih (hframed.congr (mapping_afterRead ..) rfl) hwritable' hplaced' hlater
            (by omega)).mono
          · rintro _ t' ⟨hall, hdrains⟩
            rw [Channel.limits_pushed] at hall
            exact ⟨congrArg (k + ·) hall, hdrains.append hcount⟩
          · rintro stop t' ⟨rfl, hlt, hstops⟩
            rw [Channel.limits_pushed] at hlt hstops
            exact ⟨rfl, Nat.add_lt_add_left hlt k, hstops.append⟩

/-- What a read and a write have in common: the pointer, the descriptor and the size are checked, in
this order, before anything is moved. -/
def transfer (q : CallRequest) (move : (slot address size : Nat) → Call Nat) : Call Nat := do
  let va ← onMemory (UserMemory.pointer q.arg2)
  let found ← onDesk (Desk.file q.arg1.toInt)
  let size ← sizeArgument q.arg3
  move found.1 va.toNat size

section

variable {q : CallRequest} {move : (slot address size : Nat) → Call Nat} {va : VirtualAddress}
variable {found : Nat × OpenFile}

theorem readCall_eq_transfer (q : CallRequest) : readCall q =
    transfer q fun slot address size => readChunks slot address (chunkCount size) size := rfl

theorem writeCall_eq_transfer (q : CallRequest) : writeCall q =
    transfer q fun slot address size => do
      onMemory (UserMemory.checkRange address size .read)
      writeChunks slot address (chunkCount size) size
      return size := rfl

private theorem onDesk_file_of_some (hfind : t.self.descriptors.find? q.arg1.toInt = some found) :
    onDesk (Desk.file q.arg1.toInt) t = .ok found t := by
  apply Ensures.eq_ok
  rw [onDesk, ensures_zoom, Desk.file, ensures_bind, ensures_get, hfind]
  exact ⟨rfl, rfl⟩

private theorem onDesk_file_of_none (hfind : t.self.descriptors.find? q.arg1.toInt = none) :
    onDesk (Desk.file q.arg1.toInt) t = .error (.refused .badFileDescriptor) t := by
  apply Ensures.eq
  rw [onDesk, ensures_zoom, Desk.file, ensures_bind, ensures_get, hfind]
  rfl

private theorem onMemory_pointer_of_some (hpointer : t.self.table.pointer? q.arg2 = some va) :
    onMemory (pointer q.arg2) t = .ok va t := by
  rw [onMemory_pointer, hpointer]

private theorem transfer_of_no_pointer (hpointer : t.self.table.pointer? q.arg2 = none) :
    transfer q move t = .error (.refused .badAddress) t := by
  have hfirst := onMemory_pointer t q.arg2
  rw [hpointer] at hfirst
  exact bind_of_error hfirst

private theorem transfer_of_no_file (hpointer : t.self.table.pointer? q.arg2 = some va)
    (hfind : t.self.descriptors.find? q.arg1.toInt = none) :
    transfer q move t = .error (.refused .badFileDescriptor) t := by
  rw [transfer, bind_of_ok (onMemory_pointer_of_some hpointer),
    bind_of_error (onDesk_file_of_none hfind)]

private theorem transfer_of_negative (hpointer : t.self.table.pointer? q.arg2 = some va)
    (hfind : t.self.descriptors.find? q.arg1.toInt = some found) (hsize : q.arg3 < 0) :
    transfer q move t = .error (.refused .invalidArgument) t := by
  rw [transfer, bind_of_ok (onMemory_pointer_of_some hpointer),
    bind_of_ok (onDesk_file_of_some hfind), sizeArgument, if_pos hsize]
  rfl

private theorem transfer_of_checked (hpointer : t.self.table.pointer? q.arg2 = some va)
    (hfind : t.self.descriptors.find? q.arg1.toInt = some found) (hsize : ¬ q.arg3 < 0) :
    transfer q move t = move found.1 va.toNat q.arg3.toInt.toNat t := by
  rw [transfer, bind_of_ok (onMemory_pointer_of_some hpointer),
    bind_of_ok (onDesk_file_of_some hfind), sizeArgument, if_neg hsize]
  rfl

/-- A call checks the pointer, the descriptor and the size, in this order. One that fails a check
changes nothing, and one that passes them all comes to what was agreed. -/
structure Checks (t : Turn) (q : CallRequest) (r : EStateM.Result (Stop Errno) Turn Nat)
    (passed : VirtualAddress → Nat → OpenFile → Prop) : Prop where
  pointer : t.self.table.pointer? q.arg2 = none → r = .error (.refused .badAddress) t
  descriptor : ∀ va, t.self.table.pointer? q.arg2 = some va →
    t.self.descriptors.find? q.arg1.toInt = none → r = .error (.refused .badFileDescriptor) t
  size : ∀ va slot file, t.self.table.pointer? q.arg2 = some va →
    t.self.descriptors.find? q.arg1.toInt = some (slot, file) → q.arg3 < 0 →
    r = .error (.refused .invalidArgument) t
  passed : ∀ va slot file, t.self.table.pointer? q.arg2 = some va →
    t.self.descriptors.find? q.arg1.toInt = some (slot, file) → ¬ q.arg3 < 0 → passed va slot file

section

variable {passed : VirtualAddress → Nat → OpenFile → Prop}
variable (hpassed : ∀ va slot file, t.self.table.pointer? q.arg2 = some va →
  t.self.descriptors.find? q.arg1.toInt = some (slot, file) → ¬ q.arg3 < 0 → passed va slot file)

include hpassed

private theorem checks_transfer : t.Checks q (transfer q move t) passed where
  pointer := transfer_of_no_pointer
  descriptor _ := transfer_of_no_file
  size _ _ _ := transfer_of_negative
  passed := hpassed

theorem checks_readCall : t.Checks q (readCall q t) passed := by
  rw [readCall_eq_transfer]
  exact checks_transfer hpassed

theorem checks_writeCall : t.Checks q (writeCall q t) passed := by
  rw [writeCall_eq_transfer]
  exact checks_transfer hpassed

end

/-- A transfer that does not get past the checks changes nothing. -/
theorem ensures_transfer {ok : Nat → Turn → Prop} {stop : Stop Errno → Turn → Prop}
    (hrefused : ∀ e, stop (.refused e) t)
    (hchecked : ∀ va slot file, t.self.table.pointer? q.arg2 = some va →
      t.self.descriptors.find? q.arg1.toInt = some (slot, file) → ¬ q.arg3 < 0 →
      Ensures (transfer q move) t ok stop) : Ensures (transfer q move) t ok stop := by
  cases hpointer : t.self.table.pointer? q.arg2 with
  | none => exact (ensures_of_error (transfer_of_no_pointer hpointer)).2 (hrefused _)
  | some va =>
    cases hfind : t.self.descriptors.find? q.arg1.toInt with
    | none => exact (ensures_of_error (transfer_of_no_file hpointer hfind)).2 (hrefused _)
    | some found =>
      by_cases hsize : q.arg3 < 0
      · exact (ensures_of_error (transfer_of_negative hpointer hfind hsize)).2 (hrefused _)
      · exact hchecked va found.1 found.2 hpointer hfind hsize

private theorem buffer_le_limit (hpointer : t.self.table.pointer? q.arg2 = some va) :
    va.toNat + q.arg3.toInt.toNat ≤ addressLimit := by
  have hva := toNat_pointer hpointer
  have haddress := q.arg2.toInt_lt
  have hlength := int32_toNat_lt q.arg3
  simp only [addressLimit, wordLimit] at *
  omega

section

variable (hframed : t.memory.Framed) (hpointer : t.self.table.pointer? q.arg2 = some va)
variable {file : OpenFile} (hfind : t.self.descriptors.find? q.arg1.toInt = some (slot, file))
variable (hsize : ¬ q.arg3 < 0)

include hframed hpointer hfind hsize

theorem ensures_readCall (hreadable : file.source.readable = true)
    (hcalls : file.limits.calls = none) :
    let c : Channel := ⟨file, t.kernel.machine.devices⟩
    let n := min (file.limits.reads q.arg3.toInt.toNat) c.rest.length
    Ensures (readCall q) t (fun count t' => count = n ∧ Fills t slot t.memory c va.toNat n t')
      (fun stop t' => stop = .refused .badAddress ∧ Spills t slot t.memory c va.toNat n t') := by
  intro c n
  obtain ⟨-, -, hslot⟩ := DescriptorTable.find?_eq_some_iff.1 hfind
  have hread := ensures_readChunks (t := t) (m := t.memory) (c := c)
    (DescriptorTable.lt_of_slot? hslot) hframed hreadable hcalls (Nat.le_refl _)
    (buffer_le_limit hpointer)
  rw [plug_self hslot] at hread
  rw [readCall_eq_transfer, ensures_congr (transfer_of_checked hpointer hfind hsize)]
  exact hread

theorem ensures_writeCall (hwritable : file.source.writable = true)
    (hplaced : file.source.Placed t.kernel.machine.devices.files) :
    let c : Channel := ⟨file, t.kernel.machine.devices⟩
    let size := q.arg3.toInt.toNat
    let n := file.limits.writes size
    Ensures (writeCall q) t
      (fun count t' => count = size ∧ n = size ∧
        (∀ i < size, t.self.table.Movable .read (va.toNat + i)) ∧
        Drains t slot t.memory c va.toNat size t')
      (fun stop t' =>
        (¬ ∀ i < size, t.self.table.Movable .read (va.toNat + i)) ∧
          stop = .refused .badAddress ∧ t' = t ∨
        (∀ i < size, t.self.table.Movable .read (va.toNat + i)) ∧
          stop = .refused .ioError ∧ n < size ∧ StopsShort t slot t.memory c va.toNat n t') := by
  intro c size n
  obtain ⟨-, -, hslot⟩ := DescriptorTable.find?_eq_some_iff.1 hfind
  rw [writeCall_eq_transfer, ensures_congr (transfer_of_checked hpointer hfind hsize), ensures_bind,
    onMemory, ensures_zoom]
  have hcheck : Ensures (checkRange va.toNat size .read) t.memory _ _ := ensures_checkRange
  rw [rangeOk_iff_movable (buffer_le_limit hpointer)] at hcheck
  apply hcheck.mono
  · rintro _ m ⟨rfl, hmovable⟩
    have hwrite := ensures_writeChunks (t := t) (m := t.memory) (c := c)
      (DescriptorTable.lt_of_slot? hslot) hframed hwritable hplaced hmovable (Nat.le_refl _)
    rw [plug_self hslot] at hwrite
    rw [ensures_bind]
    apply hwrite.mono
    · rintro _ t' ⟨hn, hdrains⟩
      exact ⟨rfl, hn, hmovable, hdrains⟩
    · rintro stop t' ⟨rfl, hn, hstops⟩
      exact .inr ⟨hmovable, rfl, hn, hstops⟩
  · rintro stop m ⟨hmovable, rfl, rfl⟩
    exact .inl ⟨hmovable, rfl, rfl⟩

end

theorem ensures_readCall_of_not_readable {file : OpenFile}
    (hpointer : t.self.table.pointer? q.arg2 = some va)
    (hfind : t.self.descriptors.find? q.arg1.toInt = some (slot, file)) (hsize : ¬ q.arg3 < 0)
    (hreadable : file.source.readable = false) (hcalls : file.limits.calls = none) :
    Ensures (readCall q) t (fun count t' => count = 0 ∧ t'.desk = t.desk)
      (fun _ t' => t'.desk = t.desk) := by
  obtain ⟨-, -, hslot⟩ := DescriptorTable.find?_eq_some_iff.1 hfind
  rw [readCall_eq_transfer, ensures_congr (transfer_of_checked hpointer hfind hsize)]
  cases chunkCount q.arg3.toInt.toNat with
  | zero => exact ⟨rfl, rfl⟩
  | succ chunks =>
    rw [readChunks]
    split
    · exact ⟨rfl, rfl⟩
    · have hread := Channel.read_eq_of_not_readable (c := ⟨file, t.kernel.machine.devices⟩) hcalls
        hreadable (min q.arg3.toInt.toNat pageSize)
      have hself := plug_self hslot
      dsimp only
      rw [ensures_bind, ← hself, ensures_onFile_plug (DescriptorTable.lt_of_slot? hslot),
        ensures_of_error hread, hself]

private theorem ensures_writeChunks_of_not_writable (hslot : slot < t.self.descriptors.capacity)
    (hwritable : c.file.source.writable = false) (hcalls : c.file.limits.calls = none)
    (address chunks size : Nat) : Ensures (writeChunks slot address chunks size) (t.plug slot m c)
      (fun _ t' => ∃ m', t' = t.plug slot m' c) (fun _ t' => ∃ m', t' = t.plug slot m' c) := by
  cases chunks with
  | zero => exact ⟨m, rfl⟩
  | succ chunks =>
    rw [writeChunks]
    split
    · exact ⟨m, rfl⟩
    · dsimp only
      rw [ensures_bind, ensures_onMemory_plug]
      refine ensures_intro (fun data m' _ => ?_) fun _ m' _ => ⟨m', rfl⟩
      split
      · exact ⟨m', rfl⟩
      · rw [ensures_bind, ensures_onFile_plug hslot,
          ensures_of_error (c.write_eq_of_not_writable hcalls hwritable data)]
        exact ⟨m', rfl⟩

theorem ensures_writeCall_of_not_writable {file : OpenFile}
    (hpointer : t.self.table.pointer? q.arg2 = some va)
    (hfind : t.self.descriptors.find? q.arg1.toInt = some (slot, file)) (hsize : ¬ q.arg3 < 0)
    (hwritable : file.source.writable = false) (hcalls : file.limits.calls = none) :
    Ensures (writeCall q) t (fun _ t' => t'.desk = t.desk) (fun _ t' => t'.desk = t.desk) := by
  obtain ⟨-, -, hslot⟩ := DescriptorTable.find?_eq_some_iff.1 hfind
  have hself := plug_self hslot
  have hdesk : ∀ m, (t.plug slot m ⟨file, t.kernel.machine.devices⟩).desk = t.desk := by
    intro m
    simp only [plug, put, desk, DescriptorTable.setFile_self hslot]
  rw [writeCall_eq_transfer, ensures_congr (transfer_of_checked hpointer hfind hsize), ← hself,
    ensures_bind, ensures_onMemory_plug]
  refine ensures_intro (fun _ m _ => ?_) fun _ m _ => by rw [hdesk, hdesk]
  rw [ensures_bind]
  apply (ensures_writeChunks_of_not_writable (DescriptorTable.lt_of_slot? hslot) hwritable hcalls
    _ _ _).mono
  · rintro _ t' ⟨m', rfl⟩
    exact (hdesk m').trans (hdesk _).symm
  · rintro _ t' ⟨m', rfl⟩
    exact (hdesk m').trans (hdesk _).symm

end

end Turn

end PagedKernel

import PagedKernel.Proofs.Memory.Flat

/-!
# Where transfers end

A copy ends before the first byte that is refused, for one of three reasons. The kernel cuts its
copies at the end of the pages, which is a page border: a copy that is cut and one that is not go
through the same spans up to the first that is refused.
-/

namespace PagedKernel

namespace PageTable

/-- Why an access to the byte at an address is refused. -/
inductive Refuses (t : PageTable) (access : Access) (a : Nat) : Exception → Prop
  /-- The address lies behind the pages, or the machine cannot name it. -/
  | beyond (h : t.size ≤ a ∨ addressLimit < a) : Refuses t access a .addressError
  | invalid {e : PagedKernel.Entry} (hl : a ≤ addressLimit)
      (he : t.entries[a / pageSize]? = some e) (hv : e.flags.valid = false) :
      Refuses t access a .pageFault
  | readOnly {e : PagedKernel.Entry} (hl : a ≤ addressLimit)
      (he : t.entries[a / pageSize]? = some e) (hv : e.flags.valid = true)
      (hr : e.flags.readOnly = true) (hw : access = .write) : Refuses t access a .readOnly

/-- How a copy of `length` bytes from an address on comes to its end after `n` of them. -/
inductive Ends (t : PageTable) (access : Access) (a length n : Nat) : Option Obstacle → Prop
  | complete (h : n = length) : Ends t access a length n none
  | refused {cause : Exception} (h : n < length) (hc : t.Refuses access (a + n) cause) :
      Ends t access a length n (some (.refused (a + n) cause))
  | lacking (f : Nat) : Ends t access a length n (some (.noFrame f))

variable {t t' : PageTable} {access : Access} {a length n : Nat} {cause : Exception}

private theorem size_le_iff : t.size ≤ a ↔ t.entries[a / pageSize]? = none := by
  rw [List.getElem?_eq_none_iff]
  simp only [size, PageTable.length, pageSize]
  omega

theorem size_congr (h : t'.mapping = t.mapping) : t'.size = t.size := by
  rw [size, length_congr h, size]

private theorem refuses_of_translateNat (h : t.translateNat a access = .error cause) :
    t.Refuses access a cause := by
  unfold translateNat at h
  split at h
  · next hva =>
    cases h
    exact .beyond (.inr (VirtualAddress.ofNat?_eq_none_iff.1 hva))
  · next va hva =>
    have hn : va.toNat = a := VirtualAddress.ofNat?_eq_some_iff.1 hva
    have hl : a ≤ addressLimit := hn ▸ va.le_limit
    have hpage : va.page = a / pageSize := by rw [VirtualAddress.page, hn]
    unfold translate walk at h
    rw [hpage] at h
    cases he : t.entries[a / pageSize]? with
    | none =>
      simp only [he] at h
      cases h
      exact .beyond (.inl (size_le_iff.2 he))
    | some e =>
      cases hv : e.flags.valid with
      | false =>
        simp only [he, hv] at h
        cases h
        exact .invalid hl he hv
      | true =>
        cases hp : Entry.permits e access with
        | true =>
          simp only [he, hv, if_true, hp] at h
          cases h
        | false =>
          simp only [he, hv, if_true, hp] at h
          cases h
          cases access with
          | read => cases hp
          | write => exact .readOnly hl he hv (by simpa [Entry.permits] using hp) rfl

private theorem translateNat_of_size_le (h : t.size ≤ a) (access : Access) :
    t.translateNat a access = .error .addressError := by
  have hp : t.permits access a = false := by
    rw [Bool.eq_false_iff, Ne, ← movable_iff]
    intro hm
    exact absurd hm.inside (Nat.not_lt.2 h)
  obtain ⟨cause, hc⟩ := translateNat_of_not_permits hp
  cases refuses_of_translateNat hc with
  | beyond _ => exact hc
  | invalid _ he _ => rw [size_le_iff.1 h] at he; cases he
  | readOnly _ he _ _ _ => rw [size_le_iff.1 h] at he; cases he

theorem Refuses.congr (h : t'.mapping = t.mapping) (hr : t'.Refuses access a cause) :
    t.Refuses access a cause := by
  have hentry : ∀ {e : PagedKernel.Entry}, t'.entries[a / pageSize]? = some e →
      ∃ e', t.entries[a / pageSize]? = some e' ∧ e'.flags.valid = e.flags.valid ∧
        e'.flags.readOnly = e.flags.readOnly := by
    intro e he
    obtain ⟨e', he', hb⟩ := getElem?_congr h.symm he
    exact ⟨e', he', Entry.valid_congr hb, congrArg (·.flags.readOnly) hb⟩
  cases hr with
  | beyond hb => exact .beyond (size_congr h ▸ hb)
  | invalid hl he hv =>
    obtain ⟨e', he', hvalid, -⟩ := hentry he
    exact .invalid hl he' (hvalid.trans hv)
  | readOnly hl he hv hro hw =>
    obtain ⟨e', he', hvalid, hreadOnly⟩ := hentry he
    exact .readOnly hl he' (hvalid.trans hv) (hreadOnly.trans hro) hw

theorem Refuses.unique {cause' : Exception} (h : t.Refuses access a cause)
    (h' : t.Refuses access a cause') : cause = cause' := by
  have hpast : t.size ≤ a ∨ addressLimit < a → a ≤ addressLimit →
      t.entries[a / pageSize]? = none := by
    intro hb hl
    exact size_le_iff.1 (hb.resolve_right (Nat.not_lt.2 hl))
  cases h <;> cases h' <;> simp_all

private theorem Ends.behind {k : Nat} {o : Option Obstacle} (h : t'.mapping = t.mapping)
    (hk : k ≤ length)
    (he : t'.Ends access (a + k) (length - k) n o) : t.Ends access a length (k + n) o := by
  cases he with
  | complete hn => exact .complete (by omega)
  | refused hn hc =>
    rw [Nat.add_assoc] at hc ⊢
    exact .refused (by omega) (hc.congr h)
  | lacking f => exact .lacking f

end PageTable

def Obstacle.missing? : Obstacle → Option Nat
  | .noFrame f => some f
  | .refused .. => none

namespace UserMemory

variable {m : UserMemory} {a length : Nat} {data : Bytes} {ε : Type}

/-- A range that is cut at the end of the pages has the same first span, and the same cut behind
it. -/
theorem headLength_clamp {t : PageTable} (hpos : 0 < length) (ha : a < t.size) :
    0 < min length (t.size - a) ∧
    headLength a (min length (t.size - a)) = headLength a length ∧
    min length (t.size - a) - headLength a length =
      min (length - headLength a length) (t.size - (a + headLength a length)) := by
  simp only [headLength, PageTable.size, pageSize] at *
  omega

private theorem length_slice (f : Frame) {offset : Nat} (h : offset + length ≤ pageSize) :
    (f.slice offset length).length = length := by
  have hsize := f.size_toArray
  simp only [Frame.slice, Array.length_toList, Array.size_extract]
  omega

private theorem translateNat_offset {t t' : PageTable} {access : Access} {pa : PhysicalAddress}
    (h : t.translateNat a access = .ok (pa, t')) : pa.offset = a % pageSize := by
  cases hp : t.permits access a with
  | false =>
    obtain ⟨cause, hc⟩ := PageTable.translateNat_of_not_permits hp
    rw [hc] at h
    cases h
  | true =>
    obtain ⟨e, -, -, -, ht⟩ := PageTable.translateNat_of_permits hp
    rw [ht] at h
    cases h
    rw [PhysicalAddress.offset_ofFrame, Nat.mod_mod]

/-- A copy out of a cut range brings what the copy out of the whole range does, and the latter tells
why there is no more. -/
structure CutOut (t : PageTable) (a length : Nat) (cut asked : CopyOut) : Prop where
  bytes : cut.bytes = asked.bytes
  table : cut.table = asked.table
  missing : cut.obstacle.bind Obstacle.missing? = asked.obstacle.bind Obstacle.missing?
  ends : t.Ends .read a length asked.bytes.length asked.obstacle

/-- A copy into a cut range does what the copy into the whole range does. -/
structure CutIn (t : PageTable) (a length : Nat) (cut asked : CopyIn) : Prop where
  count : cut.count = asked.count
  target : cut.target = asked.target
  missing : cut.obstacle.bind Obstacle.missing? = asked.obstacle.bind Obstacle.missing?
  ends : t.Ends .write a length asked.count asked.obstacle

theorem copyOut_clamp (memory : Memory) (t : PageTable) (a length : Nat) :
    CutOut t a length (copyOut memory t (Span.ofRange a (min length (t.size - a))))
      (copyOut memory t (Span.ofRange a length)) := by
  induction length using Nat.strongRecOn generalizing t a with
  | ind length ih =>
    rcases Nat.eq_zero_or_pos length with rfl | hpos
    · rw [Nat.zero_min]
      exact ⟨rfl, rfl, rfl, .complete rfl⟩
    rcases Nat.lt_or_ge a t.size with ha | ha
    · obtain ⟨hcut, hhead, hrest⟩ := headLength_clamp hpos ha
      rw [ofRange_head hpos, ofRange_head hcut, hhead, hrest]
      cases ht : t.translateNat a .read with
      | error cause =>
        simp only [copyOut, ht]
        exact ⟨rfl, rfl, rfl, .refused hpos (PageTable.refuses_of_translateNat ht)⟩
      | ok p =>
        obtain ⟨pa, t'⟩ := p
        have hmap : t'.mapping = t.mapping := PageTable.translateNat_mapping ht
        cases hframe : memory.frame? pa.frame with
        | none =>
          simp only [copyOut, ht, Memory.read?, hframe, Option.map_none]
          exact ⟨rfl, rfl, rfl, .lacking _⟩
        | some f =>
          have hchunk : (f.slice pa.offset (headLength a length)).length = headLength a length := by
            rw [translateNat_offset ht]
            exact length_slice f headLength_page
          have hlt : 0 < headLength a length := headLength_pos hpos
          have hrest := ih (length - headLength a length) (by omega) t' (a + headLength a length)
          rw [PageTable.size_congr hmap] at hrest
          simp only [copyOut, ht, Memory.read?, hframe, Option.map_some]
          refine ⟨congrArg (f.slice pa.offset (headLength a length) ++ ·) hrest.bytes, hrest.table,
            hrest.missing, ?_⟩
          rw [List.length_append, hchunk]
          exact hrest.ends.behind hmap headLength_le
    · have hcut : min length (t.size - a) = 0 := by omega
      rw [hcut, ofRange_head hpos]
      simp only [copyOut, PageTable.translateNat_of_size_le ha, Span.ofRange_zero]
      exact ⟨rfl, rfl, rfl, .refused hpos (.beyond (.inl ha))⟩

theorem copyIn_clamp (m : UserMemory) (a : Nat) {data : Bytes} (hl : length ≤ data.length) :
    CutIn m.table a length (copyIn m (Span.ofRange a (min length (m.table.size - a))) data)
      (copyIn m (Span.ofRange a length) data) := by
  induction length using Nat.strongRecOn generalizing m a data with
  | ind length ih =>
    rcases Nat.eq_zero_or_pos length with rfl | hpos
    · rw [Nat.zero_min]
      exact ⟨rfl, rfl, rfl, .complete rfl⟩
    rcases Nat.lt_or_ge a m.table.size with ha | ha
    · obtain ⟨hcut, hhead, hrest⟩ := headLength_clamp hpos ha
      rw [ofRange_head hpos, ofRange_head hcut, hhead, hrest]
      cases ht : m.table.translateNat a .write with
      | error cause =>
        simp only [copyIn, ht]
        exact ⟨rfl, rfl, rfl, .refused hpos (PageTable.refuses_of_translateNat ht)⟩
      | ok p =>
        obtain ⟨pa, t'⟩ := p
        have hmap : t'.mapping = m.table.mapping := PageTable.translateNat_mapping ht
        cases hframe : m.memory.frame? pa.frame with
        | none =>
          simp only [copyIn, ht, Memory.write?, hframe, Option.map_none]
          exact ⟨rfl, rfl, rfl, .lacking _⟩
        | some f =>
          have hpage : a % pageSize + headLength a length ≤ pageSize := headLength_page
          have hle : headLength a length ≤ length := headLength_le
          have hlt : 0 < headLength a length := headLength_pos hpos
          have hchunk : (data.take (headLength a length)).length = headLength a length := by
            rw [List.length_take]
            omega
          have hroom : Memory.room pa (headLength a length) = headLength a length := by
            rw [Memory.room, translateNat_offset ht]
            omega
          let memory := m.memory.setFrame pa.frame
            (f.patch pa.offset (data.take (headLength a length)))
          have hdrop : length - headLength a length ≤ (data.drop (headLength a length)).length := by
            rw [List.length_drop]
            omega
          have hrest := ih (length - headLength a length) (by omega) ⟨t', memory⟩
            (a + headLength a length) hdrop
          rw [PageTable.size_congr hmap] at hrest
          simp only [copyIn, ht, Memory.write?, hframe, Option.map_some, hchunk, hroom]
          exact ⟨congrArg (headLength a length + ·) hrest.count, hrest.target, hrest.missing,
            hrest.ends.behind hmap hle⟩
    · have hcut : min length (m.table.size - a) = 0 := by omega
      rw [hcut, ofRange_head hpos]
      simp only [copyIn, PageTable.translateNat_of_size_le ha, Span.ofRange_zero]
      exact ⟨rfl, rfl, rfl, .refused hpos (.beyond (.inl ha))⟩

/-- What the kernel makes of a copy that is over. A range that is refused is no fault of its own. -/
def afterCut {α : Type} (value : α) (m : UserMemory) : Option Nat → EStateM.Result (Stop ε) UserMemory α
  | none => .ok value m
  | some f => .error (.fault (.missingFrame f)) m

private theorem fetch_cut (m : UserMemory) (a length : Nat) :
    let copy := copyOut m.memory m.table (Span.ofRange a length)
    (fetch a length m : EStateM.Result (Stop ε) _ _) =
      afterCut copy.bytes ⟨copy.table, m.memory⟩ (copy.obstacle.bind Obstacle.missing?) := by
  have hcut := copyOut_clamp m.memory m.table a length
  simp only [← hcut.bytes, ← hcut.table, ← hcut.missing, fetch, clamp]
  rcases (copyOut m.memory m.table (Span.ofRange a (min length (m.table.size - a)))).obstacle
    with _ | ⟨_, _⟩ | f <;> rfl

theorem readInto_cut (m : UserMemory) (a : Nat) (buffer : Bytes) :
    let copy := copyOut m.memory m.table (Span.ofRange a buffer.length)
    (readInto a buffer m : EStateM.Result (Stop ε) _ _) =
      afterCut (copy.bytes.length, copy.bytes ++ buffer.drop copy.bytes.length)
        ⟨copy.table, m.memory⟩ (copy.obstacle.bind Obstacle.missing?) := by
  have hfetch := fetch_cut (ε := ε) m a buffer.length
  generalize copyOut m.memory m.table (Span.ofRange a buffer.length) = copy at *
  change EStateM.bind (fetch a buffer.length) _ m = _
  rw [EStateM.bind, hfetch]
  cases copy.obstacle.bind Obstacle.missing? <;> rfl

theorem store_cut (m : UserMemory) (a : Nat) (data : Bytes) :
    let copy := copyIn m (Span.ofRange a data.length) data
    (store a data m : EStateM.Result (Stop ε) _ _) =
      afterCut copy.count copy.target (copy.obstacle.bind Obstacle.missing?) := by
  have hcut := copyIn_clamp m a (Nat.le_refl data.length)
  simp only [← hcut.count, ← hcut.target, ← hcut.missing, store, clamp]
  rcases (copyIn m (Span.ofRange a (min data.length (m.table.size - a))) data).obstacle
    with _ | ⟨_, _⟩ | f <;> rfl

end UserMemory

end PagedKernel

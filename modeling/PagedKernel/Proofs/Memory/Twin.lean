import PagedKernel.Proofs.Agree
import PagedKernel.Proofs.Memory.Cut

/-!
# Memories that differ in their frames only

Two programs see the same when their pages have the same marks and hold the same bytes, whichever
frames the pages lie in. What the kernel does with the memory of the one it then does with the memory
of the other, and they see the same again.
-/

namespace PagedKernel

namespace PageTable

variable {t t' : PageTable} {access : Access} {a n : Nat}

/-- The table but for the frames that its entries name. -/
def faceless (t : PageTable) : PageTable := ⟨t.entries.map fun e => { e with frame := 0 }⟩

theorem getElem?_faceless (t : PageTable) (p : Nat) :
    t.faceless.entries[p]? = (t.entries[p]?).map fun e => { e with frame := 0 } :=
  List.getElem?_map

@[simp] private theorem length_faceless (t : PageTable) : t.faceless.length = t.length :=
  List.length_map _

private theorem permits_faceless (t : PageTable) (access : Access) (a : Nat) :
    t.faceless.permits access a = t.permits access a := by
  have hpermits : ∀ e : PagedKernel.Entry,
      Entry.permits { e with frame := 0 } access = Entry.permits e access := by
    intro e
    cases access <;> rfl
  rw [Bool.eq_iff_iff, permits_iff, permits_iff, getElem?_faceless]
  cases t.entries[a / pageSize]? with
  | none => simp
  | some e => simp [hpermits]

private theorem touched_faceless (t : PageTable) (access : Access) (a n : Nat) :
    (t.touched access a n).faceless = t.faceless.touched access a n := by
  refine congrArg PageTable.mk (List.ext_getElem? fun p => ?_)
  change (t.touched access a n).faceless.entries[p]? = (t.faceless.touched access a n).entries[p]?
  rw [getElem?_faceless, getElem?_touched, getElem?_touched, getElem?_faceless]
  cases t.entries[p]? with
  | none => rfl
  | some e => by_cases hm : meets a n p <;> simp [hm, Entry.touch]

section

variable (h : t'.faceless = t.faceless)

include h

theorem length_eq_of_faceless : t'.length = t.length := by
  rw [← length_faceless t', h, length_faceless]

private theorem permits_eq_of_faceless (access : Access) (a : Nat) :
    t'.permits access a = t.permits access a := by
  rw [← permits_faceless t', h, permits_faceless]

private theorem reach_eq_of_faceless (access : Access) (a length : Nat) :
    t'.reach access a length = t.reach access a length := by
  induction length generalizing a with
  | zero => rfl
  | succ length ih => rw [reach, reach, permits_eq_of_faceless h, ih]

private theorem touched_eq_of_faceless (access : Access) (a n : Nat) :
    (t'.touched access a n).faceless = (t.touched access a n).faceless := by
  rw [touched_faceless, h, touched_faceless]

theorem pointer?_eq_of_faceless (r : Int32) : t'.pointer? r = t.pointer? r := by
  rw [pointer?, pointer?, length_eq_of_faceless h]

omit h in
private theorem Refuses.faceless {cause : Exception} (hr : t.Refuses access a cause) :
    t.faceless.Refuses access a cause := by
  have hentry : ∀ {e : PagedKernel.Entry}, t.entries[a / pageSize]? = some e →
      t.faceless.entries[a / pageSize]? = some { e with frame := 0 } := by
    intro e he
    rw [getElem?_faceless, he, Option.map_some]
  cases hr with
  | beyond hb => exact .beyond (by rwa [size, length_faceless])
  | invalid hl he hv => exact .invalid hl (hentry he) hv
  | readOnly hl he hv hro hw => exact .readOnly hl (hentry he) hv hro hw

private theorem Ends.unique {length : Nat} {o o' : Option Obstacle} (he : t.Ends access a length n o)
    (he' : t'.Ends access a length n o') (ho : ∀ f, o ≠ some (.noFrame f))
    (ho' : ∀ f, o' ≠ some (.noFrame f)) : o' = o := by
  cases he with
  | complete hn =>
    cases he' with
    | complete _ => rfl
    | refused hlt _ => omega
    | lacking f => exact absurd rfl (ho' f)
  | refused hlt hc =>
    cases he' with
    | complete hn => omega
    | refused _ hc' =>
      have hsame := hc'.faceless
      rw [h] at hsame
      rw [hsame.unique hc.faceless]
    | lacking f => exact absurd rfl (ho' f)
  | lacking f => exact absurd rfl (ho f)

theorem length_frames_eq_of_faceless : t'.frames.length = t.frames.length := by
  have hcount : ∀ t : PageTable, t.frames.length = t.faceless.frames.length := by
    intro t
    simp [frames, faceless, List.filter_map, Function.comp_def]
  rw [hcount t', h, ← hcount]

omit h in
theorem eq_of_faceless (h : t'.faceless = t.faceless) (hframes : t'.mapped = t.mapped) : t' = t := by
  refine congrArg PageTable.mk (List.ext_getElem? fun p => ?_)
  have hface := congrArg (fun t : PageTable => t.entries[p]?) h
  have hframe := congrArg (fun frames : List Nat => frames[p]?) hframes
  simp only [getElem?_faceless, mapped, List.getElem?_map] at hface hframe
  cases he : t.entries[p]? with
  | none => simpa [he] using hframe
  | some e =>
    cases he' : t'.entries[p]? with
    | none => simp [he, he'] at hframe
    | some e' =>
      obtain ⟨vpn, frame, flags⟩ := e
      obtain ⟨vpn', frame', flags'⟩ := e'
      simp_all

end

end PageTable

/-- Memories with the same frames are the same. -/
theorem Memory.ext_frame? {m m' : Memory} (h : ∀ f, m'.frame? f = m.frame? f) : m' = m := by
  obtain ⟨frames, hsize⟩ := m
  obtain ⟨frames', hsize'⟩ := m'
  have hframes : frames' = frames := Array.ext_getElem? h
  subst hframes
  rfl

namespace UserMemory

variable {m m' : UserMemory} {ε : Type}

/-- Two memories in which a program sees the same. Each has its frames, and names none of them
twice. -/
structure Twin (m m' : UserMemory) : Prop where
  faceless : m'.table.faceless = m.table.faceless
  byte : ∀ a, m'.byte? a = m.byte? a
  framed : m.Framed
  framed' : m'.Framed
  nodup : m.table.mapped.Nodup
  nodup' : m'.table.mapped.Nodup

private theorem Twin.afterRead (h : Twin m m') (a n : Nat) :
    Twin (m.afterRead a n) (m'.afterRead a n) where
  faceless := PageTable.touched_eq_of_faceless h.faceless ..
  byte b := by rw [byte?_afterRead, byte?_afterRead, h.byte]
  framed := h.framed.congr (mapping_afterRead ..) rfl
  framed' := h.framed'.congr (mapping_afterRead ..) rfl
  nodup := by
    rw [PageTable.mapped_congr (mapping_afterRead ..)]
    exact h.nodup
  nodup' := by
    rw [PageTable.mapped_congr (mapping_afterRead ..)]
    exact h.nodup'

theorem Twin.frame? (h : Twin m m') (htable : m'.table = m.table) (hv : m.table.AllValid) {f : Nat}
    (hf : f ∈ m.table.mapped) : m'.memory.frame? f = m.memory.frame? f := by
  obtain ⟨e, he, rfl⟩ := List.mem_map.1 hf
  obtain ⟨p, hp⟩ := List.mem_iff_getElem?.1 he
  refine Memory.frame?_congr fun o => ?_
  by_cases ho : o < pageSize
  · have hpage : (p * pageSize + o) / pageSize = p := by
      rw [Nat.mul_comm, Nat.mul_add_div (by decide), Nat.div_eq_of_lt ho, Nat.add_zero]
    have hoffset : (p * pageSize + o) % pageSize = o := by
      rw [Nat.mul_comm, Nat.mul_add_mod, Nat.mod_eq_of_lt ho]
    have hentry : m.table.entries[(p * pageSize + o) / pageSize]? = some e := by rw [hpage, hp]
    have hbyte := h.byte (p * pageSize + o)
    rwa [byte?_of_entry (htable ▸ hentry) (hv e he), byte?_of_entry hentry (hv e he),
      hoffset] at hbyte
  · have hout : ∀ memory : Memory, memory.at? e.frame o = none := by
      intro memory
      cases hframe : memory.frame? e.frame with
      | none => simp [Memory.at?, hframe]
      | some f => simp [Memory.at?, hframe, ho]
    rw [hout, hout]

/-- The same data at the same address leaves the same behind. -/
theorem Twin.wrote (h : Twin m m') {m₁ m₁' : UserMemory} {a : Nat} {data : Bytes}
    (hw : Wrote m m₁ a data) (hw' : Wrote m' m₁' a data) : Twin m₁ m₁' where
  faceless := by
    rw [hw.table, hw'.table]
    exact PageTable.touched_eq_of_faceless h.faceless ..
  byte b := by rw [hw.byte h.nodup, hw'.byte h.nodup', h.byte]
  framed := hw.framed h.framed
  framed' := hw'.framed h.framed'
  nodup := by
    rw [PageTable.mapped_congr hw.mapping]
    exact h.nodup
  nodup' := by
    rw [PageTable.mapped_congr hw'.mapping]
    exact h.nodup'

private theorem Twin.rangeOk (h : Twin m m') (a length : Nat) (access : Access) :
    m'.rangeOk a length access = m.rangeOk a length access := by
  rw [Bool.eq_iff_iff, rangeOk_iff, rangeOk_iff]
  simp only [PageTable.permits_eq_of_faceless h.faceless]

/-- A copy brings the same bytes, and ends for the same reason. -/
theorem Twin.copyOut (h : Twin m m') (a length : Nat) :
    let copy := copyOut m.memory m.table (Span.ofRange a length)
    let copy' := copyOut m'.memory m'.table (Span.ofRange a length)
    copy'.bytes = copy.bytes ∧ copy'.obstacle = copy.obstacle ∧
      Twin ⟨copy.table, m.memory⟩ ⟨copy'.table, m'.memory⟩ := by
  have hends := (copyOut_clamp m.memory m.table a length).ends
  have hends' := (copyOut_clamp m'.memory m'.table a length).ends
  obtain ⟨hbytes, htable, -, hframe⟩ := copyOut_ofRange h.framed a length
  obtain ⟨hbytes', htable', -, hframe'⟩ := copyOut_ofRange h.framed' a length
  rw [PageTable.reach_eq_of_faceless h.faceless] at hbytes' htable'
  have hsame : m'.bytesAt a (m.table.reach .read a length) =
      m.bytesAt a (m.table.reach .read a length) := bytesAt_congr fun i _ => h.byte (a + i)
  rw [hbytes] at hends
  rw [hbytes', hsame] at hends'
  refine ⟨?_, hends.unique h.faceless hends' hframe hframe', ?_⟩
  · rw [hbytes', hbytes, hsame]
  · rw [htable, htable']
    exact h.afterRead a _

theorem Twin.copyIn (h : Twin m m') (a : Nat) (data : Bytes) :
    let copy := copyIn m (Span.ofRange a data.length) data
    let copy' := copyIn m' (Span.ofRange a data.length) data
    copy'.obstacle = copy.obstacle ∧ Twin copy.target copy'.target := by
  have hends := (copyIn_clamp m a (Nat.le_refl data.length)).ends
  have hends' := (copyIn_clamp m' a (Nat.le_refl data.length)).ends
  obtain ⟨hcount, hwrote, -, hframe⟩ := copyIn_ofRange h.framed a (Nat.le_refl data.length)
  obtain ⟨hcount', hwrote', -, hframe'⟩ := copyIn_ofRange h.framed' a (Nat.le_refl data.length)
  rw [PageTable.reach_eq_of_faceless h.faceless] at hcount' hwrote'
  rw [hcount] at hends
  rw [hcount'] at hends'
  exact ⟨hends.unique h.faceless hends' hframe hframe', h.wrote hwrote hwrote'⟩

theorem parallel_fetch (a length : Nat) :
    Parallel Twin (fetch a length : EStateM (Stop ε) UserMemory Bytes) := by
  intro m m' h
  rw [fetch_eq h.framed, fetch_eq h.framed', PageTable.reach_eq_of_faceless h.faceless,
    bytesAt_congr fun i _ => h.byte (a + i)]
  exact .ok (h.afterRead ..)

private theorem parallel_store (a : Nat) (data : Bytes) :
    Parallel Twin (store a data : EStateM (Stop ε) UserMemory Nat) := by
  intro m m' h
  obtain ⟨m₁, hstore, hwrote⟩ := store_eq (ε := ε) h.framed a data
  obtain ⟨m₁', hstore', hwrote'⟩ := store_eq (ε := ε) h.framed' a data
  rw [PageTable.reach_eq_of_faceless h.faceless] at hstore' hwrote'
  rw [hstore, hstore']
  exact .ok (h.wrote hwrote hwrote')

theorem parallel_checkRange (a length : Nat) (access : Access) :
    Parallel Twin (checkRange a length access) := by
  unfold checkRange
  apply Parallel.get (g := fun m : UserMemory => m.rangeOk a length access)
    (k := fun ok => if ok = true then pure () else refuse Errno.badAddress)
  · intro m m' h
    exact h.rangeOk a length access
  · intro ok
    exact .ite (.pure _) (.refuse _)

theorem parallel_pointer (r : Int32) : Parallel Twin (pointer r) := by
  unfold pointer
  apply Parallel.get (g := fun m : UserMemory => m.table.pointer? r)
    (k := fun va => orRefuse Errno.badAddress va)
  · intro m m' h
    exact PageTable.pointer?_eq_of_faceless h.faceless r
  · intro va
    exact .orRefuse _ va

private theorem parallel_getBytes (a length : Nat) : Parallel Twin (getBytes a length) := by
  unfold getBytes
  apply (parallel_checkRange a length .read).bind
  intro _
  apply Parallel.bind (parallel_fetch a length)
  intro data
  exact .ite (.pure _) (.refuse _)

theorem parallel_putBytes (a : Nat) (data : Bytes) : Parallel Twin (putBytes a data) := by
  unfold putBytes
  apply (parallel_checkRange a data.length .write).bind
  intro _
  apply Parallel.bind (parallel_store a data)
  intro count
  exact .ite (.pure _) (.refuse _)

theorem parallel_getWord (a : Nat) : Parallel Twin (getWord a) :=
  (parallel_getBytes a 4).bind fun _ => .pure _

theorem parallel_putWord (a : Nat) (w : UInt32) : Parallel Twin (putWord a w) :=
  parallel_putBytes a (wordBytes w)

theorem parallel_getString (a maxLength : Nat) : Parallel Twin (getString a maxLength) := by
  unfold getString
  apply Parallel.bind (parallel_fetch a (maxLength + 1))
  intro data
  split
  · exact .orRefuse _ _
  · exact .refuse _

end UserMemory

end PagedKernel

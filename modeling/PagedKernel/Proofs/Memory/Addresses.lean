import PagedKernel.Proofs.Memory.Passages

/-!
# The addresses that are written

Passages that only write tell which bytes were written, and how often. No other byte of the memory
is different afterwards, whether the program sees it or not, and no other page is marked.
-/

namespace PagedKernel

def Passage.addresses (q : Passage) : List Nat := List.range' q.address q.bytes.length

/-- Passages that only write, at these addresses one after another. -/
structure WritesAt (log : List Passage) (written : List Nat) : Prop where
  access : ∀ q ∈ log, q.access = .write
  addresses : log.flatMap Passage.addresses = written

namespace Passage

variable {q : Passage} {t : PageTable} {a : Nat} {b : UInt8}

private theorem mem_addresses : a ∈ q.addresses ↔ q.address ≤ a ∧ a < q.address + q.bytes.length :=
  List.mem_range'_1

private theorem mem_addresses_of_put? (h : q.put? a = some b) : a ∈ q.addresses := by
  unfold put? at h
  split at h
  · next hw =>
    obtain ⟨hlt, -⟩ := List.getElem?_eq_some_iff.1 h
    have hle := hw.2
    rw [mem_addresses]
    omega
  · cases h

private theorem Through.page_of_mem (h : q.Through t) (ha : a ∈ q.addresses) :
    a / pageSize = q.page := by
  have hinside := h.inside
  obtain ⟨hl, hu⟩ := mem_addresses.1 ha
  simp only [page, pageSize] at *
  omega

private theorem Through.address_mem (h : q.Through t) : q.address ∈ q.addresses :=
  mem_addresses.2 ⟨Nat.le_refl _, Nat.lt_add_of_pos_right h.nonempty⟩

end Passage

namespace WritesAt

variable {q : Passage} {log log' : List Passage} {written written' : List Nat} {t : PageTable}

theorem nil : WritesAt [] [] := ⟨nofun, rfl⟩

theorem append (h : WritesAt log written) (h' : WritesAt log' written') :
    WritesAt (log ++ log') (written ++ written') where
  access q hq := (List.mem_append.1 hq).elim (h.access q) (h'.access q)
  addresses := by rw [List.flatMap_append, h.addresses, h'.addresses]

private theorem cons (hq : q.access = .write) (h : WritesAt log written) :
    WritesAt (q :: log) (q.addresses ++ written) :=
  ⟨List.forall_mem_cons.2 ⟨hq, h.access⟩, by rw [List.flatMap_cons, h.addresses]⟩

private theorem page_iff (h : WritesAt log written) (ht : ∀ q ∈ log, q.Through t) (p : Nat) :
    (∃ b ∈ written, b / pageSize = p) ↔ ∃ q ∈ log, q.page = p := by
  simp only [← h.addresses, List.mem_flatMap]
  constructor
  · rintro ⟨b, ⟨q, hq, hb⟩, rfl⟩
    exact ⟨q, hq, ((ht q hq).page_of_mem hb).symm⟩
  · rintro ⟨q, hq, rfl⟩
    exact ⟨q.address, ⟨q, hq, (ht q hq).address_mem⟩, rfl⟩

private theorem noted_eq (h : WritesAt log written) (ht : ∀ q ∈ log, q.Through t) (p : Nat)
    (e : Entry) :
    e.noted log p = if ∃ b ∈ written, b / pageSize = p then e.touch .write else e := by
  have hused : (log.any fun q => decide (q.page = p)) = true ↔ ∃ b ∈ written, b / pageSize = p := by
    simp [h.page_iff ht]
  have hdirty : (log.any fun q => decide (q.access = .write ∧ q.page = p)) =
      log.any fun q => decide (q.page = p) := by
    rw [Bool.eq_iff_iff]
    simp only [List.any_eq_true, decide_eq_true_eq]
    exact exists_congr fun q => and_congr_right fun hq => and_iff_right (h.access q hq)
  rw [Entry.noted, hdirty]
  by_cases hpage : ∃ b ∈ written, b / pageSize = p
  · simp [hused.2 hpage, hpage, Entry.touch, Flags.touch]
  · simp [Bool.eq_false_iff.2 (mt hused.1 hpage), hpage]

private theorem stored?_eq_none (h : WritesAt log written) {b : Nat} (hb : b ∉ written) :
    stored? log b = none := by
  rw [Option.eq_none_iff_forall_ne_some]
  intro v hv
  obtain ⟨q, hq, hput⟩ := exists_put_of_stored? hv
  exact hb (h.addresses ▸ List.mem_flatMap.2 ⟨q, hq, Passage.mem_addresses_of_put? hput⟩)

end WritesAt

namespace UserMemory

variable {α : Type} {m m' : UserMemory} {x : EStateM (Stop Errno) UserMemory α}
variable {log : List Passage} {written : List Nat} {length : Nat} {data : Bytes}

/-- A copy in writes from its first address on, up to the first byte that may not be written. -/
theorem writesAt_inPassages (hf : m.Framed) (a : Nat) (hl : length ≤ data.length) :
    WritesAt (inPassages m (Span.ofRange a length) data)
      (List.range' a (m.table.reach .write a length)) := by
  refine write_induction (motive := fun m a length data =>
    WritesAt (inPassages m (Span.ofRange a length) data)
      (List.range' a (m.table.reach .write a length))) ?done ?refused ?goesOn hf a hl
  case done => exact fun _ _ _ => .nil
  case refused =>
    intro m a length data cause hpos hp hc
    rw [ofRange_head hpos, PageTable.reach_of_not_permits hp]
    simp only [inPassages, hc]
    exact .nil
  case goesOn =>
    intro m a length data m₁ h hrest
    have hhead : Passage.addresses ⟨.write, a, data.take (headLength a length)⟩ =
        List.range' a (headLength a length) := by rw [Passage.addresses, h.chunk]
    rw [PageTable.reach_congr h.wrote.mapping] at hrest
    rw [h.inPassages_eq, reach_headLength h.permits, ← List.range'_append_1, ← hhead]
    exact hrest.cons rfl

theorem exists_makes_store (hf : m.Framed) (a : Nat) (data : Bytes) :
    ∃ log, Makes (store a data) m log ∧
      WritesAt log (List.range' a (m.table.reach .write a data.length)) := by
  have hle : m.clamp a data.length ≤ data.length := Nat.min_le_left ..
  have hwrites := writesAt_inPassages hf a hle
  rw [show m.table.reach .write a (m.clamp a data.length) =
    m.table.reach .write a data.length from PageTable.reach_clamp ..] at hwrites
  refine ⟨[] ++ (inPassages m (Span.ofRange a (m.clamp a data.length)) data ++ []), ?_, ?_⟩
  · rw [store_eq_moveIn]
    refine Makes.bind (.leavesPages fun _ => rfl) rfl (Makes.bind (.into hle) rfl (.leavesPages ?_))
    intro m'
    split <;> rfl
  · rwa [List.nil_append, List.append_nil]

/-- What no passage writes to is left as it was, in frames that the program sees and in others. -/
theorem Makes.elsewhere (h : Makes x m log) (hf : m.Framed) {f o : Nat}
    (ho : ∀ q ∈ log, ∀ b ∈ q.addresses, q.access = .write → m.table.place? b ≠ some (f, o)) :
    (reached x m).memory.at? f o = m.memory.at? f o := by
  induction h with
  | leavesPages hsame => rw [hsame]
  | out => rfl
  | @into m a length data hl =>
    have hwrites := writesAt_inPassages hf a hl
    obtain ⟨-, hwrote, -, -⟩ := copyIn_ofRange hf a hl
    apply hwrote.elsewhere
    intro b hlow hup
    rw [List.length_take] at hup
    have hb : b ∈ List.range' a (m.table.reach .write a length) :=
      List.mem_range'_1.2 ⟨hlow, by omega⟩
    rw [← hwrites.addresses] at hb
    obtain ⟨q, hq, hmem⟩ := List.mem_flatMap.1 hb
    exact ho q hq b hmem (hwrites.access q hq)
  | bind hx hv _ ihx ihf =>
    have hconfined := (hx.passed hf).2
    have hfirst := ihx hf fun q hq => ho q (List.mem_append_left _ hq)
    rw [reached_of_ok hv] at hconfined hfirst
    rw [reached_bind_of_ok hv, ihf (hconfined.framed hf), hfirst]
    intro q hq b hb hwrite
    rw [PageTable.place?_congr hconfined.mapping]
    exact ho q (List.mem_append_right _ hq) b hb hwrite
  | stop hx hstop ihx =>
    have hfirst := ihx hf ho
    rw [reached_of_error hstop] at hfirst
    rwa [reached_bind_of_error hstop]

/-- Nothing is different in a memory but the bytes at given addresses, and the pages that hold them
are marked as written to. -/
structure Altered (written : List Nat) (m m' : UserMemory) : Prop where
  kept : ∀ b ∉ written, m'.byte? b = m.byte? b
  elsewhere : ∀ f o, (∀ b ∈ written, m.table.place? b ≠ some (f, o)) →
    m'.memory.at? f o = m.memory.at? f o
  size : m'.memory.size = m.memory.size
  entry : ∀ p, m'.table.entries[p]? = (m.table.entries[p]?).map fun e =>
    if ∃ b ∈ written, b / pageSize = p then e.touch .write else e

/-- A computation that makes no passages but writes alters what it writes to, and nothing else. -/
theorem Makes.altered (h : Makes x m log) (hw : WritesAt log written) (hf : m.Framed)
    (hn : m.table.mapped.Nodup) : Altered written m (reached x m) := by
  obtain ⟨hpassed, hconfined⟩ := h.passed hf
  refine ⟨?_, ?_, hconfined.size, ?_⟩
  · intro b hb
    rw [hpassed.byte hn, hw.stored?_eq_none hb, Option.none_or]
  · intro f o ho
    apply h.elsewhere hf
    intro q hq b hb _
    exact ho b (hw.addresses ▸ List.mem_flatMap.2 ⟨q, hq, hb⟩)
  · intro p
    rw [hpassed.entry]
    congr 1
    funext e
    exact hw.noted_eq hpassed.through p e

end UserMemory

end PagedKernel

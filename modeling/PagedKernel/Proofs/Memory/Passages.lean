import PagedKernel.Memory.Accessors
import PagedKernel.Memory.ArgumentArea
import PagedKernel.Proofs.Memory.Edited

/-!
# The accesses that go through

An access to memory translates an address, and moves bytes inside one page. Every computation on the
memory of a program is put together from copies, and every copy from such accesses. Those that went
through are all that there is: they say which bytes changed, and which pages are marked.
-/

namespace PagedKernel

/-- Bytes that went through to one page, in one translation. -/
structure Passage where
  access : Access
  address : Nat
  bytes : Bytes
deriving DecidableEq, Repr

namespace Passage

def page (q : Passage) : Nat := q.address / pageSize

def put? (q : Passage) (a : Nat) : Option UInt8 :=
  if q.access = .write ∧ q.address ≤ a then q.bytes[a - q.address]? else none

/-- A passage of bytes of one page, a byte at least, that the table lets through. -/
structure Through (t : PageTable) (q : Passage) : Prop where
  nonempty : 0 < q.bytes.length
  inside : q.address % pageSize + q.bytes.length ≤ pageSize
  permitted : t.permits q.access q.address = true

theorem Through.congr {t t' : PageTable} {q : Passage} (h : q.Through t')
    (ht : t'.mapping = t.mapping) : q.Through t :=
  ⟨h.nonempty, h.inside, by rw [← PageTable.permits_congr ht, h.permitted]⟩

theorem Through.page_of_put? {t : PageTable} {q : Passage} {a : Nat} {b : UInt8}
    (h : q.Through t) (hb : q.put? a = some b) : q.access = .write ∧ q.page = a / pageSize := by
  unfold put? at hb
  split at hb
  · next hw =>
    obtain ⟨hlt, -⟩ := List.getElem?_eq_some_iff.1 hb
    have hinside := h.inside
    refine ⟨hw.1, ?_⟩
    simp only [page, pageSize] at *
    omega
  · cases hb

end Passage

/-- The byte that the last of the passages to put one at an address put there. -/
def stored? : List Passage → Nat → Option UInt8
  | [], _ => none
  | q :: rest, a => (stored? rest a).or (q.put? a)

private theorem stored?_append (log log' : List Passage) (a : Nat) :
    stored? (log ++ log') a = (stored? log' a).or (stored? log a) := by
  induction log with
  | nil => simp [stored?]
  | cons q rest ih => rw [List.cons_append, stored?, ih, stored?, Option.or_assoc]

theorem exists_put_of_stored? {log : List Passage} {a : Nat} {b : UInt8}
    (h : stored? log a = some b) : ∃ q ∈ log, q.put? a = some b := by
  induction log with
  | nil => cases h
  | cons q rest ih =>
    rw [stored?, Option.or_eq_some_iff] at h
    rcases h with hrest | ⟨-, hq⟩
    · obtain ⟨q', hq', hput⟩ := ih hrest
      exact ⟨q', List.mem_cons_of_mem _ hq', hput⟩
    · exact ⟨q, List.mem_cons_self .., hq⟩

def Entry.noted (log : List Passage) (p : Nat) (e : Entry) : Entry :=
  { e with flags := { e.flags with
    used := e.flags.used || log.any fun q => decide (q.page = p)
    dirty := e.flags.dirty || log.any fun q => decide (q.access = .write ∧ q.page = p) } }

@[simp] private theorem Entry.noted_nil (p : Nat) (e : Entry) : e.noted [] p = e := by
  simp [noted]

private theorem Entry.noted_noted (log log' : List Passage) (p : Nat) (e : Entry) :
    (e.noted log p).noted log' p = e.noted (log ++ log') p := by
  simp [noted, Bool.or_assoc]

@[simp] theorem Entry.bare_noted (log : List Passage) (p : Nat) (e : Entry) :
    (e.noted log p).bare = e.bare := rfl

/-- An access inside one page is noted as a passage there. -/
theorem Entry.touch_eq_noted {access : Access} {a n p : Nat} {bytes : Bytes} (hn : 0 < n)
    (hp : a % pageSize + n ≤ pageSize) (e : Entry) :
    (if PageTable.meets a n p then e.touch access else e) = e.noted [⟨access, a, bytes⟩] p := by
  have hm : PageTable.meets a n p = decide (a / pageSize = p) := by
    rw [Bool.eq_iff_iff]
    simp only [PageTable.meets, decide_eq_true_eq, pageSize] at *
    omega
  rw [hm]
  by_cases hpage : a / pageSize = p
  · cases access <;> simp [noted, Passage.page, hpage, Entry.touch, Flags.touch]
  · simp [noted, Passage.page, hpage]

namespace UserMemory

variable {m m' m'' : UserMemory} {log log' : List Passage} {a length : Nat} {data : Bytes}

/-- The memory `m'` is what the memory `m` came to by passages. -/
structure Passed (log : List Passage) (m m' : UserMemory) : Prop where
  entry : ∀ p, m'.table.entries[p]? = (m.table.entries[p]?).map (Entry.noted log p)
  byte : m.table.mapped.Nodup → ∀ b, m'.byte? b = (stored? log b).or (m.byte? b)
  through : ∀ q ∈ log, q.Through m.table

theorem Passed.refl (m : UserMemory) : Passed [] m m where
  entry p := by
    have hid : Entry.noted [] p = id := funext fun e => e.noted_nil p
    rw [hid, Option.map_id_apply]
  byte _ b := by rw [stored?, Option.none_or]
  through := nofun

theorem Passed.mapping (h : Passed log m m') : m'.table.mapping = m.table.mapping := by
  apply List.ext_getElem?
  intro p
  rw [PageTable.getElem?_mapping, PageTable.getElem?_mapping, h.entry, Option.map_map]
  rfl

theorem Passed.trans (h : Passed log m m') (h' : Passed log' m' m'') :
    Passed (log ++ log') m m'' where
  entry p := by
    rw [h'.entry, h.entry, Option.map_map]
    congr 1
    funext e
    exact e.noted_noted log log' p
  byte hn b := by
    have hn' : m'.table.mapped.Nodup := by rwa [PageTable.mapped_congr h.mapping]
    rw [h'.byte hn', h.byte hn, stored?_append, Option.or_assoc]
  through q hq := by
    rcases List.mem_append.1 hq with hold | hnew
    · exact h.through q hold
    · exact (h'.through q hnew).congr h.mapping

private theorem passed_read (hn : 0 < length) (hp : a % pageSize + length ≤ pageSize)
    (hr : m.table.permits .read a = true) :
    Passed [⟨.read, a, m.bytesAt a length⟩] m (m.afterRead a length) where
  entry p := by
    rw [afterRead, PageTable.getElem?_touched]
    congr 1
    funext e
    exact e.touch_eq_noted hn hp
  byte _ b := by
    rw [byte?_afterRead]
    simp [stored?, Passage.put?]
  through q hq := by
    rw [List.mem_singleton.1 hq]
    exact ⟨by simpa using hn, by simpa using hp, hr⟩

private theorem Wrote.passed (h : Wrote m m' a data) (hn : 0 < data.length)
    (hp : a % pageSize + data.length ≤ pageSize) (hw : m.table.permits .write a = true) :
    Passed [⟨.write, a, data⟩] m m' where
  entry p := by
    rw [h.table, PageTable.getElem?_touched]
    congr 1
    funext e
    exact e.touch_eq_noted hn hp
  byte hnodup b := by
    rw [h.byte hnodup]
    simp only [stored?, Passage.put?, Option.none_or, true_and]
    by_cases hb : a ≤ b
    · by_cases hlt : b < a + data.length
      · have hin : b - a < data.length := by omega
        simp [hb, hlt, hin]
      · have hout : ¬ b - a < data.length := by omega
        simp [hb, hlt, hout]
    · simp [hb]
  through q hq := by
    rw [List.mem_singleton.1 hq]
    exact ⟨hn, hp, hw⟩

def outPassages (memory : Memory) : PageTable → List Span → List Passage
  | _, [] => []
  | table, span :: rest =>
    match table.translateNat span.start .read with
    | .error _ => []
    | .ok (pa, table) =>
      match memory.read? pa span.length with
      | none => [⟨.read, span.start, []⟩]
      | some chunk => ⟨.read, span.start, chunk⟩ :: outPassages memory table rest

def inPassages : UserMemory → List Span → Bytes → List Passage
  | _, [], _ => []
  | m, span :: rest, data =>
    match m.table.translateNat span.start .write with
    | .error _ => []
    | .ok (pa, table) =>
      match m.memory.write? pa (data.take span.length) with
      | none => [⟨.write, span.start, []⟩]
      | some (count, memory) =>
        ⟨.write, span.start, data.take count⟩ ::
          inPassages ⟨table, memory⟩ rest (data.drop span.length)

private theorem passed_copyOut (hf : m.Framed) (a length : Nat) :
    Passed (outPassages m.memory m.table (Span.ofRange a length)) m
      ⟨(copyOut m.memory m.table (Span.ofRange a length)).table, m.memory⟩ := by
  induction length using Nat.strongRecOn generalizing m a with
  | ind length ih =>
    rcases Nat.eq_zero_or_pos length with rfl | hpos
    · exact Passed.refl m
    cases hp : m.table.permits .read a with
    | false =>
      obtain ⟨cause, hc⟩ := PageTable.translateNat_of_not_permits hp
      rw [ofRange_head hpos]
      simp only [outPassages, copyOut, hc]
      exact Passed.refl m
    | true =>
      have hlt : 0 < headLength a length := headLength_pos hpos
      obtain ⟨pa, ht, hread⟩ := exists_read hf hp hpos
      have hfirst := passed_read hlt headLength_page hp
      have hrest := ih (length - headLength a length) (by omega) (hf.congr hfirst.mapping rfl)
        (a + headLength a length)
      have hlog : outPassages m.memory m.table (Span.ofRange a length) =
          ⟨.read, a, m.bytesAt a (headLength a length)⟩ ::
            outPassages m.memory (m.table.touched .read a (headLength a length))
              (Span.ofRange (a + headLength a length) (length - headLength a length)) := by
        rw [ofRange_head hpos]
        simp only [outPassages, ht, hread]
      rw [hlog, copyOut_headLength hf hp hpos]
      exact hfirst.trans hrest

theorem WritesHead.inPassages_eq {m₁ : UserMemory} (h : WritesHead m a length data m₁) :
    inPassages m (Span.ofRange a length) data =
      ⟨.write, a, data.take (headLength a length)⟩ ::
        inPassages m₁ (Span.ofRange (a + headLength a length) (length - headLength a length))
          (data.drop (headLength a length)) := by
  obtain ⟨pa, ht, hwrite⟩ := h.steps
  rw [ofRange_head h.pos]
  simp only [inPassages, ht, hwrite]

private theorem passed_copyIn (hf : m.Framed) (a : Nat) (hl : length ≤ data.length) :
    Passed (inPassages m (Span.ofRange a length) data) m
      (copyIn m (Span.ofRange a length) data).target := by
  refine write_induction (motive := fun m a length data =>
    Passed (inPassages m (Span.ofRange a length) data) m
      (copyIn m (Span.ofRange a length) data).target) ?done ?refused ?goesOn hf a hl
  case done => exact fun m _ _ => Passed.refl m
  case refused =>
    intro m a length data cause hpos hp hc
    rw [ofRange_head hpos]
    simp only [inPassages, copyIn, hc]
    exact Passed.refl m
  case goesOn =>
    intro m a length data m₁ h hrest
    have hpage : a % pageSize + (data.take (headLength a length)).length ≤ pageSize := by
      rw [h.chunk]
      exact headLength_page
    have hpos : 0 < (data.take (headLength a length)).length := by
      rw [h.chunk]
      exact headLength_pos h.pos
    rw [h.inPassages_eq, h.copyIn_eq]
    exact (h.wrote.passed hpos hpage h.permits).trans hrest

variable {α β : Type}

def moveOut (a length : Nat) : EStateM (Stop Errno) UserMemory CopyOut := fun m =>
  let copy := copyOut m.memory m.table (Span.ofRange a length)
  .ok copy { m with table := copy.table }

def moveIn (a length : Nat) (data : Bytes) : EStateM (Stop Errno) UserMemory CopyIn := fun m =>
  let copy := copyIn m (Span.ofRange a length) data
  .ok copy copy.target

/-- From a memory on the computation makes these passages: those of its copies, one copy after
another. What is no copy leaves every memory as it is. -/
inductive Makes : {α : Type} → EStateM (Stop Errno) UserMemory α → UserMemory → List Passage → Prop
  | leavesPages {α : Type} {x : EStateM (Stop Errno) UserMemory α} {m : UserMemory}
      (h : ∀ m, reached x m = m) : Makes x m []
  | out {m : UserMemory} {a length : Nat} :
      Makes (moveOut a length) m (outPassages m.memory m.table (Span.ofRange a length))
  | into {m : UserMemory} {a length : Nat} {data : Bytes} (hl : length ≤ data.length) :
      Makes (moveIn a length data) m (inPassages m (Span.ofRange a length) data)
  | bind {α β : Type} {x : EStateM (Stop Errno) UserMemory α}
      {f : α → EStateM (Stop Errno) UserMemory β} {m m' : UserMemory} {v : α}
      {log log' : List Passage} (hx : Makes x m log) (hv : x m = .ok v m')
      (hf : Makes (f v) m' log') : Makes (x >>= f) m (log ++ log')
  | stop {α β : Type} {x : EStateM (Stop Errno) UserMemory α}
      {f : α → EStateM (Stop Errno) UserMemory β} {m m' : UserMemory} {stop : Stop Errno}
      {log : List Passage} (hx : Makes x m log) (hstop : x m = .error stop m') :
      Makes (x >>= f) m log

section

variable {x : EStateM (Stop Errno) UserMemory α} {f : α → EStateM (Stop Errno) UserMemory β}

/-- The passages of a computation are what it does to the memory, and it is confined to the pages of
the program. -/
theorem Makes.passed (h : Makes x m log) (hf : m.Framed) :
    Passed log m (reached x m) ∧ Confined m (reached x m) := by
  induction h with
  | leavesPages hsame =>
    rw [hsame]
    exact ⟨Passed.refl _, Confined.refl _⟩
  | @out m a length =>
    obtain ⟨-, htable, -, -⟩ := copyOut_ofRange hf a length
    refine ⟨passed_copyOut hf a length, ?_⟩
    change Confined m ⟨(copyOut m.memory m.table (Span.ofRange a length)).table, m.memory⟩
    rw [htable]
    exact confined_afterRead m a _
  | @into m a length data hl =>
    obtain ⟨-, hwrote, -, -⟩ := copyIn_ofRange hf a hl
    exact ⟨passed_copyIn hf a hl, hwrote.confined⟩
  | bind hx hv _ ihx ihf =>
    obtain ⟨hfirst, hconfined⟩ := ihx hf
    rw [reached_of_ok hv] at hfirst hconfined
    obtain ⟨hrest, hconfined'⟩ := ihf (hconfined.framed hf)
    rw [reached_bind_of_ok hv]
    exact ⟨hfirst.trans hrest, hconfined.trans hconfined'⟩
  | stop hx hstop ihx =>
    have hfirst := ihx hf
    rw [reached_of_error hstop] at hfirst
    rwa [reached_bind_of_error hstop]

def Traced (x : EStateM (Stop Errno) UserMemory α) : Prop := ∀ m, ∃ log, Makes x m log

private theorem Traced.leavesPages (h : ∀ m, reached x m = m) :
    Traced x := fun _ => ⟨[], .leavesPages h⟩

private theorem Traced.pure (v : α) : Traced (pure v) := .leavesPages fun _ => rfl

private theorem Traced.refuse (e : Errno) : Traced (refuse e : EStateM (Stop Errno) UserMemory α) :=
  .leavesPages fun _ => rfl

private theorem Traced.refuse_bind (e : Errno) : Traced (PagedKernel.refuse e >>= f) :=
  .leavesPages fun _ => rfl

private theorem Traced.orRefuse (e : Errno) (o : Option α) : Traced (orRefuse e o) := by
  cases o with
  | none => exact .refuse e
  | some v => exact .pure v

theorem Traced.bind (hx : Traced x) (hf : ∀ v, Traced (f v)) : Traced (x >>= f) := by
  intro m
  obtain ⟨log, hmakes⟩ := hx m
  rcases hrun : x m with ⟨v, m'⟩ | ⟨stop, m'⟩
  · obtain ⟨log', hrest⟩ := hf v m'
    exact ⟨log ++ log', hmakes.bind hrun hrest⟩
  · exact ⟨log, hmakes.stop hrun⟩

end

private theorem fetch_eq_moveOut (a length : Nat) : (fetch a length : EStateM (Stop Errno) _ _) = do
    let m ← get
    let copy ← moveOut a (m.clamp a length)
    match copy.obstacle with
    | some (.noFrame f) => throw (.fault (.missingFrame f))
    | _ => return copy.bytes := by
  funext m
  simp only [fetch, bind, EStateM.bind, get, getThe, MonadStateOf.get, moveOut]
  delta EStateM.get
  rcases hobstacle : (copyOut m.memory m.table (Span.ofRange a (m.clamp a length))).obstacle
    with _ | ⟨_, _⟩ | f <;> simp only [hobstacle] <;> rfl

theorem store_eq_moveIn (a : Nat) (data : Bytes) :
    (store a data : EStateM (Stop Errno) _ _) = do
      let m ← get
      let copy ← moveIn a (m.clamp a data.length) data
      match copy.obstacle with
      | some (.noFrame f) => throw (.fault (.missingFrame f))
      | _ => return copy.count := by
  funext m
  simp only [store, bind, EStateM.bind, get, getThe, MonadStateOf.get, moveIn]
  delta EStateM.get
  rcases hobstacle : (copyIn m (Span.ofRange a (m.clamp a data.length)) data).obstacle
    with _ | ⟨_, _⟩ | f <;> simp only [hobstacle] <;> rfl

theorem traced_moveOut (a length : Nat) : Traced (moveOut a length) := fun _ => ⟨_, .out⟩

theorem traced_moveIn (a : Nat) (hl : length ≤ data.length) : Traced (moveIn a length data) :=
  fun _ => ⟨_, .into hl⟩

theorem traced_fetch (a length : Nat) : Traced (fetch a length) := by
  rw [fetch_eq_moveOut]
  apply Traced.bind (.leavesPages fun _ => rfl)
  intro m
  apply (traced_moveOut a (m.clamp a length)).bind
  intro copy
  split
  · exact .leavesPages fun _ => rfl
  · exact .pure _

private theorem traced_store (a : Nat) (data : Bytes) : Traced (store a data) := by
  rw [store_eq_moveIn]
  apply Traced.bind (.leavesPages fun _ => rfl)
  intro m
  apply (traced_moveIn a (Nat.min_le_left ..)).bind
  intro copy
  split
  · exact .leavesPages fun _ => rfl
  · exact .pure _

theorem reached_checkRange (a length : Nat) (access : Access) (m : UserMemory) :
    reached (checkRange a length access) m = m := by
  rw [reached, checkRange_eq]
  cases m.rangeOk a length access <;> rfl

theorem traced_checkRange (a length : Nat) (access : Access) :
    Traced (checkRange a length access) := .leavesPages (reached_checkRange a length access)

theorem traced_pointer (r : Int32) : Traced (pointer r) :=
  Traced.bind (.leavesPages fun _ => rfl) fun m => .orRefuse _ (m.table.pointer? r)

private theorem traced_getBytes (a length : Nat) : Traced (getBytes a length) := by
  unfold getBytes
  apply (traced_checkRange a length .read).bind
  intro _
  apply (traced_fetch a length).bind
  intro data
  split
  · exact .pure _
  · exact .refuse _

theorem traced_putBytes (a : Nat) (data : Bytes) : Traced (putBytes a data) := by
  unfold putBytes
  apply (traced_checkRange a data.length .write).bind
  intro _
  apply (traced_store a data).bind
  intro count
  split
  · exact .pure _
  · exact .refuse _

theorem traced_getWord (a : Nat) : Traced (getWord a) :=
  (traced_getBytes a 4).bind fun _ => .pure _

theorem traced_putWord (a : Nat) (w : UInt32) : Traced (putWord a w) :=
  traced_putBytes a (wordBytes w)

theorem traced_getString (a maxLength : Nat) : Traced (getString a maxLength) := by
  unfold getString
  apply (traced_fetch a (maxLength + 1)).bind
  intro data
  split
  · exact .orRefuse _ _
  · exact .refuse _

end UserMemory

namespace ArgumentArea

open UserMemory

private theorem traced_push (area : ArgumentArea) (index : Nat) (arg : String) :
    Traced (area.push index arg) := by
  unfold push
  apply (traced_store _ _).bind
  intro count
  split
  · exact .refuse_bind _
  · apply (traced_store _ _).bind
    intro count
    split
    · exact .refuse_bind _
    · exact .pure _

private theorem traced_pushAll (area : ArgumentArea) (index : Nat) (args : List String) :
    Traced (area.pushAll index args) := by
  induction args generalizing area index with
  | nil => exact .pure _
  | cons arg rest ih => exact (traced_push area index arg).bind fun area => ih area (index + 1)

/-- The arguments are written by nothing but passages. -/
theorem traced_finish (area : ArgumentArea) (args : List String) : Traced (area.finish args) := by
  unfold finish
  apply (traced_pushAll area 0 args).bind
  intro area
  exact .orRefuse _ _

end ArgumentArea

end PagedKernel

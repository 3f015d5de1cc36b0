import PagedKernel.Proofs.Kernel.Passing
import PagedKernel.Proofs.Memory.Flat
import PagedKernel.User.Script

/-!
# The arguments of a program

A program that was loaded with arguments has their number and the address of their pointers in its
registers, and the pointers lead to the strings. A program that loads them byte by byte finds the
strings that were passed, and leaves nothing behind but the marks of the pages that it used.
-/

namespace PagedKernel

namespace UserMemory

variable {m m' : UserMemory} {r : Registers} {args : List String}

/-- A program is given arguments in its registers and in its memory. -/
structure Given (m : UserMemory) (r : Registers) (args : List String) : Prop where
  count : (r.get .a0).toInt = args.length
  stack : r.get .a1 = r.get .sp
  points : m.Points (r.get .a1).toUInt32.toNat args

theorem Alike.given (h : Alike m m') (hm : m.Given r args) : m'.Given r args :=
  ⟨hm.count, hm.stack, h.points hm.points⟩

end UserMemory

namespace Loader

open UserMemory

variable {data : Bytes} {entry stackPages : Nat} {sections : List Section} {args : List String}
variable {m : UserMemory} {r : Registers}

private theorem Loaded.permits_read (h : Loaded data entry sections stackPages args m r)
    (hpages : pagesNeeded sections stackPages ≤ maxPages) {a : Nat}
    (ha : a < pagesNeeded sections stackPages * pageSize) : m.table.permits .read a = true := by
  have hlength := h.length
  have hpage : a / pageSize < m.table.entries.length := by
    simp only [PageTable.length, pagesNeeded, pageSize] at *
    omega
  have he := List.getElem?_eq_getElem hpage
  obtain ⟨-, hvalid, -⟩ := h.marks _ _ he
  refine PageTable.permits_iff.2 ⟨?_, _, he, hvalid, rfl⟩
  simp only [pageSize, maxPages, addressLimit] at *
  omega

private theorem Loaded.given (h : Loaded data entry sections stackPages args m r) (hf : m.Framed)
    (hsize : ArgumentArea.sizeOf args ≤ pageSize)
    (hpages : pagesNeeded sections stackPages ≤ maxPages)
    (hz : ∀ arg ∈ args, 0 ∉ Text.utf8 arg) : m.Given r args := by
  have hsizeOf := ArgumentArea.sizeOf_eq args
  have hlimit : (Section.totalPages sections + stackPages) * pageSize ≤ addressLimit := by
    simp only [pagesNeeded, maxPages, pageSize, addressLimit] at *
    omega
  obtain ⟨argv, hargv⟩ : ∃ argv : VirtualAddress,
      argv.toNat = (Section.totalPages sections + stackPages) * pageSize := ⟨⟨_, hlimit⟩, rfl⟩
  have hread : ∀ a, a < argv.toNat + pageSize → m.table.permits .read a = true := by
    intro a ha
    apply h.permits_read hpages
    simp only [pagesNeeded, pageSize] at *
    omega
  have hpage := h.argumentByte
  rw [← hargv] at hpage
  have ha1 : (r.get .a1).toUInt32.toNat = argv.toNat := by
    rw [h.registers, hargv]
    exact UInt32.toNat_ofNat_of_lt' (Nat.lt_succ_of_le hlimit)
  refine ⟨?_, ?_, ?_⟩
  · rw [h.registers]
    apply Int32.toInt_ofNat_of_lt
    simp only [ArgumentArea.pointerSize, pageSize] at *
    omega
  · rw [h.registers, h.registers]
    rfl
  · intro j arg hj
    have hlt : j < args.length := (List.getElem?_eq_some_iff.1 hj).1
    obtain ⟨address, ⟨hlow, hup⟩, hpointer, hstring⟩ :=
      exists_pointer hargv hpage hsize hj
    have hpos : 0 < address.toNat := Nat.zero_lt_of_lt hlow
    have hne : address ≠ 0 := fun hzero => hpos.ne' (UInt32.toNat_inj.2 hzero)
    refine ⟨address, hne, ?_, ?_, hz arg (List.mem_of_getElem? hj)⟩
    · rw [← hpointer, ha1]
      apply holds_bytesAt hf
      intro i hi
      apply hread
      simp only [ArgumentArea.pointerSize, pageSize] at hsizeOf hsize ⊢
      omega
    · rw [← hstring]
      apply holds_bytesAt hf
      intro i hi
      apply hread
      omega

end Loader

theorem Kernel.Runs.given {k k' : Kernel} {name : String} {args : List String} {p : Process}
    (h : k.Runs k' name args p) (hf : UserMemory.Framed ⟨p.table, k'.machine.memory⟩)
    (hz : ∀ arg ∈ args, 0 ∉ Text.utf8 arg) :
    UserMemory.Given ⟨p.table, k'.machine.memory⟩ p.registers args := by
  obtain ⟨data, entry, sections, hcontents, hdeclares, hloaded⟩ := h.loaded
  have hplaced := Section.misplaced?_eq_none_iff.1 hloaded.placed
  have hsize : ArgumentArea.sizeOf args ≤ pageSize := by
    apply Nat.le_of_not_lt
    intro hlong
    exact h.unhindered _ (.hindered hcontents hdeclares (.argumentsTooLong hplaced hlong))
  have hpages : Loader.pagesNeeded sections k.machine.config.stackPages ≤ Loader.maxPages := by
    apply Nat.le_of_not_lt
    intro hmany
    exact h.unhindered _
      (.hindered hcontents hdeclares (.outOfMemory hplaced hsize (Or.inr hmany)))
  exact hloaded.given hf hsize hpages hz

namespace Turn

open UserMemory

variable {α β : Type} {t t' : Turn} {x : Call α} {f : α → Call β} {v : α} {u : β} {a fuel : Nat}
variable {data : Bytes} {s : String} {args : List String}

private theorem yields_loadBytes (hf : t.memory.Framed) (h : t.memory.Holds a data) :
    Yields (loadBytes a data.length) t data := by
  have hreach : t.self.table.reach .read a data.length = data.length :=
    PageTable.reach_eq_length_iff.2 fun i hi => (h i hi).1
  have hcopy := copyOut_ofRange hf a data.length
  simp only [Turn.memory, hreach] at hcopy
  obtain ⟨hbytes, htable, hobstacle, -⟩ := hcopy
  have hdata : t.memory.bytesAt a data.length = data := h.bytesAt_eq
  refine ⟨{ t with self.table := t.self.table.touched .read a data.length }, ?_, ?_⟩
  · apply Ensures.eq_ok
    unfold loadBytes
    simp only [ensures_bind, ensures_get, modifySelf, ensures_modify, hobstacle.2 trivial,
      ensures_pure, hbytes, htable]
    exact ⟨hdata, trivial⟩
  · exact looks_of_peeked (peeked_afterRead t.memory a data.length)

theorem exists_storeBytes_eq (hf : t.memory.Framed) (hn : t.self.table.mapped.Nodup)
    (hw : ∀ i < data.length, t.self.table.permits .write (a + i) = true) :
    ∃ t', storeBytes a data t = .ok ⟨⟩ t' ∧ t'.memory.Holds a data := by
  have hreach : t.memory.table.reach .write a data.length = data.length :=
    PageTable.reach_eq_length_iff.2 hw
  obtain ⟨-, hwrote, hobstacle, -⟩ := copyIn_ofRange hf a (Nat.le_refl data.length)
  rw [hreach, List.take_length] at hwrote
  have hdone := hobstacle.2 hreach
  let m := (copyIn t.memory (Span.ofRange a data.length) data).target
  refine ⟨{ t with self.table := m.table, kernel.machine.memory := m.memory }, ?_, ?_⟩
  · apply Ensures.eq_ok
    unfold storeBytes
    rw [ensures_bind, ensures_get]
    simp only [Turn.memory] at hdone
    simp only [ensures_bind, ensures_set, hdone]
    exact ⟨trivial, rfl⟩
  · exact hwrote.holds hn hw

private theorem yields_loadWord {address w : UInt32} (hf : t.memory.Framed)
    (h : t.memory.Holds address.toNat (wordBytes w)) : Yields (loadWord address) t w := by
  have hload := yields_loadBytes hf h
  rw [length_wordBytes] at hload
  apply hload.bind
  intro t' _ _
  rw [wordOfBytes_wordBytes]
  exact Yields.pure w t'

/-- Bytes are loaded up to the first zero. -/
theorem yields_loadUntilZero (hf : t.memory.Framed) (h : t.memory.Holds a (data ++ [0]))
    (hz : 0 ∉ data) (hfuel : data.length < fuel) : Yields (loadUntilZero a fuel) t data := by
  induction fuel generalizing a data t with
  | zero => omega
  | succ fuel ih =>
    cases data with
    | nil =>
      have hload : Yields (loadBytes a 1) t [0] := yields_loadBytes hf h
      apply hload.bind
      intro t' _ _
      exact Yields.pure [] t'
    | cons b data =>
      obtain ⟨hfirst, hrest⟩ := holds_cons.1 h
      have hnil : t.memory.Holds (a + 1) [] := fun i hi => absurd hi (Nat.not_lt_zero i)
      have hb : t.memory.Holds a [b] := holds_cons.2 ⟨hfirst, hnil⟩
      have hload : Yields (loadBytes a 1) t [b] := yields_loadBytes hf hb
      have hne : b ≠ 0 := fun hzero => hz (hzero ▸ List.mem_cons_self ..)
      apply hload.bind
      intro t' _ hlooks
      simp only [hne, if_false]
      have hlater : Yields (loadUntilZero (a + 1) fuel) t' data :=
        ih (hlooks.framed hf) (hlooks.alike.holds hrest)
          (fun hmem => hz (List.mem_cons_of_mem _ hmem)) (Nat.lt_of_succ_lt_succ hfuel)
      apply hlater.bind
      intro t'' _ _
      exact Yields.pure (b :: data) t''

theorem yields_loadString {address : UInt32} (hf : t.memory.Framed)
    (h : t.memory.HoldsString address.toNat s) : Yields (loadString address) t s := by
  have hget : Yields (get : Call Turn) t t := ⟨t, rfl, Looks.refl t⟩
  unfold loadString
  apply hget.bind
  intro t' hsame _
  cases hsame
  have hinside : address.toNat + (Text.utf8 s).length < t.self.table.size := by
    have hlast := (h.bytes (Text.utf8 s).length (by simp [ArgumentArea.terminated])).1
    exact (PageTable.movable_iff.2 hlast).inside
  have hload : Yields (loadUntilZero address.toNat (t.self.table.size - address.toNat + 1)) t
      (Text.utf8 s) := yields_loadUntilZero hf h.bytes h.noZero (by omega)
  apply hload.bind
  intro t' _ _
  rw [Text.ofUtf8Lossy_of_wellFormed (Text.ofUtf8?_utf8 s)]
  exact Yields.pure s t'

private theorem yields_loadStrings {address : UInt32} (hf : t.memory.Framed)
    (h : t.memory.Points address.toNat args) : Yields (loadStrings address args.length) t args := by
  induction args generalizing address t with
  | nil => exact Yields.pure [] t
  | cons arg rest ih =>
    obtain ⟨⟨pointer, -, hpointer, hstring⟩, hrest⟩ := points_cons.1 h
    rw [List.length_cons, loadStrings]
    apply (yields_loadWord hf hpointer).bind
    intro t₁ _ hlooks₁
    apply (yields_loadString (hlooks₁.framed hf) (hlooks₁.alike.holdsString hstring)).bind
    intro t₂ _ hlooks₂
    have hlooks := hlooks₁.trans hlooks₂
    have hlater : t₂.memory.Points (address + 4).toNat rest := by
      cases rest with
      | nil => exact points_nil
      | cons arg' rest =>
        -- The next pointer can be read, so that the address of it does not wrap around.
        obtain ⟨⟨pointer', -, hnext, -⟩, -⟩ := points_cons.1 hrest
        have hlimit := (PageTable.permits_iff.1 (hnext 0 (by rw [length_wordBytes]; decide)).1).1
        have haddress : (address + 4).toNat = address.toNat + ArgumentArea.pointerSize := by
          rw [UInt32.toNat_add]
          apply Nat.mod_eq_of_lt
          exact Nat.lt_succ_of_le hlimit
        rw [haddress]
        exact hlooks.alike.points hrest
    apply (ih (hlooks.framed hf) hlater).bind
    intro t₃ _ _
    exact Yields.pure (arg :: rest) t₃

/-- A program that asks for its arguments sees what it is given. -/
theorem yields_arguments {r : Registers} (vars : Kept) (hf : t.memory.Framed)
    (h : t.memory.Given r args) :
    Yields (perform vars (r.get .a0) (r.get .a1).toUInt32 .arguments) t (.texts args) := by
  have hload := yields_loadStrings hf h.points
  have hcount : (r.get .a0).toInt.toNat = args.length := by
    rw [h.count]
    rfl
  rw [← hcount] at hload
  unfold perform
  apply hload.bind
  intro t' _ _
  exact Yields.pure (Reply.texts args) t'

end Turn

end PagedKernel

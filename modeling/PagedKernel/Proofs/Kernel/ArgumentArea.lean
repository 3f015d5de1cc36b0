import Mathlib.Data.List.Perm.Subperm
import PagedKernel.Proofs.Kernel.Accessors
import PagedKernel.Proofs.Loader.Written
import PagedKernel.Proofs.Memory.Addresses

/-!
# Writing arguments

Pointers go into one part of the memory and strings into another, and both parts grow with each
argument. They never meet, because there is room for all pointers in front of the strings. So each
byte is written once, and the bytes that are written are as many as the arguments are said to take.
-/

namespace PagedKernel

private theorem PageTable.writable_iff {t : PageTable} {a n : Nat} :
    t.Writable a n ↔ ∀ b ∈ List.range' a n, t.Movable .write b := by
  simp only [List.mem_range'_1, movable_iff]
  constructor
  · rintro h b ⟨hlow, hup⟩
    have hb := h (b - a) (by omega)
    rwa [Nat.add_sub_cancel' hlow] at hb
  · intro h i hi
    exact h (a + i) ⟨by omega, by omega⟩

private theorem Loader.Filled.proper {machine : Machine} {name : String} {args : List String}
    {s : AddressSpace} (h : Filled machine name args s) (hn : machine.pool.queue.Nodup) :
    UserMemory.Proper ⟨s.table, s.machine.memory⟩ := by
  refine ⟨h.fresh.2, ?_⟩
  obtain ⟨hopen, hmap, hsections⟩ := h
  rename_i image image' s₀ s₁ count
  obtain ⟨hs, hempty, hpool, hmemory, -⟩ := (ensures_openImage args).of_ok hopen
  obtain ⟨-, frames, pool, htaken, hheld, hs₁⟩ := AddressSpace.ensures_map.of_ok hmap
  obtain ⟨htable, -⟩ := (ensures_loadSections image 0 image.sections s₁).of_ok hsections
  rw [hpool, hs.config, total_regions] at htaken
  rw [hmemory] at hheld
  rw [hs.config] at hs₁
  have hfresh := hs.fresh hempty hmemory htaken hheld
  rw [← hs₁] at hfresh
  change s.table.mapped.Nodup
  rw [htable]
  exact hfresh.toMapped.nodup hn

namespace ArgumentArea

open UserMemory

variable {m m' : UserMemory} {area : ArgumentArea} {args : List String} {t : PageTable}
variable {first cursor : Nat}

def extent (args : List String) : Nat := (args.map fun arg => (Text.utf8 arg).length + 1).sum

/-- The addresses of arguments: a slot of four bytes for each pointer, and the strings with their
terminators. -/
def footprint (first cursor : Nat) (args : List String) : List Nat :=
  List.range' first (pointerSize * args.length) ++ List.range' cursor (extent args)

private theorem length_terminated (arg : String) :
    (terminated arg).length = (Text.utf8 arg).length + 1 :=
  List.length_append

private theorem extent_cons (arg : String) (rest : List String) :
    extent (arg :: rest) = (terminated arg).length + extent rest := by
  rw [extent, List.map_cons, List.sum_cons, length_terminated, extent]

private theorem extent_singleton (arg : String) : extent [arg] = (terminated arg).length := by
  rw [extent_cons, extent, List.map_nil, List.sum_nil, Nat.add_zero]

private theorem length_strings (args : List String) : (strings args).length = extent args := by
  simp only [strings, extent, List.length_flatMap, length_terminated]

private theorem extent_take_le (args : List String) (i : Nat) : extent (args.take i) ≤ extent args := by
  have hsplit : extent args = extent (args.take i) + extent (args.drop i) := by
    rw [extent, extent, extent, ← List.sum_append, ← List.map_append, List.take_append_drop]
  omega

/-- The arguments take as many bytes as they are said to. -/
theorem length_footprint (first cursor : Nat) (args : List String) :
    (footprint first cursor args).length = sizeOf args := by
  rw [footprint, List.length_append, List.length_range', List.length_range', sizeOf_eq,
    length_strings]

/-- Pointers and strings do not meet. -/
theorem nodup_footprint (h : first + pointerSize * args.length ≤ cursor) :
    (footprint first cursor args).Nodup := by
  refine List.nodup_append.2 ⟨List.nodup_range', List.nodup_range', ?_⟩
  rintro a ha b hb rfl
  have hslot := (List.mem_range'_1.1 ha).2
  have hstring := (List.mem_range'_1.1 hb).1
  omega

/-- Without room to spare, pointers and strings lie in one row. -/
theorem footprint_row (first : Nat) (args : List String) :
    footprint first (first + pointerSize * args.length) args = List.range' first (sizeOf args) := by
  rw [footprint, List.range'_append_1, sizeOf_eq, length_strings]

private theorem footprint_cons (first cursor : Nat) (arg : String) (rest : List String) :
    (footprint first cursor [arg] ++
      footprint (first + pointerSize) (cursor + (terminated arg).length) rest).Perm
      (footprint first cursor (arg :: rest)) := by
  have hslots : pointerSize * (arg :: rest).length = pointerSize + pointerSize * rest.length := by
    rw [List.length_cons, Nat.mul_succ, Nat.add_comm]
  rw [footprint, footprint, footprint, hslots, extent_singleton, extent_cons,
    ← List.range'_append_1, ← List.range'_append_1, List.append_assoc, List.append_assoc]
  exact (List.perm_append_comm_assoc ..).append_left _

private theorem fits_iff : area.Fits 0 args t ↔
    ∀ b ∈ footprint area.argv area.cursor args, t.Movable .write b := by
  rw [Fits, PageTable.writable_iff, PageTable.writable_iff, length_strings, footprint,
    List.forall_mem_append, Nat.mul_zero, Nat.add_zero]

section

variable {α β : Type} {x : EStateM (Stop Errno) UserMemory α}
variable {f : α → EStateM (Stop Errno) UserMemory β} {a b : List Nat}

/-- From a memory on, the computation does nothing but write to the given addresses, to each of them
once at most. If it returns, it has written to all of them. -/
def WritesAll (x : EStateM (Stop Errno) UserMemory α) (m : UserMemory) (area : List Nat) : Prop :=
  ∃ log written, Makes x m log ∧ WritesAt log written ∧ written.Subperm area ∧
    ∀ v m', x m = .ok v m' → written.Perm area

private theorem WritesAll.leavesPages (h : ∀ m, reached x m = m) : WritesAll x m [] :=
  ⟨[], [], .leavesPages h, .nil, .refl _, fun _ _ _ => .refl _⟩

private theorem WritesAll.perm (h : WritesAll x m a) (hp : a.Perm b) : WritesAll x m b := by
  obtain ⟨log, written, hmakes, hwrites, hsub, hall⟩ := h
  refine ⟨log, written, hmakes, hwrites, hsub.trans hp.subperm, ?_⟩
  intro v m' hx
  exact (hall v m' hx).trans hp

private theorem WritesAll.bind (hx : WritesAll x m a)
    (hf : ∀ v m', x m = .ok v m' → WritesAll (f v) m' b) :
    WritesAll (x >>= f) m (a ++ b) := by
  obtain ⟨log, written, hmakes, hwrites, hsub, hall⟩ := hx
  rcases hrun : x m with ⟨v, m'⟩ | ⟨stop, m'⟩
  · obtain ⟨log', written', hmakes', hwrites', hsub', hall'⟩ := hf v m' hrun
    refine ⟨log ++ log', written ++ written', hmakes.bind hrun hmakes', hwrites.append hwrites',
      hsub.append hsub', ?_⟩
    intro u m'' hbind
    rw [bind_of_ok hrun] at hbind
    exact (hall v m' hrun).append (hall' u m'' hbind)
  · refine ⟨log, written, hmakes.stop hrun, hwrites,
      hsub.trans (List.sublist_append_left a b).subperm, ?_⟩
    intro u m'' hbind
    rw [bind_of_error hrun] at hbind
    cases hbind

/-- A store that is refused unless all its data was written. -/
theorem writesAll_store_bind {f : Nat → EStateM (Stop Errno) UserMemory β} (hf : m.Framed)
    (address : Nat) (data : Bytes)
    (hshort : ∀ n ≠ data.length, ∃ g : PUnit → EStateM (Stop Errno) UserMemory β,
      f n = refuse .badAddress >>= g)
    (hnext : ∀ m', Confined m m' → WritesAll (f data.length) m' b) :
    WritesAll (store address data >>= f) m (List.range' address data.length ++ b) := by
  obtain ⟨log, hmakes, hwrites⟩ := exists_makes_store hf address data
  obtain ⟨m', hstore, hwrote⟩ := store_eq (ε := Errno) hf address data
  have hle := m.table.reach_le .write address data.length
  generalize m.table.reach .write address data.length = n at *
  by_cases hn : n = data.length
  · subst hn
    refine WritesAll.bind ⟨log, _, hmakes, hwrites, .refl _, fun _ _ _ => .refl _⟩ ?_
    intro v m'' hrun
    cases hstore.symm.trans hrun
    exact hnext m' hwrote.confined
  · obtain ⟨g, hg⟩ := hshort n hn
    have hprefix : (List.range' address n).Subperm (List.range' address data.length ++ b) := by
      have hrange : (List.range' address n).Sublist (List.range' address data.length) :=
        List.range'_sublist_right.2 hle
      exact (hrange.trans (List.sublist_append_left ..)).subperm
    refine ⟨log ++ [], _, hmakes.bind hstore (.leavesPages ?_), hwrites.append .nil, ?_, ?_⟩
    · intro m''
      rw [hg]
      rfl
    · rwa [List.append_nil]
    · intro v m'' hrun
      rw [bind_of_ok hstore, hg] at hrun
      cases hrun

end

/-- One argument fills its slot, and its place among the strings. -/
theorem writesAll_push (hf : m.Framed) (area : ArgumentArea) (index : Nat) (arg : String) :
    WritesAll (area.push index arg) m
      (footprint (area.argv + pointerSize * index) area.cursor [arg]) := by
  have hfootprint : footprint (area.argv + pointerSize * index) area.cursor [arg] =
      List.range' (area.argv + pointerSize * index)
        (wordBytes (UInt32.ofNat area.cursor)).length ++
      (List.range' area.cursor (terminated arg).length ++ []) := by
    rw [length_wordBytes, List.append_nil, footprint, extent_singleton]
    rfl
  rw [hfootprint]
  unfold push
  apply writesAll_store_bind hf
  · intro n hn
    exact ⟨_, if_pos (by rwa [length_wordBytes] at hn)⟩
  · intro m₁ hconfined
    rw [length_wordBytes, if_neg (fun hne => hne rfl)]
    apply writesAll_store_bind (hconfined.framed hf)
    · intro n hn
      exact ⟨_, if_pos hn⟩
    · intro m₂ _
      rw [if_neg (fun hne => hne rfl)]
      exact .leavesPages fun _ => rfl

private theorem writesAll_pushAll (hf : m.Framed) (area : ArgumentArea) (index : Nat)
    (args : List String) :
    WritesAll (area.pushAll index args) m
      (footprint (area.argv + pointerSize * index) area.cursor args) := by
  induction args generalizing m area index with
  | nil => exact .leavesPages fun _ => rfl
  | cons arg rest ih =>
    have hslot : area.argv + pointerSize * (index + 1) =
        area.argv + pointerSize * index + pointerSize := by
      rw [Nat.mul_succ, Nat.add_assoc]
    refine ((writesAll_push hf area index arg).bind ?_).perm (footprint_cons ..)
    intro area' m₁ hpush
    obtain ⟨rfl, -, m₂, hpointer, hstring⟩ := (ensures_push hf area index arg).of_ok hpush
    have hrest := ih (hstring.framed (hpointer.framed hf))
      { area with cursor := area.cursor + (terminated arg).length } (index + 1)
    rwa [hslot] at hrest

/-- All that is written is written to the places of the pointers and the strings. -/
theorem writesAll_finish (hf : m.Framed) (area : ArgumentArea) (args : List String) :
    WritesAll (area.finish args) m (footprint area.argv area.cursor args) := by
  have hall := writesAll_pushAll hf area 0 args
  rw [Nat.mul_zero, Nat.add_zero] at hall
  rw [← List.append_nil (footprint area.argv area.cursor args)]
  refine hall.bind fun area' m' _ => .leavesPages ?_
  intro m''
  cases VirtualAddress.ofNat? area'.argv <;> rfl

/-- Arguments as they lie in memory: each pointer is the address of its string, and the strings lie
one behind another, each with one zero byte at its end. -/
structure Written (first cursor : Nat) (args : List String) (m : UserMemory) : Prop where
  pointer : ∀ i < args.length, ∃ p : UInt32, p.toNat = cursor + extent (args.take i) ∧
    m.Holds (first + pointerSize * i) (wordBytes p)
  string : ∀ (i : Nat) (arg : String), args[i]? = some arg →
    m.Holds (cursor + extent (args.take i)) (Text.utf8 arg ++ [0])

section

variable (h : Laid area 0 args m m') (hfits : area.Fits 0 args m.table)
variable (hn : m.table.mapped.Nodup) (hroom : area.argv + pointerSize * args.length ≤ area.cursor)

include h hfits hn hroom

private theorem Laid.holds_pointers : m'.Holds area.argv (pointers area.cursor args) := by
  have hwritable := hfits.1
  rw [Nat.mul_zero, Nat.add_zero, ← length_pointers area.cursor args] at hwritable
  refine holds_of_permits h.confined.mapping hwritable fun i hi => ?_
  rw [length_pointers] at hi
  rw [h.byte hn (by rwa [Nat.zero_add]), Nat.mul_zero, Nat.add_zero, Nat.zero_add,
    if_pos (by omega), Nat.add_sub_cancel_left]

private theorem Laid.holds_strings : m'.Holds area.cursor (strings args) := by
  refine holds_of_permits h.confined.mapping hfits.2 fun i hi => ?_
  rw [h.byte hn (by rwa [Nat.zero_add]), Nat.mul_zero, Nat.add_zero, Nat.zero_add,
    if_neg (by omega), if_pos (by omega), Nat.add_sub_cancel_left]

private theorem Laid.written (hlimit : area.cursor + extent args ≤ addressLimit) :
    Written area.argv area.cursor args m' where
  pointer i hi := by
    have hle := extent_take_le args i
    have hpointer := (h.holds_pointers hfits hn hroom).part (pointerSize * i) pointerSize
    rw [pointers_slice _ hi, length_strings] at hpointer
    have hfit : area.cursor + extent (args.take i) ≤ addressLimit := by omega
    exact ⟨_, UInt32.toNat_ofNat_of_lt' (Nat.lt_succ_of_le hfit), hpointer⟩
  string i arg hi := by
    have hstring := (h.holds_strings hfits hn hroom).part (strings (args.take i)).length
      (terminated arg).length
    rwa [strings_slice hi, length_strings] at hstring

end

private theorem finish_nil (argv : VirtualAddress) (argc : Nat) (m : UserMemory) :
    (start argv argc).finish [] m = .ok argv m := by
  have hargv : VirtualAddress.ofNat? (start argv argc).argv = some argv :=
    VirtualAddress.ofNat?_eq_some_iff.2 rfl
  have hall : (start argv argc).pushAll 0 [] m = .ok (start argv argc) m := rfl
  rw [finish, bind_of_ok hall, hargv]
  rfl

/-- Arguments are written if and only if all the bytes that they take may be. -/
theorem finish_eq_ok_iff (hf : m.Framed) (argv : VirtualAddress) (argc : Nat)
    (args : List String) : (∃ m', (start argv argc).finish args m = .ok argv m') ↔
      ∀ b ∈ footprint argv.toNat (argv.toNat + pointerSize * argc) args,
        m.table.Movable .write b := by
  have hfinish := ensures_finish hf argv argc args
  have hfits : (start argv argc).Fits 0 args m.table ↔ _ := fits_iff
  rw [start] at hfits
  rw [← hfits]
  constructor
  · rintro ⟨m', hrun⟩
    exact (hfinish.of_ok hrun).2.1
  · intro hall
    rcases hrun : (start argv argc).finish args m with ⟨v, m'⟩ | ⟨stop, m'⟩
    · obtain ⟨rfl, -, -⟩ := hfinish.of_ok hrun
      exact ⟨m', rfl⟩
    · exact absurd hall (hfinish.of_error hrun).2.2

/-- Whatever address space there is, one that a load fills included, and whatever the arguments and
the room for their pointers: the arguments are written if and only if all the bytes that they take
may be written, as those of no arguments always may. Then each of these bytes is written once, they
are as many as the arguments are said to take, and pointers and strings are there. Whether they are
written or refused, no other byte is, and no page is marked but those of the bytes that were. -/
theorem writes_exactly :
    (∀ m : UserMemory, m.Reachable → m.Proper) ∧
    (∀ (machine : Machine) (name : String) (args : List String) (s : AddressSpace),
      machine.pool.queue.Nodup → Loader.Filled machine name args s →
      UserMemory.Proper ⟨s.table, s.machine.memory⟩) ∧
    ∀ (m : UserMemory) (argv : VirtualAddress) (argc : Nat) (args : List String), m.Proper →
      args.length ≤ argc → argv.toNat + pointerSize * argc + extent args ≤ addressLimit →
      let cursor := argv.toNat + pointerSize * argc
      let area := footprint argv.toNat cursor args
      let x := (start argv argc).finish args
      area.Nodup ∧ area.length = sizeOf args ∧
      (argc = args.length → area = List.range' argv.toNat (sizeOf args)) ∧
      ((∃ m', x m = .ok argv m') ↔ ∀ b ∈ area, m.table.Movable .write b) ∧
      (args = [] → x m = .ok argv m) ∧
      (∀ stop m', x m = .error stop m' → stop = .refused .badAddress) ∧
      ∃ log written, Makes x m log ∧ WritesAt log written ∧ written.Subperm area ∧
        Altered written m (reached x m) ∧
        ∀ v m', x m = .ok v m' → v = argv ∧ written.Perm area ∧
          Written argv.toNat cursor args m' := by
  refine ⟨fun m h => h.proper, fun _ _ _ _ hn h => h.proper hn, ?_⟩
  intro m argv argc args hm hargc hlimit cursor area x
  have hroom : argv.toNat + pointerSize * args.length ≤ cursor := by
    have hle := Nat.mul_le_mul_left pointerSize hargc
    omega
  have hfinish := ensures_finish hm.framed argv argc args
  refine ⟨nodup_footprint hroom, length_footprint .., ?_, finish_eq_ok_iff hm.framed argv argc args,
    ?_, ?_, ?_⟩
  · intro hexact
    simp only [area, cursor, hexact]
    exact footprint_row argv.toNat args
  · rintro rfl
    exact finish_nil argv argc m
  · intro stop m' hrun
    exact (hfinish.of_error hrun).1
  · obtain ⟨log, written, hmakes, hwrites, hsub, hall⟩ :=
      writesAll_finish hm.framed (start argv argc) args
    refine ⟨log, written, hmakes, hwrites, hsub, hmakes.altered hwrites hm.framed hm.distinct, ?_⟩
    intro v m' hrun
    obtain ⟨rfl, hfit, hlaid⟩ := hfinish.of_ok hrun
    exact ⟨rfl, hall v m' hrun, hlaid.written hfit hm.distinct hroom hlimit⟩

/-- The strings end with the last byte of a page that may be written. With room for one pointer more
they would not, and the arguments are refused. -/
theorem writes_exactly_sample : sampleMemory.Reachable ∧
    (∃ m', (start ⟨8176, by decide⟩ 3).finish ["ab", ""] sampleMemory = .ok ⟨8176, by decide⟩ m' ∧
      Written 8176 8188 ["ab", ""] m' ∧
      ∀ b ∉ footprint 8176 8188 ["ab", ""], m'.byte? b = sampleMemory.byte? b) ∧
    ∃ m', (start ⟨8176, by decide⟩ 4).finish ["ab", ""] sampleMemory =
        .error (.refused .badAddress) m' ∧
      ∀ b ∉ footprint 8176 8192 ["ab", ""], m'.byte? b = sampleMemory.byte? b := by
  obtain ⟨hproper, -, hexact⟩ := writes_exactly
  have hm := hproper sampleMemory reachable_sampleMemory
  obtain ⟨-, -, -, hreturns, -, -, log, written, -, -, hsub, haltered, hdone⟩ :=
    hexact sampleMemory ⟨8176, by decide⟩ 3 ["ab", ""] hm (by decide) (by decide +kernel)
  obtain ⟨-, -, -, hreturns', -, hstops, log', written', -, -, hsub', haltered', hdone'⟩ :=
    hexact sampleMemory ⟨8176, by decide⟩ 4 ["ab", ""] hm (by decide) (by decide +kernel)
  simp only [PageTable.movable_iff] at hreturns hreturns'
  refine ⟨reachable_sampleMemory, ?_, ?_⟩
  · obtain ⟨m', hrun⟩ := hreturns.2 (by decide +kernel)
    rw [reached_of_ok hrun] at haltered
    exact ⟨m', hrun, (hdone _ m' hrun).2.2, fun b hb => haltered.kept b fun h => hb (hsub.subset h)⟩
  · rcases hrun : (start ⟨8176, by decide⟩ 4).finish ["ab", ""] sampleMemory with
      ⟨v, m'⟩ | ⟨stop, m'⟩
    · obtain ⟨rfl, -, -⟩ := hdone' v m' hrun
      exact absurd (hreturns'.1 ⟨m', hrun⟩) (by decide +kernel)
    · obtain rfl := hstops stop m' hrun
      rw [reached_of_error hrun] at haltered'
      exact ⟨m', rfl, fun b hb => haltered'.kept b fun h => hb (hsub'.subset h)⟩

end ArgumentArea

end PagedKernel

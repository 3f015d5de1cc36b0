import PagedKernel.Proofs.Kernel.AddressSpaces
import PagedKernel.Proofs.Memory.Spelling
import PagedKernel.Proofs.User.Arguments

/-!
# The kernel and the program read the same strings

The kernel reads a string in one copy that may run far behind its end. It finds what a reader finds
that stops at the first zero byte, and what a program finds that loads the string byte by byte.
-/

namespace PagedKernel.UserMemory

open Turn

variable {m : UserMemory} {a k most : Nat} {s : String} {r : Except Errno String}

private theorem Spells.yields_loadString (hf : m.Framed) (h : m.Spells a most (.ok s)) {t : Turn}
    (hpeeked : Peeked m t.memory) {address : UInt32} (haddress : address.toNat = a) :
    Yields (loadString address) t s := by
  have hstring := hpeeked.alike.holdsString (h.holdsString hf)
  rw [← haddress] at hstring
  exact Turn.yields_loadString (hpeeked.framed hf) hstring

/-- What is found is a string of at most `most` bytes if and only if its encoding and a zero byte
behind it can be read; it is malformed if they are no encoding, too long if that many bytes and one
more can be read and none of them is zero, and out of reach in all other cases. -/
theorem Spells.outcomes (h : m.Spells a most r) :
    (∀ s, r = .ok s ↔ ∃ k ≤ most, m.EndsAt a k ∧ Text.utf8 s = m.bytesAt a k) ∧
    (r = .error .invalidArgument ↔
      ∃ k ≤ most, m.EndsAt a k ∧ ∀ s, Text.utf8 s ≠ m.bytesAt a k) ∧
    (r = .error .nameTooLong ↔
      ∀ i ≤ most, m.table.Movable .read (a + i) ∧ m.byte? (a + i) ≠ some 0) ∧
    (r = .error .badAddress ↔ (∀ k ≤ most, ¬ m.EndsAt a k) ∧
      ¬ ∀ i ≤ most, m.table.Movable .read (a + i) ∧ m.byte? (a + i) ≠ some 0) := by
  refine ⟨fun s => ⟨?_, ?_⟩, ⟨?_, ?_⟩, ⟨?_, h.of_plain⟩, ?_, ?_⟩
  · rintro rfl
    cases h with
    | text hk hends htext => exact ⟨_, hk, hends, htext⟩
  · rintro ⟨k, hk, hends, htext⟩
    exact h.unique (.text hk hends htext)
  · rintro rfl
    cases h with
    | garbled hk hends hgarbled => exact ⟨_, hk, hends, hgarbled⟩
  · rintro ⟨k, hk, hends, hgarbled⟩
    exact h.unique (.garbled hk hends hgarbled)
  · rintro rfl
    cases h with
    | tooLong hplain => exact hplain
  · rintro rfl
    cases h with
    | unreadable hk hstop hplain =>
      exact ⟨fun n _ hends => hplain n (hends.lt_of_not_movable hstop) hends.zero,
        fun hall => hstop (hall _ hk).1⟩
  · rintro ⟨hends, hplain⟩
    cases h with
    | text hk hends' _ => exact absurd hends' (hends _ hk)
    | garbled hk hends' _ => exact absurd hends' (hends _ hk)
    | tooLong hplain' => exact absurd hplain' hplain
    | unreadable _ _ _ => rfl

/-- Whatever address space there is, and whatever the address and the bound: a string is found if and
only if it is there, and each refusal has its cause. What comes behind the terminator does not matter,
be it readable or not: any other address space with the same bytes up to there gives the same. A
program that loads a string that the kernel found gets that string. -/
theorem Reachable.string_found (h : m.Reachable) (a most : Nat) :
    ∃ r m', attempt (getString a most) m = .ok r m' ∧ Peeked m m' ∧
      (∀ s, r = .ok s ↔ ∃ k ≤ most, m.EndsAt a k ∧ Text.utf8 s = m.bytesAt a k) ∧
      (r = .error .invalidArgument ↔
        ∃ k ≤ most, m.EndsAt a k ∧ ∀ s, Text.utf8 s ≠ m.bytesAt a k) ∧
      (r = .error .nameTooLong ↔
        ∀ i ≤ most, m.table.Movable .read (a + i) ∧ m.byte? (a + i) ≠ some 0) ∧
      (r = .error .badAddress ↔ (∀ k ≤ most, ¬ m.EndsAt a k) ∧
        ¬ ∀ i ≤ most, m.table.Movable .read (a + i) ∧ m.byte? (a + i) ≠ some 0) ∧
      (∀ (k : Nat) (other : UserMemory), k ≤ most → m.EndsAt a k → other.Reachable →
        (∀ i ≤ k, other.table.Movable .read (a + i) ∧ other.byte? (a + i) = m.byte? (a + i)) →
        ∃ other', attempt (getString a most) other = .ok r other') ∧
      ∀ s, r = .ok s → ∀ (t : Turn) (address : UInt32), Peeked m t.memory → address.toNat = a →
        ∃ t', loadString address t = .ok s t' ∧ Looks t t' := by
  obtain ⟨r, hspells, hget⟩ := spells_getString h.framed a most
  obtain ⟨htext, hgarbled, hlong, hunreadable⟩ := hspells.outcomes
  refine ⟨r, _, hget, peeked_afterRead .., htext, hgarbled, hlong, hunreadable, ?_, ?_⟩
  · intro k other hk hends hother hsame
    obtain ⟨r', hspells', hget'⟩ := spells_getString hother.framed a most
    have hcongr : other.Spells a most r :=
      hspells.congr hk hends (fun i hi => (hsame i hi).1) fun i hi => (hsame i hi).2
    obtain rfl := hcongr.unique hspells'
    exact ⟨_, hget'⟩
  · rintro s rfl t address hpeeked haddress
    exact hspells.yields_loadString h.framed hpeeked haddress

private theorem apply_writeMemory {spaces : Spaces} {i : Nat} {t : PageTable} {data : Bytes} {n : Nat}
    {m' : UserMemory} (ht : spaces.tables[i]? = some t)
    (hstore : (store a data : EStateM (Stop Errno) UserMemory Nat) ⟨t, spaces.machine.memory⟩ =
      .ok n m') :
    spaces.apply (.call i (.writeMemory a data)) =
      { spaces with machine.memory := m'.memory, tables := spaces.tables.set i m'.table } := by
  have hrun : SpaceCall.run (.writeMemory a data) ⟨spaces.machine, t⟩ =
      .ok ⟨⟩ ⟨{ spaces.machine with memory := m'.memory }, m'.table⟩ := by
    apply Ensures.eq_ok
    rw [SpaceCall.run, AddressSpace.onMemory, ensures_bind, ensures_zoom, ensures_of_ok hstore]
    exact ⟨rfl, rfl⟩
  simp only [Spaces.apply, ht, Spaces.work, hrun]

def blankSpaces : Spaces :=
  (Spaces.start (.build { physPages := 1 } {}) 1).run [.create, .call 0 (.map [⟨1, false⟩])]

/-- Three letters and their terminator are stored at the end of the only page. They are found if three
bytes are allowed, although the copy runs out of the page. The string is too long if two are. There is
none behind the page. -/
theorem string_found_sample : ∃ m : UserMemory, m.Reachable ∧
    (∃ m', attempt (getString 4092 3) m = .ok (.ok "hi!") m') ∧
    (∃ m', attempt (getString 4092 2) m = .ok (.error .nameTooLong) m') ∧
    ∃ m', attempt (getString 4096 2) m = .ok (.error .badAddress) m' := by
  let blank : UserMemory := ⟨PageTable.push {} 0 false, blankSpaces.machine.memory⟩
  have ht : blankSpaces.tables[0]? = some blank.table := by decide +kernel
  have hblank : blank.Reachable := .space (.build { physPages := 1 } {}) 1
    [.create, .call 0 (.map [⟨1, false⟩])] (List.mem_of_getElem? ht)
  have htext : ArgumentArea.terminated "hi!" = [104, 105, 33, 0] := by decide +kernel
  have hwritable : ∀ i < 4, blank.table.permits .write (4092 + i) = true := by decide +kernel
  have hreach : blank.table.reach .write 4092 4 = 4 := PageTable.reach_eq_length_iff.2 hwritable
  obtain ⟨m, hstore, hwrote⟩ := store_eq (ε := Errno) hblank.framed 4092 [104, 105, 33, 0]
  simp only [List.length_cons, List.length_nil, hreach] at hstore hwrote
  let steps : List SpaceStep :=
    [.create, .call 0 (.map [⟨1, false⟩]), .call 0 (.writeMemory 4092 [104, 105, 33, 0])]
  have hrun : (Spaces.start (.build { physPages := 1 } {}) 1).run steps =
      { blankSpaces with
        machine.memory := m.memory
        tables := blankSpaces.tables.set 0 m.table } := apply_writeMemory ht hstore
  have hmem : m.table ∈ ((Spaces.start (.build { physPages := 1 } {}) 1).run steps).tables := by
    rw [hrun]
    exact List.mem_of_getElem? (i := 0) rfl
  have hreachable : m.Reachable := by
    have hm := Reachable.space (.build { physPages := 1 } {}) 1 steps hmem
    rwa [hrun] at hm
  have hstring : m.HoldsString 4092 "hi!" :=
    ⟨htext ▸ hwrote.holds hblank.nodup hwritable, by decide +kernel⟩
  have hlength : (Text.utf8 "hi!").length = 3 := by decide +kernel
  have hends := hstring.endsAt
  have hutf8 := hstring.utf8_eq
  rw [hlength] at hends hutf8
  have hstop : ¬ m.table.Movable .read 4096 := by
    rw [PageTable.movable_iff, PageTable.permits_congr hwrote.mapping]
    decide +kernel
  refine ⟨m, hreachable, ?_, ?_, ?_⟩
  · obtain ⟨r, m', hget, -, hfound, -⟩ := hreachable.string_found 4092 3
    have hr := (hfound "hi!").2 ⟨3, Nat.le_refl 3, hends, hutf8⟩
    subst hr
    exact ⟨m', hget⟩
  · obtain ⟨r, m', hget, -, -, -, hlong, -⟩ := hreachable.string_found 4092 2
    have hr := hlong.2 fun i hi => ⟨hends.readable i (by omega), hends.plain i (by omega)⟩
    subst hr
    exact ⟨m', hget⟩
  · obtain ⟨r, m', hget, -, -, -, -, hunreadable, -⟩ := hreachable.string_found 4096 2
    have hr := hunreadable.2 ⟨fun k _ hends => hstop (hends.readable 0 (Nat.zero_le k)),
      fun hall => hstop (hall 0 (Nat.zero_le 2)).1⟩
    subst hr
    exact ⟨m', hget⟩

end PagedKernel.UserMemory

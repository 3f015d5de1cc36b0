import PagedKernel.Proofs.Kernel.Sound
import PagedKernel.Proofs.Memory.Cut
import PagedKernel.Proofs.Registers
import PagedKernel.User.Mode

/-!
# The two paths to a program's memory

The kernel cuts a transfer at the end of the pages and stops without a word; the processor cuts
nothing and runs into an exception at the first byte that is refused. Both move the same bytes.
-/

namespace PagedKernel.Turn

open UserMemory

variable {α : Type} {t : Turn} {access : Access} {a length n : Nat} {value : α} {m : UserMemory}
variable {r : EStateM.Result (Stop Errno) Turn α}

def withBadAddress (t : Turn) (address : Nat) : Turn :=
  { t with self.registers := t.self.registers.set .badVaddr (Int32.ofNat address) }

/-- The processor runs into an exception. The program does not go on even if the kernel would have
it. -/
def trapped (cause : Exception) : Call α := do
  exception cause
  throw (.ended (-1))

/-- What the processor comes to where the kernel moves `n` of `length` bytes: it goes on if these are
all, and else runs into an exception at the first byte that was not moved. The memory is as the
kernel leaves it in both cases. -/
inductive Matches (t : Turn) (access : Access) (a length n : Nat) (value : α) (m : UserMemory) :
    EStateM.Result (Stop Errno) Turn α → Prop
  | complete (h : n = length) : Matches t access a length n value m (.ok value (t.withMemory m))
  | refused {cause : Exception} (h : n < length) (hc : t.self.table.Refuses access (a + n) cause) :
      Matches t access a length n value m
        (trapped cause ((t.withMemory m).withBadAddress (a + n)))

private theorem not_ok_trapped {cause : Exception} {t' : Turn} (h : trapped cause t = .ok value t') :
    False := by
  have hnever : Ensures (trapped cause : Call α) t (fun _ _ => False) (fun _ _ => True) := by
    rw [trapped, ensures_bind]
    exact ensures_intro (fun _ _ _ => trivial) (fun _ _ _ => trivial)
  exact hnever.of_ok h

private theorem Matches.returns_iff (h : t.Matches access a length n value m r) :
    (∃ value t', r = .ok value t') ↔ n = length := by
  cases h with
  | complete hn => exact ⟨fun _ => hn, fun _ => ⟨_, _, rfl⟩⟩
  | refused hn _ =>
    constructor
    · rintro ⟨value, t', h⟩
      exact (not_ok_trapped h).elim
    · intro h
      omega

def afterCopy (t : Turn) (value : α) (m : UserMemory) :
    Option Obstacle → EStateM.Result (Stop Errno) Turn α
  | none => .ok value (t.withMemory m)
  | some obstacle => raiseObstacle obstacle (t.withMemory m)

theorem loadBytes_eq (t : Turn) (a length : Nat) :
    let copy := copyOut t.memory.memory t.memory.table (Span.ofRange a length)
    loadBytes a length t = t.afterCopy copy.bytes ⟨copy.table, t.memory.memory⟩ copy.obstacle := by
  apply Ensures.eq
  rw [loadBytes, ensures_bind, ensures_get]
  dsimp only
  rw [ensures_bind, modifySelf, ensures_modify]
  simp only [Turn.memory]
  generalize copyOut t.kernel.machine.memory t.self.table (Span.ofRange a length) = copy
  cases copy.obstacle with
  | none => rfl
  | some obstacle => exact ensures_self

theorem storeBytes_eq (t : Turn) (a : Nat) (data : Bytes) :
    let copy := copyIn t.memory (Span.ofRange a data.length) data
    storeBytes a data t = t.afterCopy () copy.target copy.obstacle := by
  apply Ensures.eq
  rw [storeBytes, ensures_bind, ensures_get]
  dsimp only
  rw [ensures_bind, ensures_set]
  simp only [Turn.memory]
  generalize copyIn ⟨t.self.table, t.kernel.machine.memory⟩ (Span.ofRange a data.length) data = copy
  cases copy.obstacle with
  | none => rfl
  | some obstacle => exact ensures_self

private theorem matches_afterCopy {value' : α} {o : Option Obstacle}
    (he : t.self.table.Ends access a length n o) (hm : o.bind Obstacle.missing? = none)
    (hvalue : n = length → value' = value) :
    t.Matches access a length n value m (t.afterCopy value' m o) := by
  cases he with
  | complete hn =>
    rw [hvalue hn]
    exact .complete hn
  | refused hn hc => exact .refused hn hc
  | lacking f => cases hm

private theorem afterCopy_missing {o : Option Obstacle} {f : Nat}
    (hm : o.bind Obstacle.missing? = some f) :
    t.afterCopy value m o = .error (.fault (.missingFrame f)) (t.withMemory m) := by
  rcases o with _ | ⟨_, _⟩ | g
  · cases hm
  · cases hm
  · cases hm
    rfl

/-- However the pages of a process are mixed, and wherever an access begins and ends: the processor
returns where the kernel moves all the bytes, and with the same bytes, memory and marks. Where the
kernel stops earlier, the processor has moved the same bytes with the same marks, and runs into an
exception at the next byte, for the reason that this byte is refused. A frame that is missing is the
same fault on both paths. -/
theorem paths_agree (t : Turn) (a : Nat) :
    (∀ buffer : Bytes,
      match (readInto a buffer t.memory : EStateM.Result (Stop Errno) _ _) with
      | .ok (n, buffer') m =>
        t.Matches .read a buffer.length n buffer' m (loadBytes a buffer.length t) ∧
        (copyOut t.memory.memory t.memory.table (Span.ofRange a buffer.length)).bytes =
          buffer'.take n ∧
        ((∃ bytes t', loadBytes a buffer.length t = .ok bytes t') ↔ n = buffer.length)
      | .error stop m => loadBytes a buffer.length t = .error stop (t.withMemory m)) ∧
    ∀ data : Bytes,
      match (store a data t.memory : EStateM.Result (Stop Errno) _ _) with
      | .ok n m =>
        t.Matches .write a data.length n () m (storeBytes a data t) ∧
        ((∃ result t', storeBytes a data t = .ok result t') ↔ n = data.length)
      | .error stop m => storeBytes a data t = .error stop (t.withMemory m) := by
  constructor
  · intro buffer
    have hends := (copyOut_clamp t.memory.memory t.memory.table a buffer.length).ends
    rw [readInto_cut, loadBytes_eq]
    generalize copyOut t.memory.memory t.memory.table (Span.ofRange a buffer.length) = copy at *
    cases hm : copy.obstacle.bind Obstacle.missing? with
    | none =>
      have hmatches : t.Matches .read a buffer.length copy.bytes.length
          (copy.bytes ++ buffer.drop copy.bytes.length) ⟨copy.table, t.memory.memory⟩
          (t.afterCopy copy.bytes ⟨copy.table, t.memory.memory⟩ copy.obstacle) := by
        apply matches_afterCopy hends hm
        intro hn
        rw [hn, List.drop_length, List.append_nil]
      exact ⟨hmatches, (List.take_left ..).symm, hmatches.returns_iff⟩
    | some f => exact afterCopy_missing hm
  · intro data
    have hends := (copyIn_clamp t.memory a (Nat.le_refl data.length)).ends
    rw [store_cut, storeBytes_eq]
    generalize copyIn t.memory (Span.ofRange a data.length) data = copy at *
    cases hm : copy.obstacle.bind Obstacle.missing? with
    | none =>
      have hmatches : t.Matches .write a data.length copy.count () copy.target
          (t.afterCopy () copy.target copy.obstacle) :=
        matches_afterCopy hends hm fun _ => rfl
      exact ⟨hmatches, hmatches.returns_iff⟩
    | some f => exact afterCopy_missing hm

end PagedKernel.Turn

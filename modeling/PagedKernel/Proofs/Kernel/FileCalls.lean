import PagedKernel.Kernel.FileCalls
import PagedKernel.Proofs.Kernel.Serves

/-!
# Calls on files

A call on files answers with a number below the limit of signed words, or it is refused. Only a read
touches the memory of the process, and no byte outside the buffer that the process passed.
-/

namespace PagedKernel.Turn

open UserMemory

variable {others : List Process} {touched : Nat → Prop} {q : CallRequest}

def InBuffer (address : Int32) (size : Int) (a : Nat) : Prop :=
  address.toInt ≤ a ∧ (a : Int) < address.toInt + size

private theorem reads_maxStringLength : Reads others maxStringLength (fun _ => True) := by
  unfold maxStringLength
  apply Obeys.get.bind
  intro t _
  exact Obeys.pure trivial

private theorem reads_stringArgument (r : Int32) :
    Reads others (stringArgument r) (fun _ => True) := by
  unfold stringArgument
  apply reads_maxStringLength.bind
  intro most _
  apply reads_onMemory
  apply (peeks_pointer r).bind
  intro va _
  exact (peeks_getString va.toNat most).mono (fun _ _ h => h) fun _ _ => trivial

private theorem serves_sizeArgument (r : Int32) :
    Serves others touched (sizeArgument r) (fun n => (n : Int) = r.toInt ∧ n < wordLimit) := by
  unfold sizeArgument
  split
  · exact Obeys.refuse _
  · next hr =>
    have hle : 0 ≤ r.toInt := Int.not_lt.1 fun hlt => hr (Int32.lt_iff_toInt_lt.2 hlt)
    exact Obeys.pure ⟨Int.toNat_of_nonneg hle, int32_toNat_lt r⟩

theorem serves_openNamed (create : Bool) (q : CallRequest) :
    Serves others touched (openNamed create q) (· < wordLimit) := by
  unfold openNamed
  apply (reads_stringArgument q.arg1).serves.bind
  intro name _
  exact serves_onDesk (Desk.keepsFiles_openFile name create)

private theorem serves_readChunks (slot address chunks size : Nat)
    (ht : ∀ b, address ≤ b → b < address + size → touched b) :
    Serves others touched (readChunks slot address chunks size) (· ≤ size) := by
  induction chunks generalizing address size with
  | zero => exact Obeys.pure (Nat.zero_le _)
  | succ chunks ih =>
    rw [readChunks]
    split
    · exact Obeys.pure (Nat.zero_le _)
    · dsimp only
      have hread := Desk.keepsFiles_onFile (fun _ => Channel.ensures_read (min size pageSize)) slot
      apply (serves_onDesk hread).bind
      intro data hdata
      have hsize : data.length ≤ size := Nat.le_trans hdata (Nat.min_le_left ..)
      have hfirst : ∀ b, address ≤ b → b < address + data.length → touched b :=
        fun b hl hu => ht b hl (by omega)
      apply (serves_onMemory (edits_putBytes data hfirst)).bind
      intro _ _
      split
      · exact Obeys.pure hsize
      · have hrest : ∀ b, address + data.length ≤ b →
            b < address + data.length + (size - data.length) → touched b :=
          fun b hl hu => ht b (by omega) (by omega)
        apply (ih (address + data.length) (size - data.length) hrest).bind
        intro more hmore
        exact Obeys.pure (by omega)

private theorem serves_writeChunks (slot address chunks size : Nat) :
    Serves others touched (writeChunks slot address chunks size) (fun _ => True) := by
  induction chunks generalizing address size with
  | zero => exact Obeys.pure trivial
  | succ chunks ih =>
    rw [writeChunks]
    split
    · exact Obeys.pure trivial
    · dsimp only
      apply (reads_onMemory (peeks_fetch _ _)).serves.bind
      intro data _
      split
      · exact Obeys.refuse_bind _
      · have hwrite : Desk.KeepsFiles (Desk.onFile slot (Channel.write data)) (fun _ => True) :=
          Desk.keepsFiles_onFile (fun _ => Channel.ensures_write data) slot
        apply (serves_onDesk hwrite).bind
        intro count _
        split
        · exact Obeys.refuse_bind _
        · exact ih _ _

theorem serves_readCall (q : CallRequest) :
    Serves others (InBuffer q.arg2 q.arg3.toInt) (readCall q) (· < wordLimit) := by
  unfold readCall
  apply (reads_onMemory (peeks_pointer q.arg2)).serves.bind
  intro va hva
  apply (serves_onDesk (Desk.keepsFiles_file _)).bind
  rintro ⟨slot, file⟩ _
  apply (serves_sizeArgument q.arg3).bind
  rintro size ⟨hsize, hlimit⟩
  refine Obeys.mono (serves_readChunks slot va.toNat _ size ?_) (fun _ _ h => h) ?_
  · intro b hl hu
    constructor <;> omega
  · intro n hn
    exact Nat.lt_of_le_of_lt hn hlimit

theorem serves_writeCall (q : CallRequest) :
    Serves others touched (writeCall q) (· < wordLimit) := by
  unfold writeCall
  apply (reads_onMemory (peeks_pointer q.arg2)).serves.bind
  intro va _
  apply (serves_onDesk (Desk.keepsFiles_file _)).bind
  rintro ⟨slot, file⟩ _
  apply (serves_sizeArgument q.arg3).bind
  rintro size ⟨-, hlimit⟩
  apply (reads_onMemory (peeks_checkRange _ _ _)).serves.bind
  intro _ _
  apply (serves_writeChunks _ _ _ _).bind
  intro _ _
  exact Obeys.pure hlimit

theorem serves_closeCall (q : CallRequest) :
    Serves others touched (closeCall q) (· < wordLimit) := by
  unfold closeCall
  apply (serves_onDesk (Desk.keepsFiles_close q.arg1.toInt_lt)).bind
  intro _ _
  exact Obeys.pure (by decide)

theorem keepsFiles_remove (name : String) : Desk.KeepsFiles (do
    let s ← get
    match s.devices.files.remove? name with
    | none => refuse .noSuchEntry
    | some files =>
      set { s with devices.files := files }
      return 0) (· < wordLimit) := by
  intro s _
  rw [ensures_bind, ensures_get]
  cases hremove : s.devices.files.remove? name with
  | none => exact ⟨Desk.FilesKept.refl s, _, rfl⟩
  | some files =>
    obtain ⟨id, -, rfl⟩ := Option.map_eq_some_iff.1 hremove
    refine ⟨⟨fun hrange => hrange, fun hexact => hexact, fun _ _ hbalanced => hbalanced,
      fun hgrounded => ⟨fun other id hid => ?_, hgrounded.below⟩, Nat.le_refl _⟩, by decide⟩
    simp only [Assoc.find?_erase] at hid
    split at hid
    · cases hid
    · exact hgrounded.names other id hid

theorem serves_unlinkCall (q : CallRequest) :
    Serves others touched (unlinkCall q) (· < wordLimit) := by
  unfold unlinkCall
  apply (reads_stringArgument q.arg1).serves.bind
  intro name _
  exact serves_onDesk (keepsFiles_remove name)

end PagedKernel.Turn

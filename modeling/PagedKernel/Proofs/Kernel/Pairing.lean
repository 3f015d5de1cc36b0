import PagedKernel.Proofs.Kernel.Sound
import PagedKernel.Kernel.FileCalls
import PagedKernel.Proofs.Memory.Twin

/-!
# Calls on files in two turns

Of a turn a call on files sees the memory of the process and its desk. So it does the same in two
turns if the memories show the same, and each piece of work at the desk comes to the same.
-/

namespace PagedKernel.Turn

open UserMemory

variable {α : Type} {t t' : Turn}

/-- A relation between turns in which the process sees the same in its memory, whatever is done to
both memories alike. -/
class Pairing (rel : Turn → Turn → Prop) : Prop where
  memory : ∀ {t t'}, rel t t' → UserMemory.Twin t.memory t'.memory
  most : ∀ {t t'}, rel t t' →
    t'.kernel.machine.config.maxStringLength = t.kernel.machine.config.maxStringLength
  withMemory : ∀ {t t' m m'}, rel t t' → UserMemory.Twin m m' →
    rel (t.withMemory m) (t'.withMemory m')

private theorem slot_of_file {fd : Int} {found : Nat × OpenFile}
    (h : onDesk (Desk.file fd) t = .ok found t') : 0 ≤ fd ∧ found.1 = fd.toNat := by
  have hfile : Ensures (onDesk (Desk.file fd)) t
      (fun found _ => t.self.descriptors.find? fd = some found) (fun _ _ => True) := by
    refine ensures_zoom.2 (ensures_bind.2 ?_)
    exact ensures_orRefuse (fun _ hfound => hfound) fun _ => trivial
  obtain ⟨hfd, hslot, -⟩ := DescriptorTable.find?_eq_some_iff.1 (hfile.of_ok h)
  exact ⟨hfd, hslot⟩

section

variable {rel : Turn → Turn → Prop} [hpairing : Pairing rel]

theorem parallel_onMemory {x : EStateM (Stop Errno) UserMemory α}
    (hx : Parallel UserMemory.Twin x) : Parallel rel (onMemory x) :=
  hx.zoom (fun _ _ h => hpairing.memory h) fun _ _ _ _ h hm => hpairing.withMemory h hm

theorem parallel_maxStringLength : Parallel rel maxStringLength :=
  Parallel.get (g := fun t : Turn => t.kernel.machine.config.maxStringLength) (k := fun n => pure n)
    (fun _ _ h => hpairing.most h) fun n => .pure n

theorem parallel_stringArgument (r : Int32) : Parallel rel (stringArgument r) := by
  unfold stringArgument
  apply parallel_maxStringLength.bind
  intro most
  apply parallel_onMemory
  apply (parallel_pointer r).bind
  intro va
  exact parallel_getString va.toNat most

omit hpairing in
private theorem parallel_sizeArgument (r : Int32) : Parallel rel (sizeArgument r) := by
  unfold sizeArgument
  exact .ite (.refuse _) (.pure _)

theorem parallel_named {r : Int32} {f : String → Call α} (hf : ∀ name, Parallel rel (f name)) :
    Parallel rel (stringArgument r >>= f) := (parallel_stringArgument r).bind hf

private theorem parallel_readChunks {slot : Nat}
    (hread : ∀ n, Parallel rel (onDesk (Desk.onFile slot (Channel.read n))))
    (address chunks size : Nat) : Parallel rel (readChunks slot address chunks size) := by
  induction chunks generalizing address size with
  | zero => exact .pure _
  | succ chunks ih =>
    rw [readChunks]
    split
    · exact .pure _
    · apply (hread (min size pageSize)).bind
      intro data
      apply (parallel_onMemory (parallel_putBytes address data)).bind
      intro _
      split
      · exact .pure _
      · apply (ih (address + data.length) (size - data.length)).bind
        intro more
        exact .pure _

private theorem parallel_writeChunks {slot : Nat}
    (hwrite : ∀ data, Parallel rel (onDesk (Desk.onFile slot (Channel.write data))))
    (address chunks size : Nat) : Parallel rel (writeChunks slot address chunks size) := by
  induction chunks generalizing address size with
  | zero => exact .pure _
  | succ chunks ih =>
    rw [writeChunks]
    split
    · exact .pure _
    · apply (parallel_onMemory (parallel_fetch address (min size pageSize))).bind
      intro data
      split
      · exact .refuse_bind _
      · apply (hwrite data).bind
        intro count
        split
        · exact .refuse_bind _
        · exact ih _ _

omit hpairing in
private theorem parallel_onFound {fd : Int} {f : Nat × OpenFile → Call α}
    (hfile : Parallel rel (onDesk (Desk.file fd)))
    (hf : 0 ≤ fd → ∀ file, Parallel rel (f (fd.toNat, file))) :
    Parallel rel (onDesk (Desk.file fd) >>= f) := by
  intro t t' h
  apply (hfile t t' h).bind_of_ok
  · rintro ⟨slot, file⟩ u u' hfound hu
    obtain ⟨hfd, hslot⟩ : 0 ≤ fd ∧ slot = fd.toNat := slot_of_file hfound
    rw [hslot]
    exact hf hfd file u u' hu
  · exact fun _ _ hu => hu

theorem parallel_readCall (q : CallRequest)
    (hfile : Parallel rel (onDesk (Desk.file q.arg1.toInt)))
    (hread : 0 ≤ q.arg1.toInt → ∀ n,
      Parallel rel (onDesk (Desk.onFile q.arg1.toInt.toNat (Channel.read n)))) :
    Parallel rel (readCall q) := by
  unfold readCall
  apply (parallel_onMemory (parallel_pointer q.arg2)).bind
  intro va
  apply parallel_onFound hfile
  intro hfd file
  apply (parallel_sizeArgument q.arg3).bind
  intro size
  exact parallel_readChunks (hread hfd) _ _ _

theorem parallel_writeCall (q : CallRequest)
    (hfile : Parallel rel (onDesk (Desk.file q.arg1.toInt)))
    (hwrite : 0 ≤ q.arg1.toInt → ∀ data,
      Parallel rel (onDesk (Desk.onFile q.arg1.toInt.toNat (Channel.write data)))) :
    Parallel rel (writeCall q) := by
  unfold writeCall
  apply (parallel_onMemory (parallel_pointer q.arg2)).bind
  intro va
  apply parallel_onFound hfile
  intro hfd file
  apply (parallel_sizeArgument q.arg3).bind
  intro size
  apply (parallel_onMemory (parallel_checkRange va.toNat size .read)).bind
  intro _
  apply (parallel_writeChunks (hwrite hfd) _ _ _).bind
  intro _
  exact .pure _

omit hpairing in
theorem parallel_closeCall (q : CallRequest)
    (hclose : Parallel rel (onDesk (Desk.close q.arg1.toInt))) : Parallel rel (closeCall q) := by
  unfold closeCall
  apply hclose.bind
  intro _
  exact .pure _

end

end PagedKernel.Turn

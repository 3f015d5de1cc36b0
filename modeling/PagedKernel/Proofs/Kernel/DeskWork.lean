import PagedKernel.Proofs.Kernel.FileCalls

/-!
# Work at the desk

A call on files puts one file under a descriptor, closes one, or works on files that are open. A call
that is refused leaves the same descriptors free and as many files open as before.
-/

namespace PagedKernel

namespace DescriptorTable

variable {t t' t'' : DescriptorTable} {file : OpenFile} {i : Nat}

/-- The same slots have a file, and the same descriptors are free. The files may differ. -/
structure Alike (t t' : DescriptorTable) : Prop where
  capacity : t'.capacity = t.capacity
  free : t'.free = t.free
  occupied : ∀ i, (t'.slot? i).isSome = (t.slot? i).isSome

theorem Alike.refl (t : DescriptorTable) : Alike t t := ⟨rfl, rfl, fun _ => rfl⟩

theorem Alike.trans (h : Alike t t') (h' : Alike t' t'') : Alike t t'' where
  capacity := h'.capacity.trans h.capacity
  free := h'.free.trans h.free
  occupied i := (h'.occupied i).trans (h.occupied i)

private theorem alike_setFile (hi : t.slot? i = some file) (file' : OpenFile) :
    Alike t (t.setFile i file') where
  capacity := List.length_set
  free := rfl
  occupied j := by
    change (slot? ⟨t.slots.set i (some file'), t.free⟩ j).isSome = _
    rw [slot?_set _ _ (lt_of_slot? hi)]
    split
    · next heq => rw [← heq, hi, Option.isSome_some, Option.isSome_some]
    · rfl

end DescriptorTable

namespace Desk

variable {α : Type} {s s' s'' : Desk} {name : String} {create : Bool}

/-- Open files were worked on, and none was opened or closed. -/
structure Uses (s s' : Desk) : Prop where
  descriptors : s.descriptors.Alike s'.descriptors
  handles : s'.devices.files.openHandles = s.devices.files.openHandles

theorem Uses.refl (s : Desk) : Uses s s := ⟨.refl _, rfl⟩

theorem Uses.trans (h : Uses s s') (h' : Uses s' s'') : Uses s s'' :=
  ⟨h.descriptors.trans h'.descriptors, h'.handles.trans h.handles⟩

theorem ensures_onFile {x : EStateM Errno Channel α} (rel : Devices → Devices → Prop)
    (hrefl : ∀ d, rel d d) (hx : ∀ c, Ensures x c (fun _ c' => rel c.devices c'.devices)
      (fun _ c' => rel c.devices c'.devices)) (i : Nat) (s : Desk) :
    Ensures (onFile i x) s
      (fun _ s' => s.descriptors.Alike s'.descriptors ∧ rel s.devices s'.devices)
      (fun _ s' => s.descriptors.Alike s'.descriptors ∧ rel s.devices s'.devices) := by
  unfold onFile
  rw [ensures_bind, ensures_get]
  cases hslot : s.descriptors.slot? i with
  | none => exact ⟨.refl _, hrefl _⟩
  | some file =>
    simp only
    rcases hrun : x ⟨file, s.devices⟩ with ⟨a, c⟩ | ⟨e, c⟩
    · exact ⟨DescriptorTable.alike_setFile hslot c.file, (hx _).of_ok hrun⟩
    · exact ⟨DescriptorTable.alike_setFile hslot c.file, (hx _).of_error hrun⟩

private theorem uses_onFile {x : EStateM Errno Channel α}
    (hx : ∀ c, Ensures x c (fun _ c' => c.Holds c') (fun _ c' => c.Holds c')) (i : Nat) (s : Desk) :
    Ensures (onFile i x) s (fun _ s' => Uses s s') (fun _ s' => Uses s s') := by
  have hhandles : ∀ c, Ensures x c
      (fun _ c' => c'.devices.files.openHandles = c.devices.files.openHandles)
      (fun _ c' => c'.devices.files.openHandles = c.devices.files.openHandles) :=
    fun c => (hx c).mono (fun _ _ h => h.handles) fun _ _ h => h.handles
  apply (ensures_onFile (fun d d' => d'.files.openHandles = d.files.openHandles)
    (fun _ => rfl) hhandles i s).mono
  · rintro a s' ⟨halike, hsame⟩
    exact ⟨halike, hsame⟩
  · rintro e s' ⟨halike, hsame⟩
    exact ⟨halike, hsame⟩

def Opens (i : Nat) (s s' : Desk) : Prop := ∃ file, s.descriptors.place? file = some (i, s'.descriptors)

private theorem ensures_openFile_opens (name : String) (create : Bool) (hs : s.descriptors.InRange) :
    Ensures (openFile name create) s (fun i s' => Opens i s s') (fun _ s' => Uses s s') := by
  unfold openFile
  rw [ensures_bind, ensures_get]
  cases hopen : s.devices.open? name create with
  | none => exact Uses.refl s
  | some opened =>
    obtain ⟨file, devices⟩ := opened
    simp only
    rw [ensures_bind, ensures_set]
    apply (ensures_install (s := ⟨s.descriptors, devices⟩) file hs).mono
    · rintro i s' ⟨hplace, -⟩
      exact ⟨file, hplace⟩
    · rintro stop s' ⟨-, -, rfl⟩
      have hopened := handles_open hopen
      have hclosed := handles_close file devices
      exact ⟨.refl _, by dsimp only; omega⟩

end Desk

namespace Turn

variable {α β : Type} {t : Turn} {x : Call α} {f : α → Call β}

/-- The computation only works on files that are open, whatever it comes to. -/
def OnlyUses (x : Call α) : Prop :=
  ∀ t, Ensures x t (fun _ t' => t.desk.Uses t'.desk) (fun _ t' => t.desk.Uses t'.desk)

private theorem OnlyUses.pure (a : α) : OnlyUses (pure a : Call α) := fun t => Desk.Uses.refl t.desk

private theorem OnlyUses.refuse (e : Errno) :
    OnlyUses (refuse e : Call α) := fun t => Desk.Uses.refl t.desk

private theorem OnlyUses.refuse_bind (e : Errno) (f : α → Call β) :
    OnlyUses (PagedKernel.refuse e >>= f) := fun t => Desk.Uses.refl t.desk

private theorem OnlyUses.bind (hx : OnlyUses x) (hf : ∀ a, OnlyUses (f a)) : OnlyUses (x >>= f) := by
  intro t
  apply (hx t).bind
  · intro a t₁ h
    exact (hf a t₁).mono (fun _ _ h' => h.trans h') fun _ _ h' => h.trans h'
  · intro stop t₁ h
    exact h

private theorem onlyUses_onMemory (x : EStateM (Stop Errno) UserMemory α) : OnlyUses (onMemory x) :=
  fun t => ensures_zoom.2
    (ensures_intro (fun _ _ _ => Desk.Uses.refl t.desk) fun _ _ _ => Desk.Uses.refl t.desk)

private theorem onlyUses_onDesk {x : EStateM (Stop Errno) Desk α}
    (hx : ∀ s, Ensures x s (fun _ s' => s.Uses s') (fun _ s' => s.Uses s')) :
    OnlyUses (onDesk x) :=
  fun t => ensures_zoom.2 (hx t.desk)

theorem desk_stringArgument (r : Int32) (t : Turn) : Ensures (stringArgument r) t
    (fun _ t' => t'.desk = t.desk) (fun _ t' => t'.desk = t.desk) :=
  ensures_bind.2 (ensures_zoom.2 (ensures_intro (fun _ _ _ => rfl) fun _ _ _ => rfl))

private theorem onlyUses_stringArgument (r : Int32) : OnlyUses (stringArgument r) := by
  intro t
  have heq : ∀ t' : Turn, t'.desk = t.desk → t.desk.Uses t'.desk := fun _ h => h ▸ .refl _
  exact (desk_stringArgument r t).mono (fun _ => heq) fun _ => heq

private theorem onlyUses_sizeArgument (r : Int32) : OnlyUses (sizeArgument r) := by
  unfold sizeArgument
  split
  · exact .refuse _
  · exact .pure _

private theorem onlyUses_file (fd : Int) : OnlyUses (onDesk (Desk.file fd)) := by
  apply onlyUses_onDesk
  intro s
  unfold Desk.file
  rw [ensures_bind, ensures_get]
  exact ensures_orRefuse (fun _ _ => .refl s) fun _ => .refl s

private theorem onlyUses_readChunks (slot address chunks size : Nat) :
    OnlyUses (readChunks slot address chunks size) := by
  induction chunks generalizing address size with
  | zero => exact .pure 0
  | succ chunks ih =>
    rw [readChunks]
    split
    · exact .pure 0
    · dsimp only
      have hread : ∀ c, Ensures (Channel.read (min size pageSize)) c (fun _ c' => c.Holds c')
          (fun _ c' => c.Holds c') :=
        fun c => (Channel.ensures_read _).mono (fun _ _ h => h.2) fun _ _ h => h
      apply (onlyUses_onDesk (Desk.uses_onFile hread slot)).bind
      intro data
      apply (onlyUses_onMemory _).bind
      intro _
      split
      · exact .pure _
      · exact (ih _ _).bind fun _ => .pure _

private theorem onlyUses_writeChunks (slot address chunks size : Nat) :
    OnlyUses (writeChunks slot address chunks size) := by
  induction chunks generalizing address size with
  | zero => exact .pure ()
  | succ chunks ih =>
    rw [writeChunks]
    split
    · exact .pure ()
    · dsimp only
      apply (onlyUses_onMemory _).bind
      intro data
      split
      · exact .refuse_bind _ _
      · have hwrite : ∀ c, Ensures (Channel.write data) c (fun _ c' => c.Holds c')
            (fun _ c' => c.Holds c') :=
          fun c => (Channel.ensures_write data).mono (fun _ _ h => h.2) fun _ _ h => h
        apply (onlyUses_onDesk (Desk.uses_onFile hwrite slot)).bind
        intro count
        split
        · exact .refuse_bind _ _
        · exact ih _ _

theorem onlyUses_readCall (q : CallRequest) : OnlyUses (readCall q) := by
  unfold readCall
  apply (onlyUses_onMemory _).bind
  intro va
  apply (onlyUses_file _).bind
  rintro ⟨slot, file⟩
  exact (onlyUses_sizeArgument _).bind fun size => onlyUses_readChunks _ _ _ _

theorem onlyUses_writeCall (q : CallRequest) : OnlyUses (writeCall q) := by
  unfold writeCall
  apply (onlyUses_onMemory _).bind
  intro va
  apply (onlyUses_file _).bind
  rintro ⟨slot, file⟩
  apply (onlyUses_sizeArgument _).bind
  intro size
  apply (onlyUses_onMemory _).bind
  intro _
  exact (onlyUses_writeChunks _ _ _ _).bind fun _ => .pure _

theorem onlyUses_unlinkCall (q : CallRequest) : OnlyUses (unlinkCall q) := by
  unfold unlinkCall
  apply (onlyUses_stringArgument _).bind
  intro name
  apply onlyUses_onDesk
  intro s
  rw [ensures_bind, ensures_get]
  cases hremove : s.devices.files.remove? name with
  | none => exact .refl s
  | some files =>
    obtain ⟨id, -, rfl⟩ := Option.map_eq_some_iff.1 hremove
    exact ⟨.refl _, rfl⟩

theorem ensures_openNamed_opens (create : Bool) (q : CallRequest)
    (ht : t.self.descriptors.InRange) : Ensures (openNamed create q) t
      (fun i t' => t.desk.Opens i t'.desk) (fun _ t' => t.desk.Uses t'.desk) := by
  unfold openNamed
  apply (desk_stringArgument q.arg1 t).bind
  · intro name t₁ hsame
    rw [← hsame]
    exact ensures_zoom.2
      (Desk.ensures_openFile_opens name create (s := t₁.desk) (hsame ▸ ht))
  · intro stop t₁ hsame
    exact hsame ▸ .refl _

theorem ensures_closeCall (q : CallRequest) (t : Turn) : Ensures (closeCall q) t
    (fun _ t' => ∃ i, t'.desk = (t.desk.closeSlot i).2) (fun _ t' => t'.desk = t.desk) := by
  unfold closeCall onDesk
  rw [ensures_bind, ensures_zoom]
  apply (Desk.ensures_close q.arg1.toInt t.desk).mono
  · rintro _ s ⟨-, -, hclosed⟩
    exact ⟨_, hclosed⟩
  · rintro stop s ⟨-, hsame⟩
    exact hsame

end Turn

end PagedKernel

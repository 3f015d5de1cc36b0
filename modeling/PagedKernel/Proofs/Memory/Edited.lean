import PagedKernel.Proofs.Memory.Peek

/-!
# Work that touches given bytes only

Access for a program is confined to its pages. Reading touches no byte, and writing those of its
range; a range that is refused is left alone.
-/

namespace PagedKernel.UserMemory

variable {m m' m'' : UserMemory} {touched touched' : Nat → Prop} {a length : Nat} {data : Bytes}

/-- The mapping stays, and so do the frames that are not part of it. -/
structure Confined (m m' : UserMemory) : Prop extends Steady m m' where
  foreign : ∀ f ∉ m.table.mapped, m'.memory.frame? f = m.memory.frame? f

theorem Confined.refl (m : UserMemory) : Confined m m := ⟨Steady.refl m, fun _ _ => rfl⟩

theorem Confined.trans (h : Confined m m') (h' : Confined m' m'') : Confined m m'' := by
  refine ⟨h.toSteady.trans h'.toSteady, ?_⟩
  intro f hf
  rw [h'.foreign f (by rwa [PageTable.mapped_congr h.mapping]), h.foreign f hf]

theorem Wrote.confined (h : Wrote m m' a data) : Confined m m' :=
  ⟨⟨h.mapping, h.size⟩, h.foreign⟩

theorem Confined.framed (h : Confined m m') (hf : m.Framed) : m'.Framed :=
  hf.congr h.mapping h.size

theorem confined_afterRead (m : UserMemory) (a n : Nat) : Confined m (m.afterRead a n) :=
  ⟨⟨mapping_afterRead .., rfl⟩, fun _ _ => rfl⟩

/-- Confined work that leaves the bytes that are not touched. -/
structure Edited (touched : Nat → Prop) (m m' : UserMemory) : Prop extends Confined m m' where
  byte : m.table.mapped.Nodup → ∀ b, ¬ touched b → m'.byte? b = m.byte? b

theorem Edited.refl (m : UserMemory) : Edited touched m m := ⟨Confined.refl m, fun _ _ _ => rfl⟩

theorem Edited.trans (h : Edited touched m m') (h' : Edited touched m' m'') :
    Edited touched m m'' := by
  refine ⟨h.toConfined.trans h'.toConfined, ?_⟩
  intro hn b hb
  have hn' : m'.table.mapped.Nodup := by rwa [PageTable.mapped_congr h.mapping]
  rw [h'.byte hn' b hb, h.byte hn b hb]

theorem Edited.mono (h : Edited touched m m') (ht : ∀ b, touched b → touched' b) :
    Edited touched' m m' :=
  ⟨h.toConfined, fun hn b hb => h.byte hn b fun hin => hb (ht b hin)⟩

theorem edited_afterRead (m : UserMemory) (a n : Nat) : Edited touched m (m.afterRead a n) :=
  ⟨confined_afterRead m a n, fun _ b _ => byte?_afterRead m a n b⟩

theorem Wrote.edited (h : Wrote m m' a data)
    (ht : ∀ b, a ≤ b → b < a + data.length → touched b) : Edited touched m m' := by
  refine ⟨h.confined, ?_⟩
  intro hn b hb
  have hout : ¬ (a ≤ b ∧ b < a + data.length) := fun hin => hb (ht b hin.1 hin.2)
  rw [h.byte hn b, if_neg hout]

/-- Access that touches none but the given bytes. -/
abbrev Edits {α : Type} (touched : Nat → Prop) (x : EStateM (Stop Errno) UserMemory α)
    (ok : α → Prop) : Prop := Obeys Framed (Edited touched) x ok

theorem Peeked.edited (h : Peeked m m') : Edited touched m m' where
  mapping := h.mapping
  size := congrArg Memory.size h.memory
  foreign f _ := by rw [h.memory]
  byte _ b _ := by
    apply byte?_congr h.mapping
    intro f _
    rw [h.memory]

theorem edits_putBytes (data : Bytes) (ht : ∀ b, a ≤ b → b < a + data.length → touched b) :
    Edits touched (putBytes a data) (fun _ => True) := by
  intro m hf
  apply (ensures_putBytes hf data).mono
  · rintro count m' ⟨-, -, hwrote⟩
    exact ⟨hwrote.edited ht, trivial⟩
  · rintro stop m' ⟨-, rfl, rfl⟩
    exact ⟨Edited.refl _, _, rfl⟩

end PagedKernel.UserMemory

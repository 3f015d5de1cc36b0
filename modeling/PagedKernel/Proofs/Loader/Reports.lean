import PagedKernel.Loader
import PagedKernel.Proofs.Ensures

/-!
# Exceptions in the log

The log tells which programs ran into exceptions: why, at which address, and where they were. A load
reports much, but no exception.
-/

namespace PagedKernel

def Event.isException : Event → Bool
  | unexpected .. => true
  | _ => false

def Machine.exceptions (m : Machine) : List Event := m.log.filter (·.isException)

theorem Machine.exceptions_report {m : Machine} {e : Event} (h : e.isException = false) :
    (m.report e).exceptions = m.exceptions := by
  simp [exceptions, report, h]

def NoException {ε α : Type} (x : EStateM (Stop ε) AddressSpace α) : Prop :=
  ∀ s, Ensures x s (fun _ s' => s'.machine.exceptions = s.machine.exceptions)
    (fun _ s' => s'.machine.exceptions = s.machine.exceptions)

namespace NoException

variable {ε δ α β : Type} {x : EStateM (Stop ε) AddressSpace α}
variable {f : α → EStateM (Stop ε) AddressSpace β}

private theorem pure (a : α) : NoException (pure a : EStateM (Stop ε) AddressSpace α) := fun _ => rfl

private theorem throw (stop : Stop ε) : NoException (throw stop : EStateM (Stop ε) AddressSpace α) :=
  fun _ => rfl

private theorem orRefuse (e : ε) (o : Option α) :
    NoException (orRefuse e o : EStateM (Stop ε) AddressSpace α) := by
  cases o with
  | none => exact throw _
  | some a => exact pure a

private theorem modify {g : AddressSpace → AddressSpace}
    (hg : ∀ s, (g s).machine.exceptions = s.machine.exceptions) :
    NoException (modify g : EStateM (Stop ε) AddressSpace PUnit) := hg

private theorem bind (hx : NoException x) (hf : ∀ a, NoException (f a)) : NoException (x >>= f) := by
  intro s
  apply (hx s).bind
  · intro a t ht
    apply (hf a t).mono
    · intro _ _ h
      exact h.trans ht
    · intro _ _ h
      exact h.trans ht
  · intro _ _ h
    exact h

private theorem get_set {g : AddressSpace → AddressSpace}
    {k : AddressSpace → EStateM (Stop ε) AddressSpace β}
    (hg : ∀ s, (g s).machine.exceptions = s.machine.exceptions) (hk : ∀ s, NoException (k s)) :
    NoException (get >>= fun s => set (g s) >>= fun _ => k s) := by
  intro s
  rw [ensures_bind, ensures_get, ensures_bind, ensures_set, ← hg s]
  exact hk s (g s)

private theorem get {k : AddressSpace → EStateM (Stop ε) AddressSpace β}
    (hk : ∀ s, NoException (k s)) : NoException (get >>= k) := by
  intro s
  rw [ensures_bind, ensures_get]
  exact hk s s

private theorem mapStop (g : Stop ε → Stop δ) (hx : NoException x) : NoException (mapStop g x) := by
  intro s
  rw [ensures_mapStop]
  exact hx s

private theorem onMemory (y : EStateM (Stop ε) UserMemory α) :
    NoException (AddressSpace.onMemory y) := by
  intro s
  rw [AddressSpace.onMemory, ensures_zoom]
  exact ensures_intro (fun _ _ _ => rfl) fun _ _ _ => rfl

private theorem report {e : Event} (h : e.isException = false) :
    NoException (AddressSpace.report e : EStateM (Stop ε) AddressSpace Unit) :=
  modify fun _ => Machine.exceptions_report h

end NoException

namespace AddressSpace

private theorem noException_pushPages {ε : Type} (frames : List Nat) (protections : List Bool) :
    NoException (pushPages frames protections : EStateM (Stop ε) AddressSpace Unit) := by
  induction frames generalizing protections with
  | nil => exact .pure _
  | cons frame frames ih =>
    cases protections with
    | nil => exact .pure _
    | cons readOnly rest =>
      rw [pushPages]
      apply NoException.get
      intro s
      split
      · exact .throw _
      · apply NoException.bind
        · exact .modify fun _ => rfl
        · intro _
          exact ih rest

private theorem noException_map (regions : List Region) : NoException (map regions) := by
  unfold map
  apply NoException.get
  intro s
  dsimp only
  cases s.machine.pool.acquireMany? (Region.total regions) with
  | none =>
    apply NoException.bind
    · exact .report rfl
    · intro _
      exact .throw _
  | some taken =>
    apply NoException.bind
    · exact .modify fun _ => rfl
    · intro _
      split
      · exact .throw _
      · apply NoException.bind (noException_pushPages _ _)
        intro _
        exact .pure _

private theorem noException_release {ε : Type} :
    NoException (release : EStateM (Stop ε) AddressSpace Nat) := by
  unfold release
  apply NoException.get_set (g := fun s => { s with
    table := {}, machine.pool := (s.machine.pool.releaseAll s.table.frames).1 })
  · intro s
    rfl
  · intro s
    split
    · exact .pure _
    · exact .throw _

end AddressSpace

namespace Loader

private theorem noException_forM (sections : List Section) {f : Section → Event}
    (hf : ∀ sec, (f sec).isException = false) :
    NoException (sections.forM fun sec => AddressSpace.report (f sec) : LoadM PUnit) := by
  induction sections with
  | nil => exact .pure _
  | cons sec rest ih => exact (NoException.report (hf sec)).bind fun _ => ih

private theorem noException_openImage (name : String) : NoException (openImage name) := by
  unfold openImage
  apply NoException.get
  intro s
  cases s.machine.devices.open? name false with
  | none =>
    apply NoException.bind
    · exact .report rfl
    · intro _
      exact .throw _
  | some opened =>
    dsimp only
    apply NoException.bind
    · exact .modify fun _ => rfl
    · intro _
      apply NoException.bind
      · exact noException_forM _ fun _ => rfl
      · intro _
        split
        · exact .pure _
        · exact .throw _

private theorem noException_loadPages (image : Image) (index : Nat) (sec : Section) (page count : Nat) :
    NoException (loadPages image index sec page count) := by
  induction count generalizing image page with
  | zero => exact .pure _
  | succ count ih =>
    intro s
    rw [loadPages, ensures_bind, ensures_get]
    dsimp only
    split
    · rfl
    · next entry hentry =>
      split
      · rfl
      · split
        · rfl
        · next frame image' hload =>
          rw [ensures_bind, ensures_set]
          exact ih image' (page + 1) _

private theorem noException_loadSections (image : Image) (index : Nat) (sections : List Section) :
    NoException (loadSections image index sections) := by
  induction sections generalizing image index with
  | nil => exact .pure _
  | cons sec rest ih =>
    rw [loadSections]
    apply (noException_loadPages image index sec 0 sec.pages).bind
    intro image
    apply (NoException.report rfl).bind
    intro _
    exact ih image (index + 1)

private theorem noException_loadImage (image : Image) (args : List String) :
    NoException (loadImage image args) := by
  unfold loadImage
  dsimp only
  split
  · apply (NoException.report rfl).bind
    intro _
    exact .throw _
  · apply NoException.get
    intro s
    split
    · apply (NoException.report rfl).bind
      intro _
      exact .throw _
    · apply NoException.bind
      · exact .mapStop _ (AddressSpace.noException_map _)
      intro _
      apply (noException_loadSections image 0 image.sections).bind
      intro image
      apply (NoException.orRefuse _ _).bind
      intro argv
      apply NoException.bind
      · exact .mapStop _ (.onMemory _)
      intro _
      exact .pure _

private theorem noException_fill (name : String) (args : List String) :
    NoException (fill name args) := by
  unfold fill
  apply (noException_openImage name).bind
  intro image s
  have hload := noException_loadImage image args s
  unfold Ensures
  rcases hx : loadImage image args s with ⟨r, s'⟩ | ⟨stop, s'⟩
  · have hkept := hload.of_ok hx
    simp only [hx]
    exact hkept
  · have hkept := hload.of_error hx
    simp only [hx]
    exact hkept

theorem exceptions_load (name : String) (args : List String) (machine : Machine) :
    Ensures (load name args) machine
      (fun _ machine' => machine'.exceptions = machine.exceptions)
      (fun _ machine' => machine'.exceptions = machine.exceptions) := by
  have hfill := noException_fill name args { machine }
  unfold Ensures load
  rcases hx : fill name args { machine } with ⟨r, s⟩ | ⟨stop, s⟩
  · exact hfill.of_ok hx
  · have hrelease := AddressSpace.noException_release (ε := LoadError) s
    have hbefore := hfill.of_error hx
    dsimp only
    rcases hy : (AddressSpace.release s : EStateM.Result (Stop LoadError) _ _) with
      ⟨count, s'⟩ | ⟨stop', s'⟩
    · exact (hrelease.of_ok hy).trans hbefore
    · exact (hrelease.of_error hy).trans hbefore

end Loader

end PagedKernel

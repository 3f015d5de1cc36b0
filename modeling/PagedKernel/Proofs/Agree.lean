import PagedKernel.Proofs.Ensures

/-!
# Two runs of one computation

A computation is started in two states that are related. It does the same in both when it returns
the same value, or stops for the same reason, and the states that it reaches are related again.
-/

namespace PagedKernel

variable {ε δ σ τ α β : Type}

/-- Two outcomes with the same value, or the same stop, in related states. -/
inductive Agree (rel : σ → σ → Prop) : EStateM.Result ε σ α → EStateM.Result ε σ α → Prop
  | ok {a : α} {s s' : σ} (h : rel s s') : Agree rel (.ok a s) (.ok a s')
  | error {e : ε} {s s' : σ} (h : rel s s') : Agree rel (.error e s) (.error e s')

def Parallel (rel : σ → σ → Prop) (x : EStateM ε σ α) : Prop :=
  ∀ s s', rel s s' → Agree rel (x s) (x s')

section

variable {rel rel' : σ → σ → Prop} {x : EStateM ε σ α} {f : α → EStateM ε σ β} {s s' : σ}
variable {r r' : EStateM.Result ε σ α}

theorem Agree.of_ok {a : α} (h : Agree rel r r') (hr : r = .ok a s) :
    ∃ s', r' = .ok a s' ∧ rel s s' := by
  subst hr
  cases h with
  | ok h => exact ⟨_, rfl, h⟩

theorem Agree.ensures {ok ok' : α → σ → Prop} {stop stop' : ε → σ → Prop}
    (h : Agree rel (x s) (x s')) (hs : Ensures x s ok stop) (hs' : Ensures x s' ok' stop')
    (hok : ∀ a t t', rel t t' → ok a t → ok' a t' → rel' t t')
    (hstop : ∀ e t t', rel t t' → stop e t → stop' e t' → rel' t t') :
    Agree rel' (x s) (x s') := by
  unfold Ensures at hs hs'
  generalize x s = r at h hs
  generalize x s' = r' at h hs'
  cases h with
  | ok h => exact .ok (hok _ _ _ h hs hs')
  | error h => exact .error (hstop _ _ _ h hs hs')

theorem Agree.bind_of_ok (h : Agree rel (x s) (x s'))
    (hf : ∀ a t t', x s = .ok a t → rel t t' → Agree rel' (f a t) (f a t'))
    (hrel : ∀ t t', rel t t' → rel' t t') : Agree rel' ((x >>= f) s) ((x >>= f) s') := by
  change Agree rel' (EStateM.bind x f s) (EStateM.bind x f s')
  unfold EStateM.bind
  generalize x s = r at h hf
  generalize x s' = r' at h
  cases h with
  | ok h => exact hf _ _ _ rfl h
  | error h => exact .error (hrel _ _ h)

theorem Agree.bind (h : Agree rel (x s) (x s'))
    (hf : ∀ a t t', rel t t' → Agree rel' (f a t) (f a t'))
    (hrel : ∀ t t', rel t t' → rel' t t') : Agree rel' ((x >>= f) s) ((x >>= f) s') :=
  h.bind_of_ok (fun a t t' _ => hf a t t') hrel

theorem Parallel.bind (hx : Parallel rel x) (hf : ∀ a, Parallel rel (f a)) :
    Parallel rel (x >>= f) :=
  fun s s' h => (hx s s' h).bind (fun a t t' ht => hf a t t' ht) fun _ _ ht => ht

theorem Parallel.pure (a : α) : Parallel rel (pure a : EStateM ε σ α) := fun _ _ h => .ok h

theorem Parallel.throw (e : ε) : Parallel rel (throw e : EStateM ε σ α) := fun _ _ h => .error h

theorem Agree.get {γ : Type} {g : σ → γ} {k : γ → EStateM ε σ β} (hg : g s' = g s)
    (hk : Agree rel (k (g s) s) (k (g s) s')) :
    Agree rel ((get >>= fun s => k (g s)) s) ((get >>= fun s => k (g s)) s') := by
  change Agree rel (k (g s) s) (k (g s') s')
  rw [hg]
  exact hk

theorem Parallel.get {γ : Type} {g : σ → γ} {k : γ → EStateM ε σ β}
    (hg : ∀ s s', rel s s' → g s' = g s) (hk : ∀ c, Parallel rel (k c)) :
    Parallel rel (get >>= fun s => k (g s)) :=
  fun s s' h => .get (hg s s' h) (hk _ s s' h)

theorem Parallel.modify {g : σ → σ} (hg : ∀ s s', rel s s' → rel (g s) (g s')) :
    Parallel rel (modify g : EStateM ε σ PUnit) := fun s s' h => .ok (hg s s' h)

theorem Parallel.ite {c : Prop} [Decidable c] {y : EStateM ε σ α} (hx : Parallel rel x)
    (hy : Parallel rel y) : Parallel rel (if c then x else y) := by
  split
  · exact hx
  · exact hy

end

section

variable {rel : σ → σ → Prop} {s s' : σ}

theorem Parallel.refuse (e : ε) : Parallel rel (refuse e : EStateM (Stop ε) σ α) :=
  Parallel.throw _

theorem Parallel.refuse_bind {f : α → EStateM (Stop ε) σ β} (e : ε) :
    Parallel rel (PagedKernel.refuse e >>= f) :=
  fun _ _ h => .error h

theorem Parallel.orRefuse (e : ε) (o : Option α) :
    Parallel rel (orRefuse e o : EStateM (Stop ε) σ α) := by
  cases o with
  | none => exact .refuse e
  | some a => exact .pure a

theorem Agree.attempt {x : EStateM (Stop ε) σ α} (h : Agree rel (x s) (x s')) :
    Agree rel (attempt x s) (attempt x s') := by
  unfold PagedKernel.attempt
  generalize x s = r at h
  generalize x s' = r' at h
  cases h with
  | ok h => exact .ok h
  | @error e _ _ h =>
    cases e with
    | refused e => exact .ok h
    | ended code => exact .error h
    | waiting => exact .error h
    | fault f => exact .error h

theorem Agree.zoom {part : τ → τ → Prop} {view : σ → τ} {update : σ → τ → σ} {x : EStateM ε τ α}
    (h : Agree part (x (view s)) (x (view s')))
    (hupdate : ∀ t t', part t t' → rel (update s t) (update s' t')) :
    Agree rel (zoom view update x s) (zoom view update x s') := by
  unfold PagedKernel.zoom
  generalize x (view s) = r at h
  generalize x (view s') = r' at h
  cases h with
  | ok ht => exact .ok (hupdate _ _ ht)
  | error ht => exact .error (hupdate _ _ ht)

theorem Parallel.zoom {part : τ → τ → Prop} {view : σ → τ} {update : σ → τ → σ}
    {x : EStateM ε τ α} (hx : Parallel part x) (hview : ∀ s s', rel s s' → part (view s) (view s'))
    (hupdate : ∀ s s' t t', rel s s' → part t t' → rel (update s t) (update s' t')) :
    Parallel rel (zoom view update x) :=
  fun s s' h => (hx _ _ (hview s s' h)).zoom fun t t' => hupdate s s' t t' h

theorem Parallel.eq (x : EStateM ε σ α) : Parallel Eq x := by
  rintro s _ rfl
  cases x s with
  | ok a t => exact .ok rfl
  | error e t => exact .error rfl

end

end PagedKernel

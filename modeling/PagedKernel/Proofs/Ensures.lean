import PagedKernel.Stop

/-!
# What a computation comes to

`Ensures x s ok stop` says of the computation `x`, started in the state `s`, that it returns with
`ok` or stops short with `stop`. A long computation is followed step by step: the value and the
state of one step are what the next one starts from.
-/

namespace PagedKernel

variable {ε δ σ τ α β : Type}

/-- From `s` the computation returns a value and a state with `ok`, or it stops with `stop`. -/
def Ensures (x : EStateM ε σ α) (s : σ) (ok : α → σ → Prop) (stop : ε → σ → Prop) : Prop :=
  match x s with
  | .ok a t => ok a t
  | .error e t => stop e t

section

variable {x : EStateM ε σ α} {f : α → EStateM ε σ β} {s t : σ}
variable {ok : α → σ → Prop} {stop : ε → σ → Prop}

theorem ensures_of_ok {a : α} (h : x s = .ok a t) : Ensures x s ok stop ↔ ok a t := by
  simp only [Ensures, h]

theorem ensures_of_error {e : ε} (h : x s = .error e t) : Ensures x s ok stop ↔ stop e t := by
  simp only [Ensures, h]

theorem ensures_congr {y : EStateM ε σ α} (h : x s = y s) :
    Ensures x s ok stop ↔ Ensures y s ok stop := by
  rw [Ensures, h, Ensures]

theorem Ensures.of_ok {a : α} (h : Ensures x s ok stop) (hx : x s = .ok a t) : ok a t :=
  (ensures_of_ok hx).1 h

theorem Ensures.of_error {e : ε} (h : Ensures x s ok stop) (hx : x s = .error e t) : stop e t :=
  (ensures_of_error hx).1 h

theorem Ensures.eq_ok {a : α} (h : Ensures x s (fun b u => b = a ∧ u = t) (fun _ _ => False)) :
    x s = .ok a t := by
  rcases hx : x s with ⟨b, u⟩ | ⟨e, u⟩
  · obtain ⟨rfl, rfl⟩ := h.of_ok hx
    rfl
  · exact (h.of_error hx).elim

theorem Ensures.eq {r : EStateM.Result ε σ α}
    (h : Ensures x s (fun a t => .ok a t = r) (fun e t => .error e t = r)) : x s = r := by
  rcases hx : x s with ⟨a, t⟩ | ⟨e, t⟩
  · exact h.of_ok hx
  · exact h.of_error hx

theorem bind_of_ok {a : α} (h : x s = .ok a t) : (x >>= f) s = f a t := by
  change EStateM.bind x f s = _
  rw [EStateM.bind, h]

theorem bind_of_error {e : ε} (h : x s = .error e t) : (x >>= f) s = .error e t := by
  change EStateM.bind x f s = _
  rw [EStateM.bind, h]

theorem ensures_intro (hok : ∀ a t, x s = .ok a t → ok a t)
    (hstop : ∀ e t, x s = .error e t → stop e t) : Ensures x s ok stop := by
  unfold Ensures
  split
  · next a t h => exact hok a t h
  · next e t h => exact hstop e t h

theorem ensures_self : Ensures x s (fun a t => .ok a t = x s) (fun e t => .error e t = x s) :=
  ensures_intro (fun _ _ h => h.symm) fun _ _ h => h.symm

theorem Ensures.mono {ok' : α → σ → Prop} {stop' : ε → σ → Prop} (h : Ensures x s ok stop)
    (hok : ∀ a t, ok a t → ok' a t) (hstop : ∀ e t, stop e t → stop' e t) :
    Ensures x s ok' stop' := by
  apply ensures_intro
  · intro a t hx
    exact hok a t (h.of_ok hx)
  · intro e t hx
    exact hstop e t (h.of_error hx)

@[simp] theorem ensures_bind {ok : β → σ → Prop} :
    Ensures (x >>= f) s ok stop ↔ Ensures x s (fun a t => Ensures (f a) t ok stop) stop := by
  change Ensures (EStateM.bind x f) s ok stop ↔ _
  simp only [Ensures, EStateM.bind]
  cases x s <;> rfl

theorem Ensures.bind {ok' : β → σ → Prop} {stop' : ε → σ → Prop} (h : Ensures x s ok stop)
    (hok : ∀ a t, ok a t → Ensures (f a) t ok' stop') (hstop : ∀ e t, stop e t → stop' e t) :
    Ensures (x >>= f) s ok' stop' :=
  ensures_bind.2 (h.mono hok hstop)

@[simp] theorem ensures_pure {a : α} :
    Ensures (pure a : EStateM ε σ α) s ok stop ↔ ok a s := Iff.rfl

@[simp] theorem ensures_throw {e : ε} :
    Ensures (throw e : EStateM ε σ α) s ok stop ↔ stop e s := Iff.rfl

@[simp] theorem ensures_get {ok : σ → σ → Prop} :
    Ensures (get : EStateM ε σ σ) s ok stop ↔ ok s s := Iff.rfl

@[simp] theorem ensures_set {ok : PUnit → σ → Prop} :
    Ensures (set t : EStateM ε σ PUnit) s ok stop ↔ ok ⟨⟩ t := Iff.rfl

@[simp] theorem ensures_modify {ok : PUnit → σ → Prop} {g : σ → σ} :
    Ensures (modify g : EStateM ε σ PUnit) s ok stop ↔ ok ⟨⟩ (g s) := Iff.rfl

def answer? : EStateM.Result ε σ α → Option α
  | .ok a _ => some a
  | .error _ _ => none

theorem answer?_eq_some_iff {r : EStateM.Result ε σ α} {a : α} :
    answer? r = some a ↔ ∃ t, r = .ok a t := by
  cases r <;> simp [answer?]

/-- The state in which a computation ends, however it ends. -/
def reached (x : EStateM ε σ α) (s : σ) : σ :=
  match x s with
  | .ok _ t | .error _ t => t

theorem reached_of_ok {a : α} (h : x s = .ok a t) : reached x s = t := by
  rw [reached, h]

theorem reached_of_error {e : ε} (h : x s = .error e t) : reached x s = t := by
  rw [reached, h]

theorem reached_bind_of_ok {a : α} (h : x s = .ok a t) : reached (x >>= f) s = reached (f a) t := by
  rw [PagedKernel.reached, bind_of_ok h, PagedKernel.reached]

theorem reached_bind_of_error {e : ε} (h : x s = .error e t) : reached (x >>= f) s = t := by
  rw [PagedKernel.reached, bind_of_error h]

theorem Ensures.reached (holds : σ → Prop)
    (h : Ensures x s (fun _ t => holds t) (fun _ t => holds t)) : holds (reached x s) := by
  unfold PagedKernel.reached
  split
  · next a t hx => exact h.of_ok hx
  · next e t hx => exact h.of_error hx

end

section

variable {s : σ} {ok : α → σ → Prop}

@[simp] theorem ensures_refuse {e : ε} {stop : Stop ε → σ → Prop} :
    Ensures (refuse e : EStateM (Stop ε) σ α) s ok stop ↔ stop (.refused e) s := Iff.rfl

theorem ensures_orRefuse {e : ε} {o : Option α} {stop : Stop ε → σ → Prop}
    (hsome : ∀ a, o = some a → ok a s) (hnone : o = none → stop (.refused e) s) :
    Ensures (orRefuse e o) s ok stop := by
  cases o with
  | none => exact hnone rfl
  | some a => exact hsome a rfl

@[simp] theorem ensures_zoom {view : σ → τ} {update : σ → τ → σ} {x : EStateM ε τ α}
    {stop : ε → σ → Prop} :
    Ensures (zoom view update x) s ok stop ↔
      Ensures x (view s) (fun a t => ok a (update s t)) (fun e t => stop e (update s t)) := by
  simp only [Ensures, zoom]
  cases x (view s) <;> rfl

@[simp] theorem ensures_mapStop {f : ε → δ} {x : EStateM ε σ α} {stop : δ → σ → Prop} :
    Ensures (mapStop f x) s ok stop ↔ Ensures x s ok (fun e t => stop (f e) t) := by
  simp only [Ensures, mapStop]
  cases x s <;> rfl

theorem ensures_attempt {x : EStateM (Stop ε) σ α} {ok : Except ε α → σ → Prop}
    {stop : Stop ε → σ → Prop} :
    Ensures (attempt x) s ok stop ↔
      Ensures x s (fun a t => ok (.ok a) t) (fun e t =>
        match e with
        | .refused e => ok (.error e) t
        | e => stop e t) := by
  simp only [Ensures, attempt]
  rcases x s with ⟨a, t⟩ | ⟨e, t⟩
  · rfl
  · cases e <;> rfl

end

def Stop.IsRefusal (stop : Stop ε) : Prop := ∃ e, stop = .refused e

/-- A relation between states that holds step by step, from states with an invariant on. -/
class Lasting (inv : σ → Prop) (rel : σ → σ → Prop) : Prop where
  refl : ∀ {s}, inv s → rel s s
  trans : ∀ {s t u}, rel s t → rel t u → rel s u
  keeps : ∀ {s t}, rel s t → inv s → inv t

/-- Where the invariant holds, the computation moves by the relation. It returns with `ok`, or it is
refused. -/
def Obeys (inv : σ → Prop) (rel : σ → σ → Prop) (x : EStateM (Stop ε) σ α) (ok : α → Prop) : Prop :=
  ∀ s, inv s → Ensures x s (fun a t => rel s t ∧ ok a) (fun stop t => rel s t ∧ stop.IsRefusal)

section

variable {inv : σ → Prop} {rel : σ → σ → Prop} [hlasting : Lasting inv rel]
variable {x : EStateM (Stop ε) σ α} {f : α → EStateM (Stop ε) σ β} {ok : α → Prop} {ok' : β → Prop}

theorem Obeys.pure {a : α} (h : ok a) : Obeys inv rel (pure a : EStateM (Stop ε) σ α) ok :=
  fun _ hs => ⟨hlasting.refl hs, h⟩

theorem Obeys.get : Obeys inv rel (get : EStateM (Stop ε) σ σ) (fun _ => True) :=
  fun _ hs => ⟨hlasting.refl hs, trivial⟩

theorem Obeys.refuse (e : ε) : Obeys inv rel (refuse e) ok := fun _ hs => ⟨hlasting.refl hs, e, rfl⟩

theorem Obeys.refuse_bind (e : ε) : Obeys inv rel (PagedKernel.refuse e >>= f) ok' :=
  fun _ hs => ⟨hlasting.refl hs, e, rfl⟩

theorem Obeys.bind (hx : Obeys inv rel x ok) (hf : ∀ a, ok a → Obeys inv rel (f a) ok') :
    Obeys inv rel (x >>= f) ok' := by
  intro s hs
  apply (hx s hs).bind
  · rintro a t ⟨hrel, ha⟩
    apply (hf a ha t (hlasting.keeps hrel hs)).mono
    · rintro b u ⟨hrel', hb⟩
      exact ⟨hlasting.trans hrel hrel', hb⟩
    · rintro stop u ⟨hrel', hstop⟩
      exact ⟨hlasting.trans hrel hrel', hstop⟩
  · intro stop t h
    exact h

omit hlasting in
theorem Obeys.mono {rel' : σ → σ → Prop} {ok' : α → Prop} (hx : Obeys inv rel x ok)
    (hrel : ∀ s t, rel s t → rel' s t) (hok : ∀ a, ok a → ok' a) : Obeys inv rel' x ok' := by
  intro s hs
  apply (hx s hs).mono
  · rintro a t ⟨hst, ha⟩
    exact ⟨hrel s t hst, hok a ha⟩
  · rintro stop t ⟨hst, hstop⟩
    exact ⟨hrel s t hst, hstop⟩

end

end PagedKernel

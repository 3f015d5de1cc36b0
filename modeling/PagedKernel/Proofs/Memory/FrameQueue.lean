import PagedKernel.Proofs.Memory.Ledger

/-!
# The frame pool as a queue

Whatever the pool is asked, it answers as a queue would in which no frame stands twice: frames leave
at the front and join at the end. The marks are as good as the queue. A frame that is refused changes
nothing, so the pool goes on behind a broken rule as if nothing had been asked.
-/

namespace PagedKernel

/-- What a pool is asked for. -/
inductive FrameCall where
  | acquire
  | acquireMany (count : Nat)
  | release (frame : Nat)
deriving DecidableEq, Repr

/-- What a pool answers. -/
inductive FrameReply where
  | handed (frames : List Nat)
  | short
  | back
  | broken (fault : Fault)
deriving DecidableEq, Repr

def FrameReply.frames : FrameReply → List Nat
  | handed frames => frames
  | short | back | broken _ => []

/-- The answers of a queue of frames below `n`, each with the queue that it leaves. -/
inductive FrameQueue (n : Nat) : List Nat → FrameCall → FrameReply → List Nat → Prop
  | head (f : Nat) (rest : List Nat) : FrameQueue n (f :: rest) .acquire (.handed [f]) rest
  | empty : FrameQueue n [] .acquire .short []
  | first {queue : List Nat} {count : Nat} (h : count ≤ queue.length) :
      FrameQueue n queue (.acquireMany count) (.handed (queue.take count)) (queue.drop count)
  | tooFew {queue : List Nat} {count : Nat} (h : queue.length < count) :
      FrameQueue n queue (.acquireMany count) .short queue
  | last {queue : List Nat} {f : Nat} (hf : f < n) (hqueue : f ∉ queue) :
      FrameQueue n queue (.release f) .back (queue ++ [f])
  | double {queue : List Nat} {f : Nat} (hqueue : f ∈ queue) :
      FrameQueue n queue (.release f) (.broken (.doubleRelease f)) queue
  | foreign {queue : List Nat} {f : Nat} (hf : n ≤ f) :
      FrameQueue n queue (.release f) (.broken (.foreignFrame f)) queue

/-- The answers to calls that follow one another. -/
inductive FrameQueue.Runs (n : Nat) :
    List Nat → List FrameCall → List FrameReply → List Nat → Prop
  | nil (queue : List Nat) : Runs n queue [] [] queue
  | cons {queue queue' queue'' : List Nat} {call : FrameCall} {reply : FrameReply}
      {calls : List FrameCall} {replies : List FrameReply}
      (hfirst : FrameQueue n queue call reply queue')
      (hrest : Runs n queue' calls replies queue'') :
      Runs n queue (call :: calls) (reply :: replies) queue''

namespace FramePool

variable {p q : FramePool} {n f : Nat} {held queue : List Nat} {call : FrameCall}
variable {reply : FrameReply}

/-- Asks the pool. A call that is refused, or that breaks a rule, leaves it as it is. -/
def serve (p : FramePool) : FrameCall → FrameReply × FramePool
  | .acquire =>
    match p.acquire? with
    | some (f, q) => (.handed [f], q)
    | none => (.short, p)
  | .acquireMany count =>
    match p.acquireMany? count with
    | some (frames, q) => (.handed frames, q)
    | none => (.short, p)
  | .release f =>
    match p.release f with
    | .ok q => (.back, q)
    | .error fault => (.broken fault, p)

def serveAll (p : FramePool) : List FrameCall → List FrameReply × FramePool
  | [] => ([], p)
  | call :: calls =>
    let (reply, p) := p.serve call
    let (replies, p) := p.serveAll calls
    (reply :: replies, p)

private theorem serveAll_cons (p : FramePool) (call : FrameCall) (calls : List FrameCall) :
    p.serveAll (call :: calls) = ((p.serve call).1 :: ((p.serve call).2.serveAll calls).1,
      ((p.serve call).2.serveAll calls).2) := rfl

private theorem acquire?_eq_some (h : p.acquire? = some (f, q)) : p.acquireMany? 1 = some ([f], q) := by
  obtain ⟨_ | ⟨g, rest⟩, marks⟩ := p
  · cases h
  · cases h
    simp [acquireMany?, available]

private theorem acquire?_eq_none_iff : p.acquire? = none ↔ p.queue = [] := by
  obtain ⟨_ | ⟨g, rest⟩, marks⟩ := p <;> simp [acquire?]

private theorem Ledger.hold (h : p.Ledger n held) (hf : f < n) (hqueue : f ∉ p.queue)
    (hheld : f ∉ held) :
    p.Ledger n (f :: held) where
  capacity := h.capacity
  marked := h.marked
  distinct := by
    refine List.perm_middle.nodup_iff.2 (List.nodup_cons.2 ⟨?_, h.distinct⟩)
    simp [hqueue, hheld]
  below g hg := by
    rcases List.mem_cons.1 (List.perm_middle.mem_iff.1 hg) with rfl | hold
    · exact hf
    · exact h.below g hold

private theorem Ledger.mark_eq (h : p.Ledger n held) (hf : f < n) :
    p.marks[f]? = some (decide (f ∈ p.queue)) := by
  have hlt : f < p.marks.size := Nat.lt_of_lt_of_eq hf h.capacity.symm
  have hmarked := h.marked f
  rw [Array.getElem?_eq_getElem hlt, Option.some.injEq] at hmarked
  rw [Array.getElem?_eq_getElem hlt, Option.some.injEq, Bool.eq_iff_iff, decide_eq_true_iff]
  exact hmarked

private theorem Ledger.serve (h : p.Ledger n []) (call : FrameCall) :
    FrameQueue n p.queue call (p.serve call).1 (p.serve call).2.queue ∧
      (p.serve call).2.Ledger n [] := by
  cases call with
  | acquire =>
    simp only [FramePool.serve]
    cases hacquire : p.acquire? with
    | none =>
      refine ⟨?_, h⟩
      rw [acquire?_eq_none_iff.1 hacquire]
      exact .empty
    | some taken =>
      obtain ⟨f, q⟩ := taken
      obtain ⟨hledger, hqueue, -⟩ := h.acquireMany (acquire?_eq_some hacquire)
      refine ⟨?_, hledger.sublist (List.nil_sublist _)⟩
      rw [← hqueue]
      exact .head f q.queue
  | acquireMany count =>
    simp only [FramePool.serve]
    cases hacquire : p.acquireMany? count with
    | none => exact ⟨.tooFew (acquireMany?_eq_none_iff.1 hacquire), h⟩
    | some taken =>
      obtain ⟨frames, q⟩ := taken
      obtain ⟨rfl, rfl, hcount⟩ := acquireMany?_eq_some hacquire
      exact ⟨.first hcount, (h.acquireMany hacquire).1.sublist (List.nil_sublist _)⟩
  | release f =>
    simp only [FramePool.serve]
    rcases Nat.lt_or_ge f n with hf | hf
    · by_cases hqueue : f ∈ p.queue
      · have hmark : p.marks[f]? = some true := (h.marked f).2 hqueue
        simp only [FramePool.release, hmark]
        exact ⟨.double hqueue, h⟩
      · obtain ⟨q, hrelease, hledger, hq⟩ := (h.hold hf hqueue List.not_mem_nil).release
        simp only [hrelease, hq]
        exact ⟨.last hf hqueue, hledger⟩
    · have hmark : p.marks[f]? = none :=
        Array.getElem?_eq_none (Nat.le_trans (Nat.le_of_eq h.capacity) hf)
      simp only [FramePool.release, hmark]
      exact ⟨.foreign hf, h⟩

end FramePool

namespace FrameQueue

variable {n f : Nat} {queue queue' queue'' : List Nat}
variable {call : FrameCall} {reply reply' : FrameReply}

private theorem unique (hbelow : ∀ f ∈ queue, f < n) (h : FrameQueue n queue call reply queue')
    (h' : FrameQueue n queue call reply' queue'') : reply = reply' ∧ queue' = queue'' := by
  cases h with
  | head f rest =>
    cases h'
    exact ⟨rfl, rfl⟩
  | empty =>
    cases h'
    exact ⟨rfl, rfl⟩
  | first hle =>
    cases h' with
    | first _ => exact ⟨rfl, rfl⟩
    | tooFew hlt => exact absurd hlt (Nat.not_lt.2 hle)
  | tooFew hlt =>
    cases h' with
    | first hle => exact absurd hlt (Nat.not_lt.2 hle)
    | tooFew _ => exact ⟨rfl, rfl⟩
  | last hf hqueue =>
    cases h' with
    | last _ _ => exact ⟨rfl, rfl⟩
    | double hmem => exact absurd hmem hqueue
    | foreign hge => omega
  | double hmem =>
    cases h' with
    | last _ hqueue => exact absurd hmem hqueue
    | double _ => exact ⟨rfl, rfl⟩
    | foreign hge => exact absurd (hbelow _ hmem) (Nat.not_lt.2 hge)
  | foreign hge =>
    cases h' with
    | last hf _ => omega
    | double hmem => exact absurd (hbelow _ hmem) (Nat.not_lt.2 hge)
    | foreign _ => exact ⟨rfl, rfl⟩

private theorem mem_of_handed (h : FrameQueue n queue call reply queue') (hf : f ∈ reply.frames) :
    f ∈ queue := by
  cases h with
  | head g rest => exact List.mem_cons.2 (.inl (List.mem_singleton.1 hf))
  | first _ => exact List.mem_of_mem_take hf
  | empty | tooFew _ | last _ _ | double _ | foreign _ => cases hf

private theorem handed_of_nodup (h : FrameQueue n queue call reply queue') (hnodup : queue.Nodup) :
    reply.frames.Nodup ∧ ∀ f ∈ reply.frames, f ∉ queue' := by
  cases h with
  | head g rest =>
    refine ⟨List.pairwise_singleton .., fun f hf => ?_⟩
    rw [List.mem_singleton.1 hf]
    exact (List.nodup_cons.1 hnodup).1
  | @first _ count _ =>
    rw [← List.take_append_drop count queue] at hnodup
    obtain ⟨hframes, -, hapart⟩ := List.nodup_append.1 hnodup
    exact ⟨hframes, fun f hf hrest => hapart f hf f hrest rfl⟩
  | empty | tooFew _ | last _ _ | double _ | foreign _ => exact ⟨List.nodup_nil, nofun⟩

/-- A frame joins the queue only by being given back. -/
theorem released_of_mem (h : FrameQueue n queue call reply queue') (hbefore : f ∉ queue)
    (hafter : f ∈ queue') : call = .release f ∧ reply = .back := by
  cases h with
  | head g rest => exact absurd (List.mem_cons_of_mem _ hafter) hbefore
  | first _ => exact absurd (List.mem_of_mem_drop hafter) hbefore
  | last hf hqueue =>
    rcases List.mem_append.1 hafter with hold | hnew
    · exact absurd hold hbefore
    · rw [List.mem_singleton.1 hnew]
      exact ⟨rfl, rfl⟩
  | empty | tooFew _ | double _ | foreign _ => exact absurd hafter hbefore

end FrameQueue

namespace FramePool

variable {p q : FramePool} {n f i j count : Nat} {frames queue : List Nat}
variable {calls : List FrameCall} {replies : List FrameReply}

private theorem Ledger.serve_iff {call : FrameCall} {reply : FrameReply} (h : p.Ledger n []) :
    FrameQueue n p.queue call reply queue ↔
      reply = (p.serve call).1 ∧ queue = (p.serve call).2.queue := by
  constructor
  · intro hqueue
    exact hqueue.unique (fun f hf => h.below f (List.mem_append_left _ hf)) (h.serve call).1
  · rintro ⟨rfl, rfl⟩
    exact (h.serve call).1

private theorem Ledger.serveAll (h : p.Ledger n []) (calls : List FrameCall) :
    (p.serveAll calls).2.Ledger n [] := by
  induction calls generalizing p with
  | nil => exact h
  | cons call calls ih =>
    rw [serveAll_cons]
    exact ih (h.serve call).2

private theorem Ledger.nodup_of_mem {reply : FrameReply} (h : p.Ledger n [])
    (hreply : reply ∈ (p.serveAll calls).1) : reply.frames.Nodup := by
  induction calls generalizing p with
  | nil => cases hreply
  | cons call calls ih =>
    obtain ⟨hfirst, hledger⟩ := h.serve call
    rw [serveAll_cons] at hreply
    rcases List.mem_cons.1 hreply with rfl | hrest
    · exact (hfirst.handed_of_nodup (List.nodup_append.1 h.distinct).1).1
    · exact ih hledger hrest

/-- Over any calls the pool answers as its queue does, and in no other way. -/
theorem Ledger.serveAll_iff (h : p.Ledger n []) : FrameQueue.Runs n p.queue calls replies queue ↔
    replies = (p.serveAll calls).1 ∧ queue = (p.serveAll calls).2.queue := by
  induction calls generalizing p replies with
  | nil =>
    constructor
    · rintro ⟨⟩
      exact ⟨rfl, rfl⟩
    · rintro ⟨rfl, rfl⟩
      exact .nil _
  | cons call calls ih =>
    rw [serveAll_cons]
    constructor
    · rintro ⟨⟩
      next hfirst hrest =>
      obtain ⟨rfl, rfl⟩ := h.serve_iff.1 hfirst
      obtain ⟨rfl, rfl⟩ := (ih (h.serve call).2).1 hrest
      exact ⟨rfl, rfl⟩
    · rintro ⟨rfl, rfl⟩
      exact .cons (h.serve call).1 ((ih (h.serve call).2).2 ⟨rfl, rfl⟩)

/-- To take many frames at once is to take them one by one. -/
theorem serveAll_acquire (h : p.acquireMany? count = some (frames, q)) :
    p.serveAll (List.replicate count .acquire) = (frames.map fun f => .handed [f], q) := by
  induction count generalizing p frames with
  | zero =>
    obtain ⟨rfl, rfl, -⟩ := acquireMany?_eq_some h
    rfl
  | succ count ih =>
    obtain ⟨hframes, hq, hcount⟩ := acquireMany?_eq_some h
    obtain ⟨_ | ⟨f, rest⟩, marks⟩ := p
    · exact absurd hcount (Nat.not_succ_le_zero count)
    · have hrest : ¬ rest.length < count := by
        simp only [available, List.length_cons] at hcount
        omega
      have hmany : acquireMany? ⟨rest, unmark marks [f]⟩ count = some (rest.take count, q) := by
        rw [acquireMany?, available, if_neg hrest, hq, hframes]
        rfl
      rw [List.replicate_succ, serveAll_cons, hframes]
      exact congrArg (fun r : List FrameReply × FramePool => (.handed [f] :: r.1, r.2)) (ih hmany)

/-- A frame that is out of the queue is handed out only after it was given back. -/
theorem Ledger.released_before (h : p.Ledger n []) (hf : f ∉ p.queue)
    (hj : ∃ reply, (p.serveAll calls).1[j]? = some reply ∧ f ∈ reply.frames) :
    ∃ k < j, calls[k]? = some (.release f) ∧ (p.serveAll calls).1[k]? = some .back := by
  induction calls generalizing p j with
  | nil =>
    obtain ⟨reply, hreply, -⟩ := hj
    cases hreply
  | cons call calls ih =>
    obtain ⟨hfirst, hledger⟩ := h.serve call
    obtain ⟨reply, hreply, hmem⟩ := hj
    rw [serveAll_cons] at hreply ⊢
    cases j with
    | zero =>
      cases hreply
      exact absurd (hfirst.mem_of_handed hmem) hf
    | succ j =>
      by_cases hafter : f ∈ (p.serve call).2.queue
      · obtain ⟨rfl, hback⟩ := hfirst.released_of_mem hf hafter
        exact ⟨0, Nat.succ_pos j, rfl, congrArg some hback⟩
      · obtain ⟨k, hk, hcall, hback⟩ := ih hledger hafter ⟨reply, hreply, hmem⟩
        exact ⟨k + 1, Nat.succ_lt_succ hk, hcall, hback⟩

/-- A frame that is handed out twice was given back in between. -/
theorem Ledger.released_between (h : p.Ledger n []) (hij : i < j)
    (hi : ∃ reply, (p.serveAll calls).1[i]? = some reply ∧ f ∈ reply.frames)
    (hj : ∃ reply, (p.serveAll calls).1[j]? = some reply ∧ f ∈ reply.frames) :
    ∃ k, i < k ∧ k < j ∧ calls[k]? = some (.release f) ∧
      (p.serveAll calls).1[k]? = some .back := by
  induction calls generalizing p i j with
  | nil =>
    obtain ⟨reply, hreply, -⟩ := hj
    cases hreply
  | cons call calls ih =>
    obtain ⟨hfirst, hledger⟩ := h.serve call
    obtain ⟨j, rfl⟩ := Nat.exists_eq_succ_of_ne_zero (Nat.ne_zero_of_lt hij)
    rw [serveAll_cons] at hi hj ⊢
    cases i with
    | zero =>
      obtain ⟨reply, hreply, hmem⟩ := hi
      cases hreply
      have hnodup : p.queue.Nodup := (List.nodup_append.1 h.distinct).1
      have hleft := (hfirst.handed_of_nodup hnodup).2 f hmem
      obtain ⟨k, hk, hcall, hback⟩ := hledger.released_before hleft hj
      exact ⟨k + 1, Nat.succ_pos k, Nat.succ_lt_succ hk, hcall, hback⟩
    | succ i =>
      obtain ⟨k, hik, hkj, hcall, hback⟩ := ih hledger (Nat.lt_of_succ_lt_succ hij) hi hj
      exact ⟨k + 1, Nat.succ_lt_succ hik, Nat.succ_lt_succ hkj, hcall, hback⟩

/-- A pool of `n` frames answers any calls as the queue of the frames below `n` does. No frame stands
in the queue twice, and the marks tell which frames stand there. Many frames are taken as one by one,
and none is handed out again that was not given back. -/
theorem first_in_first_out (n : Nat) (calls : List FrameCall) :
    let replies : List FrameReply := ((full n).serveAll calls).1
    let p : FramePool := ((full n).serveAll calls).2
    (∀ replies' queue, FrameQueue.Runs n (List.range n) calls replies' queue ↔
      replies' = replies ∧ queue = p.queue) ∧
    (p.queue.Nodup ∧ ∀ f ∈ p.queue, f < n) ∧
    (p.capacity = n ∧ ∀ f < n, p.marks[f]? = some (decide (f ∈ p.queue))) ∧
    (∀ count frames q, p.serve (.acquireMany count) = (.handed frames, q) →
      p.serveAll (List.replicate count .acquire) = (frames.map fun f => .handed [f], q)) ∧
    (∀ reply ∈ replies, reply.frames.Nodup) ∧
    ∀ (i j f : Nat) (reply reply' : FrameReply), i < j → replies[i]? = some reply →
      replies[j]? = some reply' → f ∈ reply.frames → f ∈ reply'.frames →
      ∃ k, i < k ∧ k < j ∧ calls[k]? = some (.release f) ∧ replies[k]? = some .back := by
  intro replies p
  have hfull : (full n).Ledger n [] := .full n
  have hledger : p.Ledger n [] := hfull.serveAll calls
  refine ⟨fun _ _ => hfull.serveAll_iff, ⟨?_, ?_⟩, ⟨hledger.capacity, fun f => hledger.mark_eq⟩,
    ?_, ?_, ?_⟩
  · exact (List.nodup_append.1 hledger.distinct).1
  · exact fun f hf => hledger.below f (List.mem_append_left _ hf)
  · intro count frames q hserve
    apply serveAll_acquire
    simp only [serve] at hserve
    split at hserve
    · next hacquire =>
      cases hserve
      exact hacquire
    · cases hserve
  · exact fun reply hreply => hfull.nodup_of_mem hreply
  · intro i j f reply reply' hij hi hj hf hf'
    exact hfull.released_between hij ⟨reply, hi, hf⟩ ⟨reply', hj, hf'⟩

/-- Broken rules in the middle of a run take nothing from the pool. -/
example : ((full 2).serveAll
      [.acquire, .release 1, .release 7, .acquireMany 2, .release 0, .acquireMany 2]).1 =
    [.handed [0], .broken (.doubleRelease 1), .broken (.foreignFrame 7), .short, .back,
      .handed [1, 0]] := by
  decide

end FramePool

end PagedKernel

import PagedKernel.Proofs.Kernel.Counts

/-!
# Creating processes

An exec that succeeds adds one process, with the next number and with the pages that its program
needs. One that fails, at whichever of its checks, cannot be told from no exec at all but by the marks
of the pages that it looked at. Only if the program was loaded and the host refuses the thread, the
number that the process would have had is used up.
-/

namespace PagedKernel.World

open Turn Kernel

variable {allowed : Move → Prop} {history : List Happening} {w : World}
variable {before after : List Process} {p child : Process} {q : CallRequest} {t : Turn} {n : Nat}
variable {stop : Stop Errno}

/-- Nothing has come of a call. What free frames hold may be different, and their order, the log, and
the number that is next. -/
structure UnchangedByCall (w : World) (before : List Process) (p : Process) (after : List Process)
    (t : Turn) : Prop where
  records : t.kernel.records = w.kernel.records
  ready : t.kernel.ready = w.kernel.ready
  live : t.kernel.live = w.kernel.live
  queue : t.kernel.machine.pool.queue.Perm w.kernel.machine.pool.queue
  marks : t.kernel.machine.pool.marks = w.kernel.machine.pool.marks
  devices : t.kernel.machine.devices = w.kernel.machine.devices
  self : ∃ seen, t.self = { p with table := p.table.marked seen }
  own : ∀ a, t.memory.byte? a = w.byte? p a
  others : ∀ q ∈ before ++ after ++ w.kernel.ready, ∀ a,
    (⟨q.table, t.kernel.machine.memory⟩ : UserMemory).byte? a = w.byte? q a

/-- A process has a new child, with the number `n` and the pages that its program needs. -/
structure ChildAdded (w : World) (p : Process) (q : CallRequest) (n : Nat) (t : Turn)
    (child : Process) :
    Prop where
  pid : child.pid = .nth n
  ready : t.kernel.ready = w.kernel.ready ++ [child]
  children : t.self.children = p.children ++ [.nth n]
  another : .nth n ∉ p.children
  nextOrdinal : t.kernel.nextOrdinal = w.kernel.nextOrdinal + 1
  queue : child.table.mapped ++ t.kernel.machine.pool.queue = w.kernel.machine.pool.queue
  pages : ∃ name args t₁ data entry sections,
    execArguments q ⟨w.kernel, p⟩ = .ok (name, args) t₁ ∧
    w.kernel.machine.devices.files.contents? name = some data ∧
    Image.Declares data entry sections ∧
    child.table.mapped.length =
      Loader.pagesNeeded sections w.kernel.machine.config.stackPages

private theorem unchangedByCall_of_fails (hs : Turn.Sound ⟨w.kernel, p⟩ (before ++ after))
    (h : Fails (before ++ after) ⟨w.kernel, p⟩ stop t) : w.UnchangedByCall before p after t where
  records := h.records
  ready := h.ready
  live := h.live
  queue := h.queue
  marks := by
    have hledger := h.grown.sound.ledger
    rw [h.size] at hledger
    exact hs.ledger.marks_eq hledger h.queue
  devices := h.devices
  self := h.self
  own a := (h.served hs).byte a id
  others _ hq a := (h.served hs).toSpares.byte? hq a

private theorem childAdded_of_gainsChild (hlt : ∀ c ∈ p.children, c.number < w.kernel.nextPid.number)
    (h : GainsChild (before ++ after) q ⟨w.kernel, p⟩ t child) :
    w.ChildAdded p q w.kernel.nextOrdinal t child where
  pid := h.takesUp.pid
  ready := h.takesUp.ready
  children := by
    obtain ⟨seen, hself⟩ := h.self
    rw [hself]
    exact Pid.insert_eq_append hlt
  another hmem := Int32.lt_irrefl (hlt _ hmem)
  nextOrdinal := h.takesUp.nextOrdinal
  queue := h.takesUp.queue
  pages := by
    obtain ⟨name, args, t₁, hpassed, -, hruns⟩ := h.passed
    obtain ⟨data, entry, sections, hlength⟩ := hruns.length_mapped
    exact ⟨name, args, t₁, data, entry, sections, hpassed, hlength⟩

/-- Numbers are given one after another, from that of the root on, and while the host refuses no thread
each is that of a process. An exec that fails is refused and leaves all as it was, but for the number
that is used up when the host refuses the thread. One that succeeds adds one child, which has the next
number, and the frames of the child are as many as its program needs pages. -/
theorem Chronicle.exec_adds_one_or_none (h : Chronicle allowed history w) :
    (∀ i n, (ordinals history)[i]? = some n → n = i + 1) ∧
    w.kernel.nextOrdinal = (ordinals history).length + 1 ∧
    ((∀ n, .unstarted n ∉ history) → spawned history = ordinals history) ∧
    (∀ p ∈ w.processes, p.ordinal ∈ spawned history ∧ p.pid = .nth p.ordinal) ∧
    ∀ before p after, w.running = before ++ p :: after → ∀ q,
      (∀ stop t, exec q ⟨w.kernel, p⟩ = .error stop t →
        stop.IsRefusal ∧ w.UnchangedByCall before p after t ∧
        (t.kernel.nextOrdinal = w.kernel.nextOrdinal ∨ Unstarted ⟨w.kernel, p⟩ stop t)) ∧
      ((ordinals history).length < 2 ^ 31 - 1 → ∀ n t, exec q ⟨w.kernel, p⟩ = .ok n t →
        n = (ordinals history).length + 1 ∧ (Pid.nth n).number.toInt = n ∧
        ∃ child, w.ChildAdded p q n t child) := by
  have hcounts := h.countsMatch
  refine ⟨fun i n hn => ?_, hcounts.next, spawned_eq_ordinals, fun p hp => ?_,
    fun before p after hrunning q => ⟨fun stop t hexec => ?_, fun hfew n t hexec => ?_⟩⟩
  · rw [hcounts.numbered] at hn
    obtain ⟨hi, rfl⟩ := List.getElem?_eq_some_iff.1 hn
    rw [List.getElem_range', Nat.one_mul, Nat.add_comm]
  · have hmem : p ∈ w.unexited history := List.mem_append_right _ hp
    exact ⟨hcounts.mem_spawned hmem, hcounts.named p hmem⟩
  · have hs := sound_turn h.reachable.sound hrunning
    obtain ⟨hrefusal, hfails⟩ := (ensures_exec_gainsChild hs q).of_error hexec
    exact ⟨hrefusal, unchangedByCall_of_fails hs hfails, hfails.nextOrdinal⟩
  · have hs := sound_turn h.reachable.sound hrunning
    obtain ⟨hn, child, hgains⟩ := (ensures_exec_gainsChild hs q).of_ok hexec
    have hnext := hcounts.next
    have hlt : w.kernel.nextOrdinal < 2 ^ 31 := by omega
    have hvalue : n = w.kernel.nextOrdinal := hn.trans (Pid.toNat_nth hlt)
    have hself : p ∈ w.unexited history :=
      List.mem_append_right _ (List.mem_append_left _ (hrunning ▸ List.mem_append_right _
        (List.mem_cons_self ..)))
    have hmatch := h.recordsMatch (Nat.le_of_lt hlt)
    subst hvalue
    refine ⟨hnext, Pid.toInt_nth hlt, child, childAdded_of_gainsChild (fun c hc => ?_) hgains⟩
    exact hmatch.key_lt hlt (hmatch.mem_keys.2 (Or.inr (mem_offspring.2 ⟨p, hself, hc⟩)))

theorem exec_adds_one_or_none_sample : ∃ p, Chronicle Move.Tame sampleFamily.1 sampleFamily.2 ∧
    sampleFamily.2.running = [] ++ p :: [] ∧ ordinals sampleFamily.1 = [1, 2] ∧
    (∃ stop t, exec ⟨2, 0, 0, 8192, 0⟩ ⟨sampleFamily.2.kernel, p⟩ = .error stop t ∧
      stop.IsRefusal ∧ sampleFamily.2.UnchangedByCall [] p [] t) ∧
    ∃ t child, exec ⟨2, 8192, 0, 8192, 0⟩ ⟨sampleFamily.2.kernel, p⟩ = .ok 3 t ∧
      sampleFamily.2.ChildAdded p ⟨2, 8192, 0, 8192, 0⟩ 3 t child := by
  obtain ⟨p, hrunning, -⟩ := exists_sampleFamily
  have hsplit : sampleFamily.2.running = [] ++ p :: [] := hrunning
  have hordinals : ordinals sampleFamily.1 = [1, 2] := by decide +kernel
  have hrefused : ∀ p ∈ sampleFamily.2.running,
      (match exec ⟨2, 0, 0, 8192, 0⟩ ⟨sampleFamily.2.kernel, p⟩ with
        | .ok _ _ => false
        | .error _ _ => true) = true := by decide +kernel
  have hcreated : ∀ p ∈ sampleFamily.2.running,
      (match exec ⟨2, 8192, 0, 8192, 0⟩ ⟨sampleFamily.2.kernel, p⟩ with
        | .ok n _ => n == 3
        | .error _ _ => false) = true := by decide +kernel
  have hp : p ∈ sampleFamily.2.running := hrunning ▸ List.mem_singleton_self p
  obtain ⟨-, -, -, -, hexec⟩ := chronicle_sampleFamily.exec_adds_one_or_none
  refine ⟨p, chronicle_sampleFamily, hsplit, hordinals, ?_, ?_⟩
  · have hfailed := hrefused p hp
    split at hfailed
    · cases hfailed
    · next stop t hx =>
      obtain ⟨hrefusal, hunchanged, -⟩ := (hexec [] p [] hsplit _).1 stop t hx
      exact ⟨stop, t, hx, hrefusal, hunchanged⟩
  · have hdone := hcreated p hp
    split at hdone
    · next n t hx =>
      rw [beq_iff_eq.1 hdone] at hx
      have hfew : (ordinals sampleFamily.1).length < 2 ^ 31 - 1 := by
        rw [hordinals]
        decide
      obtain ⟨-, -, child, hadded⟩ := (hexec [] p [] hsplit _).2 hfew 3 t hx
      exact ⟨t, child, hx, hadded⟩
    · cases hdone

def sampleRefused : World :=
  ⟨tried "" [] (.boot { physPages := 10, stackPages := 1 }
    { files := ({} : FileSystem).insert "" Loader.sampleImage
      refusals := [(2, "no more threads")] }), []⟩

/-- The exec of a child that gets no thread fails, and uses up the number of the child. -/
theorem number_lost_sample : ∃ p t,
    Chronicle Move.Tame (story sampleRefused [.start 1]).1 (story sampleRefused [.start 1]).2 ∧
    (story sampleRefused [.start 1]).2.running = [p] ∧
    exec ⟨2, 8192, 0, 8192, 0⟩ ⟨(story sampleRefused [.start 1]).2.kernel, p⟩ =
      .error (.refused .noMemory) t ∧
    t.kernel.nextPid ≠ (story sampleRefused [.start 1]).2.kernel.nextPid := by
  have hroot : sampleRefused.kernel.ready.length = 1 := by decide +kernel
  obtain ⟨pid, hspawn⟩ := spawn_of_ready hroot
  have hchronicle : Chronicle Move.Tame [] sampleRefused := .begins hspawn
  have hlength : (story sampleRefused [.start 1]).2.running.length = 1 := by decide +kernel
  obtain ⟨p, hrunning⟩ := List.length_eq_one_iff.1 hlength
  have hrefused : ∀ p ∈ (story sampleRefused [.start 1]).2.running,
      (match exec ⟨2, 8192, 0, 8192, 0⟩ ⟨(story sampleRefused [.start 1]).2.kernel, p⟩ with
        | .ok _ _ => false
        | .error stop t => stop == .refused .noMemory && t.kernel.nextPid == ⟨3⟩) = true := by
    decide +kernel
  have hnext : (story sampleRefused [.start 1]).2.kernel.nextPid = ⟨2⟩ := by decide +kernel
  have hfailed := hrefused p (hrunning ▸ List.mem_singleton_self p)
  split at hfailed
  · cases hfailed
  · next stop t hexec =>
    obtain ⟨hstop, hpid⟩ := Bool.and_eq_true_iff.1 hfailed
    rw [eq_of_beq hstop] at hexec
    refine ⟨p, t, chronicle_story hchronicle (by simp), hrunning, hexec, ?_⟩
    rw [eq_of_beq hpid, hnext]
    decide

end PagedKernel.World

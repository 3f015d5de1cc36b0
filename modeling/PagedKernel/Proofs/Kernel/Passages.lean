import PagedKernel.Proofs.Kernel.Moves
import PagedKernel.Proofs.Memory.Passages

/-!
# The accesses of a turn

Whatever the kernel does for a process, and whatever the program does, its pages are reached through
its page table only. The rest of a turn leaves the pages of the process alone.
-/

namespace PagedKernel.Turn

open UserMemory

variable {α β : Type} {t t' t'' : Turn} {others : List Process} {log log' : List Passage}
variable {x : Call α} {f : α → Call β}

/-- The pages of the process, with their entries and their frames, are as they were. -/
structure Unmoved (others : List Process) (t t' : Turn) : Prop where
  sound : t'.Sound others
  table : t'.self.table = t.self.table
  frames : ∀ f ∈ t.self.table.mapped,
    t'.kernel.machine.memory.frame? f = t.kernel.machine.memory.frame? f

theorem Unmoved.refl (h : t.Sound others) : Unmoved others t t := ⟨h, rfl, fun _ _ => rfl⟩

private theorem Left.unmoved (h : Left others t t') (ht : t'.self.table = t.self.table) :
    Unmoved others t t' := ⟨h.sound, ht, fun _ _ => by rw [h.memory]⟩

/-- From whatever state it starts, the computation leaves the pages of the process alone if it
returns, or if it is refused. -/
def LeavesPages (x : Call α) : Prop :=
  ∀ others t, t.Sound others → Ensures x t (fun _ t' => Unmoved others t t')
    fun stop t' => stop.IsRefusal → Unmoved others t t'

/-- From a state on the computation makes these passages: those of its work on the memory of the
process. All else leaves the pages of the process alone. -/
inductive Makes : {α : Type} → Call α → Turn → List Passage → Prop
  | leavesPages {α : Type} {x : Call α} {t : Turn} (h : LeavesPages x) : Makes x t []
  | memory {α : Type} {x : EStateM (Stop Errno) UserMemory α} {t : Turn} {log : List Passage}
      (h : UserMemory.Makes x t.memory log) : Makes (onMemory x) t log
  | bind {α β : Type} {x : Call α} {f : α → Call β} {t t' : Turn} {v : α} {log log' : List Passage}
      (hx : Makes x t log) (hv : x t = .ok v t') (hf : Makes (f v) t' log') :
      Makes (x >>= f) t (log ++ log')
  | stop {α β : Type} {x : Call α} {f : α → Call β} {t t' : Turn} {stop : Stop Errno}
      {log : List Passage} (hx : Makes x t log) (hstop : x t = .error stop t') :
      Makes (x >>= f) t log
  | attempt {α : Type} {x : Call α} {t : Turn} {log : List Passage} (h : Makes x t log) :
      Makes (attempt x) t log

/-- What a turn came to by passages. -/
structure Passed (others : List Process) (log : List Passage) (t t' : Turn) : Prop where
  sound : t'.Sound others
  memory : UserMemory.Passed log t.memory t'.memory

private theorem Unmoved.passed (h : Unmoved others t t') : Passed others [] t t' := by
  refine ⟨h.sound, ?_, ?_, nofun⟩
  · intro p
    simp only [Turn.memory, h.table]
    exact (Passed.refl t.memory).entry p
  · intro _ a
    rw [stored?, Option.none_or]
    apply byte?_congr
    · exact congrArg PageTable.mapping h.table
    · exact h.frames

theorem Passed.trans (h : Passed others log t t') (h' : Passed others log' t' t'') :
    Passed others (log ++ log') t t'' := ⟨h'.sound, h.memory.trans h'.memory⟩

theorem passed_onMemory {x : EStateM (Stop Errno) UserMemory α} (hs : t.Sound others)
    (h : UserMemory.Makes x t.memory log) :
    Passed others log t (t.withMemory (reached x t.memory)) := by
  obtain ⟨hpassed, hconfined⟩ := h.passed hs.framed
  have hedited : Edited (fun _ => True) t.memory (reached x t.memory) :=
    ⟨hconfined, fun _ _ hb => absurd trivial hb⟩
  exact ⟨(stays_of_edited hedited).keeps.sound hs, hpassed⟩

/-- The passages of a turn are what it does to the pages of its process, if it returns or if it is
refused. -/
theorem Makes.passed (h : Makes x t log) (hs : t.Sound others) :
    Ensures x t (fun _ t' => Passed others log t t')
      fun stop t' => stop.IsRefusal → Passed others log t t' := by
  induction h with
  | leavesPages hstill =>
    apply (hstill others _ hs).mono
    · intro _ t' h
      exact h.passed
    · intro stop t' h hrefusal
      exact (h hrefusal).passed
  | @memory α x t log h =>
    have hpassed := passed_onMemory hs h
    rw [onMemory, ensures_zoom]
    apply ensures_intro
    · intro v m hx
      have hm : reached x t.memory = m := reached_of_ok hx
      rw [hm] at hpassed
      exact hpassed
    · intro stop m hx _
      have hm : reached x t.memory = m := reached_of_error hx
      rw [hm] at hpassed
      exact hpassed
  | bind hx hv _ ihx ihf =>
    have hfirst := (ihx hs).of_ok hv
    rw [ensures_bind, ensures_of_ok hv]
    apply (ihf hfirst.sound).mono
    · intro _ t'' h
      exact hfirst.trans h
    · intro stop t'' h hrefusal
      exact hfirst.trans (h hrefusal)
  | stop hx hstop ihx =>
    rw [ensures_bind, ensures_of_error hstop]
    exact (ihx hs).of_error hstop
  | attempt h ih =>
    rw [ensures_attempt]
    apply (ih hs).mono
    · exact fun _ _ h => h
    · rintro (e | code | _ | fault) t' h
      · exact h ⟨e, rfl⟩
      · exact fun hrefusal => h hrefusal
      · exact fun hrefusal => h hrefusal
      · exact fun hrefusal => h hrefusal

/-- From whatever state it starts, the computation makes passages. -/
def Traced (x : Call α) : Prop := ∀ t, ∃ log, Makes x t log

private theorem LeavesPages.traced (h : LeavesPages x) : Traced x := fun _ => ⟨[], .leavesPages h⟩

private theorem traced_onMemory {x : EStateM (Stop Errno) UserMemory α} (hx : UserMemory.Traced x) :
    Traced (onMemory x) := by
  intro t
  obtain ⟨log, h⟩ := hx t.memory
  exact ⟨log, .memory h⟩

private theorem Traced.bind (hx : Traced x) (hf : ∀ v, Traced (f v)) : Traced (x >>= f) := by
  intro t
  obtain ⟨log, hmakes⟩ := hx t
  rcases hrun : x t with ⟨v, t'⟩ | ⟨stop, t'⟩
  · obtain ⟨log', hrest⟩ := hf v t'
    exact ⟨log ++ log', hmakes.bind hrun hrest⟩
  · exact ⟨log, hmakes.stop hrun⟩

private theorem Traced.attempt (hx : Traced x) : Traced (attempt x) := by
  intro t
  obtain ⟨log, h⟩ := hx t
  exact ⟨log, h.attempt⟩

private theorem LeavesPages.get : LeavesPages (get : Call Turn) := fun _ _ hs => Unmoved.refl hs

private theorem LeavesPages.pure (v : α) :
    LeavesPages (pure v : Call α) := fun _ _ hs => Unmoved.refl hs

private theorem LeavesPages.throw (stop : Stop Errno) : LeavesPages (throw stop : Call α) :=
  fun _ _ hs _ => Unmoved.refl hs

private theorem LeavesPages.refuse_bind (e : Errno) :
    LeavesPages (refuse e >>= f) := fun _ _ hs _ => Unmoved.refl hs

private theorem LeavesPages.of_ends (h : ∀ others t, t.Sound others →
    Ensures x t (fun _ _ => False) fun stop _ => ¬ stop.IsRefusal) : LeavesPages x := by
  intro others t hs
  apply (h others t hs).mono
  · intro _ _ hfalse
    exact hfalse.elim
  · intro stop t' hstop hrefusal
    exact absurd hrefusal hstop

private theorem not_isRefusal_ended (code : Int32) : ¬ (.ended code : Stop Errno).IsRefusal := nofun

private theorem leavesPages_onDesk {x : EStateM (Stop Errno) Desk α} {ok : α → Prop}
    (hx : Desk.KeepsFiles x ok) :
    LeavesPages (onDesk x) := by
  intro others t hs
  rw [onDesk, ensures_zoom]
  apply (hx t.desk hs.inRange).mono
  · rintro _ s ⟨htends, -⟩
    have hstays : Stays untouched t _ := stays_of_filesKept htends
    exact ⟨hstays.keeps.sound hs, rfl, fun _ _ => rfl⟩
  · rintro stop s ⟨htends, -⟩ _
    have hstays : Stays untouched t _ := stays_of_filesKept htends
    exact ⟨hstays.keeps.sound hs, rfl, fun _ _ => rfl⟩

private theorem leavesPages_report (e : Event) : LeavesPages (report e) :=
  fun _ _ hs => (left_report hs e).unmoved rfl

private theorem leavesPages_registers (g : Registers → Registers) :
    LeavesPages (modifySelf fun p => { p with registers := g p.registers }) := by
  intro others t hs
  have hleft : Left others t { t with self := { t.self with registers := g t.self.registers } } :=
    left_of_sameProcesses hs (Kernel.SameProcesses.refl _) rfl rfl rfl rfl fun _ hc => hc
  exact hleft.unmoved rfl

private theorem leavesPages_forget (pid : Pid) :
    LeavesPages (modifySelf fun p => { p with children := p.children.erase pid }) := by
  intro others t hs
  have hleft : Left others t (t.forget pid) :=
    left_of_sameProcesses hs (Kernel.SameProcesses.refl _) rfl rfl rfl rfl fun _ hc =>
      List.mem_of_mem_erase hc
  exact hleft.unmoved rfl

private theorem leavesPages_exit (status : Option Int32) : LeavesPages (exit status : Call α) := by
  apply LeavesPages.of_ends
  intro others t hs
  apply (ensures_exit hs status).mono
  · exact fun _ _ h => h
  · rintro stop t' ⟨-, rfl, -⟩
    exact not_isRefusal_ended _

private theorem leavesPages_exception (cause : Exception) : LeavesPages (exception cause) := by
  apply LeavesPages.of_ends
  intro others t hs
  apply (ensures_exception hs cause).mono
  · exact fun _ _ h => h
  · rintro stop t' ⟨-, rfl, -⟩
    exact not_isRefusal_ended _

private theorem leavesPages_raiseObstacle (obstacle : Obstacle) :
    LeavesPages (raiseObstacle obstacle : Call α) := by
  cases obstacle with
  | noFrame f => exact .throw _
  | refused address cause =>
    apply LeavesPages.of_ends
    intro others t hs
    apply (ensures_raise hs cause address).mono
    · exact fun _ _ h => h
    · rintro stop t' ⟨-, rfl, -⟩
      exact not_isRefusal_ended _

/-- A process other than the root is not stopped by a halt, and its pages are left alone. -/
theorem leavesPages_halt : LeavesPages halt := by
  intro others t hs
  have hends := ensures_halt hs
  apply ensures_intro
  · intro n t' hx
    obtain ⟨hother, -⟩ := hends.of_ok hx
    have hignored : halt t = .ok 0 ⟨t.kernel.report (.haltIgnored t.self.pid), t.self⟩ := by
      apply Ensures.eq_ok
      unfold halt
      rw [ensures_bind, ensures_get]
      simp only [hother, ne_eq, not_false_eq_true, if_true]
      exact ⟨rfl, rfl⟩
    rw [hignored] at hx
    cases hx
    exact (left_report hs _).unmoved rfl
  · intro stop t' hx hrefusal
    obtain ⟨-, rfl, -⟩ := hends.of_error hx
    exact absurd hrefusal (not_isRefusal_ended _)

private theorem leavesPages_spawn (name : String) (args : List String) : LeavesPages (do
    let pid ← onKernel (Kernel.spawn name args)
    modifySelf fun p => { p with children := pid.insert p.children }
    return pid.toNat) := by
  intro others t hs
  have hown : ∀ k, Kernel.Grown (t.self :: others) t.kernel k → ∀ f ∈ t.self.table.mapped,
      k.machine.memory.frame? f = t.kernel.machine.memory.frame? f :=
    fun k hgrown f hf => hgrown.foreign f (Kernel.Sound.not_free hs Sound.self_mem hf)
  rw [ensures_bind, onKernel, ensures_zoom]
  apply (Kernel.ensures_spawn hs name args).mono
  · rintro pid k ⟨hgrown, rfl, child, htakes⟩
    have hself : t.self.ordinal < t.kernel.nextOrdinal := hs.numbered _ Sound.self_mem
    have hgrownTurn : Turn.Sound ⟨k, t.self⟩ others := hgrown.sound
    have hchild : Served others untouched ⟨k, t.self⟩ _ :=
      served_addChild hgrownTurn fun e he hpid => htakes.younger hself he hpid
    exact ⟨hchild.sound, rfl, hown k hgrown⟩
  · rintro stop k ⟨hgrown, -⟩ _
    exact ⟨hgrown.sound, rfl, hown k hgrown⟩

private theorem leavesPages_takeRecord (pid : Pid) : LeavesPages (onKernel fun k =>
    match k.takeRecord? pid with
    | some (record, k) => .ok record k
    | none => .error (.refused .noChild) k) := by
  intro others t hs
  refine ensures_zoom.2 ?_
  unfold Ensures Kernel.takeRecord?
  dsimp only
  cases t.kernel.records.find? pid with
  | none => exact fun _ => Unmoved.refl hs
  | some record =>
    let kernel : Kernel := { t.kernel with records := t.kernel.records.erase pid }
    have hsameprocs : t.kernel.SameProcesses kernel :=
      ⟨rfl, rfl, rfl, rfl, fun _ he => List.mem_of_mem_filter he⟩
    have hleft : Left others t ⟨kernel, t.self⟩ :=
      left_of_sameProcesses hs hsameprocs rfl rfl rfl rfl fun _ hc => hc
    exact hleft.unmoved rfl

private theorem traced_maxStringLength : Traced maxStringLength :=
  Traced.bind LeavesPages.get.traced fun _ => (LeavesPages.pure _).traced

private theorem traced_stringArgument (r : Int32) : Traced (stringArgument r) := by
  unfold stringArgument
  apply traced_maxStringLength.bind
  intro most
  apply traced_onMemory
  apply (traced_pointer r).bind
  intro va
  exact traced_getString va.toNat most

private theorem traced_sizeArgument (r : Int32) : Traced (sizeArgument r) := by
  unfold sizeArgument
  split
  · exact (LeavesPages.throw _).traced
  · exact (LeavesPages.pure _).traced

private theorem traced_openNamed (create : Bool) (q : CallRequest) : Traced (openNamed create q) := by
  unfold openNamed
  apply (traced_stringArgument q.arg1).bind
  intro name
  exact (leavesPages_onDesk (Desk.keepsFiles_openFile name create)).traced

private theorem traced_readChunks (slot address chunks size : Nat) :
    Traced (readChunks slot address chunks size) := by
  induction chunks generalizing address size with
  | zero => exact (LeavesPages.pure _).traced
  | succ chunks ih =>
    rw [readChunks]
    split
    · exact (LeavesPages.pure _).traced
    · have hread := Desk.keepsFiles_onFile (fun _ => Channel.ensures_read (min size pageSize)) slot
      apply (leavesPages_onDesk hread).traced.bind
      intro data
      apply (traced_onMemory (traced_putBytes address data)).bind
      intro _
      split
      · exact (LeavesPages.pure _).traced
      · apply (ih (address + data.length) (size - data.length)).bind
        intro more
        exact (LeavesPages.pure _).traced

private theorem traced_writeChunks (slot address chunks size : Nat) :
    Traced (writeChunks slot address chunks size) := by
  induction chunks generalizing address size with
  | zero => exact (LeavesPages.pure _).traced
  | succ chunks ih =>
    rw [writeChunks]
    split
    · exact (LeavesPages.pure _).traced
    · apply (traced_onMemory (traced_fetch address (min size pageSize))).bind
      intro data
      split
      · exact (LeavesPages.refuse_bind _).traced
      · have hwrite := Desk.keepsFiles_onFile (fun _ => Channel.ensures_write data) slot
        apply (leavesPages_onDesk hwrite).traced.bind
        intro count
        split
        · exact (LeavesPages.refuse_bind _).traced
        · exact ih _ _

private theorem traced_readCall (q : CallRequest) : Traced (readCall q) := by
  unfold readCall
  apply (traced_onMemory (traced_pointer q.arg2)).bind
  intro va
  apply (leavesPages_onDesk (Desk.keepsFiles_file _)).traced.bind
  intro found
  apply (traced_sizeArgument q.arg3).bind
  intro size
  exact traced_readChunks _ _ _ _

private theorem traced_writeCall (q : CallRequest) : Traced (writeCall q) := by
  unfold writeCall
  apply (traced_onMemory (traced_pointer q.arg2)).bind
  intro va
  apply (leavesPages_onDesk (Desk.keepsFiles_file _)).traced.bind
  intro found
  apply (traced_sizeArgument q.arg3).bind
  intro size
  apply (traced_onMemory (traced_checkRange va.toNat size .read)).bind
  intro _
  apply (traced_writeChunks _ _ _ _).bind
  intro _
  exact (LeavesPages.pure _).traced

private theorem traced_closeCall (q : CallRequest) : Traced (closeCall q) := by
  unfold closeCall
  apply (leavesPages_onDesk (Desk.keepsFiles_close q.arg1.toInt_lt)).traced.bind
  intro _
  exact (LeavesPages.pure _).traced

private theorem traced_unlinkCall (q : CallRequest) : Traced (unlinkCall q) := by
  unfold unlinkCall
  apply (traced_stringArgument q.arg1).bind
  intro name
  exact (leavesPages_onDesk (keepsFiles_remove name)).traced

private theorem traced_stringArguments (address count : Nat) :
    Traced (stringArguments address count) := by
  induction count generalizing address with
  | zero => exact (LeavesPages.pure _).traced
  | succ count ih =>
    rw [stringArguments]
    apply (traced_onMemory (traced_getWord address)).bind
    intro pointer
    apply (traced_stringArgument pointer.toInt32).bind
    intro arg
    apply (ih (address + ArgumentArea.pointerSize)).bind
    intro rest
    exact (LeavesPages.pure _).traced

private theorem traced_execArguments (q : CallRequest) : Traced (execArguments q) := by
  unfold execArguments
  apply traced_maxStringLength.bind
  intro most
  apply (traced_onMemory (traced_pointer q.arg1)).bind
  intro nameVa
  split
  · exact (LeavesPages.refuse_bind _).traced
  · apply (traced_onMemory (traced_pointer q.arg3)).bind
    intro argv
    apply (traced_onMemory (traced_getString nameVa.toNat most)).bind
    intro name
    apply (traced_onMemory (traced_checkRange _ _ .read)).bind
    intro _
    apply (traced_stringArguments argv.toNat _).bind
    intro args
    exact (LeavesPages.pure _).traced

private theorem traced_exec (q : CallRequest) : Traced (exec q) := by
  unfold exec
  apply (traced_execArguments q).bind
  rintro ⟨name, args⟩
  exact (leavesPages_spawn name args).traced

private theorem traced_join (q : CallRequest) : Traced (join q) := by
  unfold join
  apply (traced_onMemory (traced_pointer q.arg2)).bind
  intro va
  apply LeavesPages.get.traced.bind
  intro t
  split
  · exact (LeavesPages.refuse_bind _).traced
  · apply (leavesPages_forget _).traced.bind
    intro _
    apply (leavesPages_takeRecord _).traced.bind
    rintro ⟨name, ordinal, _ | (_ | status) | f⟩
    · exact (LeavesPages.throw _).traced
    · exact (LeavesPages.pure _).traced
    · apply (traced_onMemory (traced_putWord va.toNat status.toUInt32)).bind
      intro _
      exact (LeavesPages.pure _).traced
    · exact (LeavesPages.throw _).traced

private theorem traced_serve (call : CallNumber) (q : CallRequest) : Traced (serve call q) := by
  cases call with
  | halt => exact leavesPages_halt.traced
  | exit => exact (leavesPages_exit _).traced
  | exec => exact traced_exec q
  | join => exact traced_join q
  | create => exact traced_openNamed true q
  | openFile => exact traced_openNamed false q
  | read => exact traced_readCall q
  | write => exact traced_writeCall q
  | close => exact traced_closeCall q
  | unlink => exact traced_unlinkCall q

private theorem traced_syscall : Traced syscall := by
  unfold syscall
  apply LeavesPages.get.traced.bind
  intro t
  dsimp only
  cases CallNumber.decode t.self.registers.request.number with
  | error e =>
    apply (leavesPages_report _).traced.bind
    intro _
    exact (leavesPages_exit none).traced
  | ok call =>
    apply (traced_serve call _).attempt.bind
    intro result
    cases result with
    | ok n =>
      exact (leavesPages_registers fun r => r.answer (.ok n)).traced
    | error e =>
      apply (leavesPages_report _).traced.bind
      intro _
      exact (leavesPages_registers fun r => r.answer (.error e)).traced

private theorem loadBytes_eq_moveOut (address length : Nat) : loadBytes address length =
    (onMemory (moveOut address length) >>= fun copy =>
      match copy.obstacle with
      | none => pure copy.bytes
      | some obstacle => raiseObstacle obstacle) := rfl

private theorem storeBytes_eq_moveIn (address : Nat) (data : Bytes) : storeBytes address data =
    (onMemory (moveIn address data.length data) >>= fun copy =>
      match copy.obstacle with
      | none => pure ()
      | some obstacle => raiseObstacle obstacle) := rfl

private theorem traced_loadBytes (address length : Nat) : Traced (loadBytes address length) := by
  rw [loadBytes_eq_moveOut]
  apply (traced_onMemory (traced_moveOut address length)).bind
  intro copy
  cases copy.obstacle with
  | none => exact (LeavesPages.pure _).traced
  | some obstacle => exact (leavesPages_raiseObstacle obstacle).traced

private theorem traced_storeBytes (address : Nat) (data : Bytes) :
    Traced (storeBytes address data) := by
  rw [storeBytes_eq_moveIn]
  apply (traced_onMemory (traced_moveIn address (Nat.le_refl _))).bind
  intro copy
  cases copy.obstacle with
  | none => exact (LeavesPages.pure _).traced
  | some obstacle => exact (leavesPages_raiseObstacle obstacle).traced

theorem traced_run (m : Move) : Traced m.run := by
  cases m with
  | compute registers => exact (leavesPages_registers fun _ => registers).traced
  | call =>
    unfold Move.run
    apply LeavesPages.get.traced.bind
    intro t
    split
    · exact LeavesPages.traced fun _ _ hs _ => Unmoved.refl hs
    · exact traced_syscall
  | load address length =>
    apply (traced_loadBytes address length).bind
    intro _
    exact (LeavesPages.pure _).traced
  | store address data => exact traced_storeBytes address data
  | raise cause => exact (leavesPages_exception cause).traced
  | leave => exact (leavesPages_exit none).traced
  | die f => exact (LeavesPages.throw _).traced

end PagedKernel.Turn

import PagedKernel.Proofs.Kernel.Twins

/-!
# Turns of twins

Twins that take the same turn come to the same, and so do the kernels around them. What a turn does
for its process is compared first, and then that it spares all others in both kernels.
-/

namespace PagedKernel

open UserMemory

namespace Turn

variable {α : Type} {t t' u u' : Turn} {others others' : List Process} {touched : Nat → Prop}
variable {m m' : UserMemory}

/-- The others are spared, and no one has become ready. -/
structure SparesReady (others : List Process) (t t' : Turn) : Prop extends Spares others t t' where
  same : t'.kernel.ready = t.kernel.ready

def AlwaysSparesReady (x : Call α) : Prop :=
  ∀ others t, t.Sound others → Ensures x t (fun _ u => SparesReady others t u) fun _ u =>
    SparesReady others t u

private theorem Keeps.sparesReady (h : Keeps touched t t') (hs : t.Sound others) :
    SparesReady others t t' :=
  ⟨h.spares hs, h.ready⟩

private theorem Left.sparesReady (h : Left others t t') (hready : t'.kernel.ready = t.kernel.ready) :
    SparesReady others t t' := ⟨h.toSpares, hready⟩

private theorem alwaysSparesReady_of_serves (touched : Nat → Prop) {x : Call α} {ok : α → Prop}
    (hx : ∀ others, Serves others touched x ok) : AlwaysSparesReady x := by
  intro others t hs
  apply (hx others t hs).mono
  · rintro _ u ⟨hstays, -⟩
    exact hstays.keeps.sparesReady hs
  · rintro _ u ⟨hstays, -⟩
    exact hstays.keeps.sparesReady hs

theorem alwaysSparesReady_exit (status : Option Int32) : AlwaysSparesReady (exit status : Call α) := by
  intro others t hs
  apply (ensures_exit hs status).mono
  · intro _ _ h
    exact h.elim
  · rintro _ u ⟨hleft, -, hexits⟩
    exact hleft.sparesReady hexits.ready

private theorem alwaysSparesReady_halt : AlwaysSparesReady halt := by
  intro others t hs
  apply (ensures_halt hs).mono
  · rintro _ u ⟨-, -, hkeeps, -⟩
    exact hkeeps.sparesReady hs
  · rintro _ u ⟨hleft, -, hhalts⟩
    exact hleft.sparesReady hhalts.ready

private theorem ready_learn (va : VirtualAddress) (outcome : Option Outcome) (t : Turn) :
    Ensures (learn va outcome) t (fun _ u => u.kernel.ready = t.kernel.ready)
      fun _ u => u.kernel.ready = t.kernel.ready := by
  match outcome with
  | none => exact rfl
  | some (.died _) => exact rfl
  | some (.ended none) => exact rfl
  | some (.ended (some status)) =>
    exact ensures_bind.2 (ensures_zoom.2 (ensures_intro (fun _ _ _ => rfl) fun _ _ _ => rfl))

private theorem ready_join (q : CallRequest) (t : Turn) :
    Ensures (join q) t (fun _ u => u.kernel.ready = t.kernel.ready)
      fun _ u => u.kernel.ready = t.kernel.ready :=
  ensures_join_of rfl rfl fun va outcome => ready_learn va outcome (t.reap _)

private theorem alwaysSparesReady_join (q : CallRequest) : AlwaysSparesReady (join q) := by
  intro others t hs
  have hready := ready_join q t
  have hserved := ensures_join hs q
  apply ensures_intro
  · intro n u hx
    exact ⟨(hserved.of_ok hx).1.toSpares, hready.of_ok hx⟩
  · intro stop u hx
    exact ⟨(hserved.of_error hx).1.toSpares, hready.of_error hx⟩

/-- Only an exec makes a process ready. -/
theorem alwaysSparesReady_serve {call : CallNumber} (hexec : call ≠ .exec) (q : CallRequest) :
    AlwaysSparesReady (serve call q) := by
  cases call with
  | halt => exact alwaysSparesReady_halt
  | exit => exact alwaysSparesReady_exit _
  | exec => exact absurd rfl hexec
  | join => exact alwaysSparesReady_join q
  | create => exact alwaysSparesReady_of_serves untouched fun _ => serves_openNamed true q
  | openFile => exact alwaysSparesReady_of_serves untouched fun _ => serves_openNamed false q
  | read => exact alwaysSparesReady_of_serves _ fun _ => serves_readCall q
  | write => exact alwaysSparesReady_of_serves untouched fun _ => serves_writeCall q
  | close => exact alwaysSparesReady_of_serves untouched fun _ => serves_closeCall q
  | unlink => exact alwaysSparesReady_of_serves untouched fun _ => serves_unlinkCall q

theorem alwaysSparesReady_exception (cause : Exception) : AlwaysSparesReady (exception cause) := by
  intro others t hs
  apply (ensures_exception hs cause).mono
  · intro _ _ h
    exact h.elim
  · rintro _ u ⟨hleft, -, hexits⟩
    exact hleft.sparesReady hexits.ready

theorem alwaysSparesReady_loadBytes (address length : Nat) :
    AlwaysSparesReady (loadBytes address length) := by
  intro others t hs
  apply (ensures_loadBytes hs address length).mono
  · rintro _ u ⟨hkeeps, -⟩
    exact hkeeps.sparesReady hs
  · rintro _ u ⟨hleft, -, hexits⟩
    exact hleft.sparesReady hexits.ready

theorem alwaysSparesReady_storeBytes (address : Nat) (data : Bytes) :
    AlwaysSparesReady (storeBytes address data) := by
  intro others t hs
  apply (ensures_storeBytes hs address data).mono
  · rintro _ u ⟨hkeeps, -⟩
    exact hkeeps.sparesReady hs
  · rintro _ u ⟨hspares, -, hexits⟩
    exact ⟨hspares, hexits.ready⟩

private theorem agree_releaseResources (h : Twin t t') (hs : t.Sound others) (hs' : t'.Sound others') :
    Agree Twin (releaseResources t) (releaseResources t') := by
  obtain ⟨pool, hrelease, -, hqueue⟩ := exists_releaseResources_eq hs
  obtain ⟨pool', hrelease', -, hqueue'⟩ := exists_releaseResources_eq hs'
  have hpool : pool'.available = pool.available := by
    have hsame := h.level.available
    simp only [FramePool.available] at hsame
    simp only [FramePool.available, hqueue, hqueue', List.length_append, hsame,
      PageTable.length_frames_eq_of_faceless h.self.memory.faceless]
  rw [hrelease, hrelease', h.desk, PageTable.length_frames_eq_of_faceless h.self.memory.faceless]
  have hnone : ∀ m : Memory, UserMemory.Framed ⟨{}, m⟩ := fun _ _ hf => absurd hf List.not_mem_nil
  refine .ok ⟨⟨?_, rfl, fun _ => rfl, hnone _, hnone _, .nil, .nil⟩, ?_⟩
  · rw [freed, freed, h.desk]
    simp only
    rw [h.self.same]
  · refine { h.level with devices := ?_, available := hpool }
    rw [freed, freed, h.desk]

private theorem agree_exit (h : Twin t t') (hs : t.Sound others) (hs' : t'.Sound others')
    (status : Option Int32) : Agree Twin ((exit status : Call α) t) ((exit status : Call α) t') := by
  unfold exit
  apply (agree_releaseResources h hs hs').bind
  · rintro ⟨closed, released⟩
    apply (parallel_modifySelf fun _ _ => rfl).bind
    intro _
    apply Parallel.get (g := fun t => (t.self.pid, t.self.children)) (k := fun c => do
      modifySelf fun p => { p with children := [] }
      modifyKernel fun k => k.disown c.2
      report (.exited c.1 status closed released)
      modifySelf fun p => { p with phase := .exited }
      modifyKernel Kernel.processExited
      throw (.ended (status.getD (-1))))
    · intro u u' hu
      rw [hu.self.same]
    · intro c
      apply (parallel_modifySelf fun _ _ => rfl).bind
      intro _
      apply (parallel_modifyKernel (fun _ _ h => h.disown c.2)
        fun k => (k.sameProcesses_disown c.2).memory).bind
      intro _
      apply (parallel_report _).bind
      intro _
      apply (parallel_modifySelf fun _ _ => rfl).bind
      intro _
      apply (parallel_modifyKernel (fun _ _ h => h.processExited)
        fun k => k.sameProcesses_processExited.memory).bind
      intro _
      exact .throw _
  · intro _ _ hu
    exact hu

def haltAs (pid : Pid) : Call Nat := do
  if pid ≠ .root then
    report (.haltIgnored pid)
    return 0
  let (closed, released) ← releaseResources
  report (.halted pid closed released)
  modifySelf fun p => { p with phase := .exited }
  modifyKernel Kernel.halt
  throw (.ended 0)

private theorem agree_halt (h : Twin t t') (hs : t.Sound others) (hs' : t'.Sound others') :
    Agree Twin (halt t) (halt t') := by
  apply Agree.get (g := fun t : Turn => t.self.pid) (k := haltAs)
  · exact h.self.pid
  · unfold haltAs
    split
    · apply (parallel_report _).bind _ t t' h
      intro _
      exact .pure _
    · apply (agree_releaseResources h hs hs').bind
      · rintro ⟨closed, released⟩
        apply (parallel_report _).bind
        intro _
        apply (parallel_modifySelf fun _ _ => rfl).bind
        intro _
        apply (parallel_modifyKernel (fun _ _ h => h.halt) fun k => k.sameProcesses_halt.memory).bind
        intro _
        exact .throw _
      · intro _ _ hu
        exact hu

private theorem agree_serve {call : CallNumber} (hexec : call ≠ .exec) (h : Twin t t')
    (hs : t.Sound others) (hs' : t'.Sound others') (q : CallRequest) :
    Agree Twin (serve call q t) (serve call q t') := by
  by_cases hhalt : call = .halt
  · subst hhalt
    exact agree_halt h hs hs'
  · by_cases hexit : call = .exit
    · subst hexit
      exact agree_exit h hs hs' _
    · exact parallel_serve hhalt hexit hexec q t t' h

private theorem Twin.report (h : Twin t t') (e : Event) :
    Twin ⟨t.kernel.report e, t.self⟩ ⟨t'.kernel.report e, t'.self⟩ := ⟨h.self, h.level.report e⟩

private theorem agree_exception (h : Twin t t') (hs : t.Sound others) (hs' : t'.Sound others')
    (cause : Exception) : Agree Twin (exception cause t) (exception cause t') := by
  unfold exception
  apply Agree.get (g := fun t : Turn => (t.self.pid, t.self.registers)) (k := fun c => do
    report (.unexpected c.1 cause (c.2.get .badVaddr) (c.2.get .pc))
    exit none)
  · rw [h.self.same]
  · exact agree_exit (h.report _) (left_report hs _).sound (left_report hs' _).sound none

private theorem agree_raise (h : Twin t t') (hs : t.Sound others) (hs' : t'.Sound others')
    (cause : Exception) (address : Nat) :
    Agree Twin ((raise cause address : Call α) t) ((raise cause address : Call α) t') := by
  have hnoted : ∀ {others : List Process} {t : Turn}, t.Sound others →
      (t.withBadAddress address).Sound others := by
    intro others t hs
    have hleft : Left others t (t.withBadAddress address) :=
      left_of_sameProcesses hs (Kernel.SameProcesses.refl _) rfl rfl rfl rfl fun _ hc => hc
    exact hleft.sound
  have htwin : Twin (t.withBadAddress address) (t'.withBadAddress address) := by
    refine ⟨⟨?_, h.self.memory⟩, h.level⟩
    simp only [withBadAddress]
    rw [h.self.same]
  change Agree Twin ((trapped cause : Call α) (t.withBadAddress address))
    ((trapped cause : Call α) (t'.withBadAddress address))
  unfold trapped
  apply (agree_exception htwin (hnoted hs) (hnoted hs') cause).bind
  · intro _ _ _ hu
    exact .error hu
  · intro _ _ hu
    exact hu

private theorem agree_afterCopy (h : Twin t t') (hs : (t.withMemory m).Sound others)
    (hs' : (t'.withMemory m').Sound others') (hm : UserMemory.Twin m m') (value : α)
    (obstacle : Option Obstacle) :
    Agree Twin (t.afterCopy value m obstacle) (t'.afterCopy value m' obstacle) := by
  have hmoved : Twin (t.withMemory m) (t'.withMemory m') := by
    refine ⟨⟨?_, hm⟩, { h.level with }⟩
    simp only [withMemory]
    rw [h.self.same]
  match obstacle with
  | none => exact .ok hmoved
  | some (.noFrame f) => exact .error hmoved
  | some (.refused address cause) => exact agree_raise hmoved hs hs' cause address

theorem agree_loadBytes (h : Twin t t') (hs : t.Sound others) (hs' : t'.Sound others')
    (address length : Nat) : Agree Twin (loadBytes address length t) (loadBytes address length t') := by
  have hloaded : ∀ {others : List Process} {t : Turn}, t.Sound others → (t.withMemory
      ⟨(copyOut t.memory.memory t.memory.table (Span.ofRange address length)).table,
        t.memory.memory⟩).Sound others := by
    intro others t hs
    obtain ⟨-, htable, -, -⟩ := copyOut_ofRange hs.framed address length
    rw [htable]
    let n := t.memory.table.reach .read address length
    have hread : Edited untouched t.memory (t.memory.afterRead address n) := edited_afterRead ..
    exact (stays_of_edited hread).keeps.sound hs
  obtain ⟨hbytes, hobstacle, htwin⟩ := h.self.memory.copyOut address length
  rw [loadBytes_eq, loadBytes_eq, show t'.memory = ⟨t'.self.table, _⟩ from rfl, hbytes, hobstacle]
  exact agree_afterCopy h (hloaded hs) (hloaded hs') htwin _ _

private theorem agree_storeBytes (h : Twin t t') (hs : t.Sound others) (hs' : t'.Sound others')
    (address : Nat) (data : Bytes) :
    Agree Twin (storeBytes address data t) (storeBytes address data t') := by
  have hstored : ∀ {others : List Process} {t : Turn}, t.Sound others → (t.withMemory
      (copyIn t.memory (Span.ofRange address data.length) data).target).Sound others := by
    intro others t hs
    obtain ⟨-, hwrote, -, -⟩ := copyIn_ofRange hs.framed address (Nat.le_refl data.length)
    have hedited : Edited (fun _ => True) t.memory _ := hwrote.edited fun _ _ _ => trivial
    exact (stays_of_edited hedited).keeps.sound hs
  obtain ⟨hobstacle, htwin⟩ := h.self.memory.copyIn address data
  rw [storeBytes_eq, storeBytes_eq, show t'.memory = ⟨t'.self.table, _⟩ from rfl, hobstacle]
  exact agree_afterCopy h (hstored hs) (hstored hs') htwin _ _

/-- Two turns of a process on sound kernels with the same processes, one of them with each of the
others that are running. -/
structure Twins (others others' : List Process) (t t' : Turn) : Prop where
  sound : t.Sound others
  sound' : t'.Sound others'
  kernels : Kernel.Twins (t.self :: others) (t'.self :: others') t.kernel t'.kernel

theorem Twins.twin (h : Twins others others' t t') : Twin t t' := by
  cases h.kernels.running with
  | cons hp _ => exact ⟨hp, h.kernels.level⟩

/-- Where the others are spared they stay twins. -/
theorem Twins.after (h : Twins others others' t t') (hu : Twin u u') (hs : SparesReady others t u)
    (hs' : SparesReady others' t' u') : Twins others others' u u' := by
  have hothers : Process.Twins u.kernel.machine.memory u'.kernel.machine.memory others others' := by
    cases h.kernels.running with
    | cons _ hrest =>
      apply Process.Twins.congr hrest
      · intro q hq
        exact hs.frames q (List.mem_append_left _ hq)
      · intro q hq
        exact hs'.frames q (List.mem_append_left _ hq)
  refine ⟨hs.sound, hs'.sound, hu.level, .cons hu.self hothers, ?_⟩
  rw [hs.same, hs'.same]
  apply h.kernels.ready.congr
  · intro q hq
    exact hs.frames q (List.mem_append_right _ hq)
  · intro q hq
    exact hs'.frames q (List.mem_append_right _ hq)

theorem Twins.agree {x : Call α} (h : Twins others others' t t') (hx : AlwaysSparesReady x)
    (hagree : Agree Twin (x t) (x t')) : Agree (Twins others others') (x t) (x t') :=
  hagree.ensures (hx others t h.sound) (hx others' t' h.sound')
    (fun _ _ _ hu hs hs' => h.after hu hs hs')
    fun _ _ _ hu hs hs' => h.after hu hs hs'

private theorem alwaysSparesReady_execArguments (q : CallRequest) :
    AlwaysSparesReady (execArguments q) := by
  have hsparing : ∀ {others : List Process} {t u : Turn}, t.Sound others → Looks t u →
      SparesReady others t u := by
    intro others t u hs hlooks
    have hstays : Stays untouched t u := hlooks.stays
    exact hstays.keeps.sparesReady hs
  intro others t hs
  apply (finds_execArguments hs.framed q).mono
  · rintro _ u ⟨hlooks, -⟩
    exact hsparing hs hlooks
  · rintro _ u ⟨hlooks, -⟩
    exact hsparing hs hlooks

private theorem Twins.exec (h : Twins others others' t t') (q : CallRequest) :
    Agree (Twins others others') (Turn.exec q t) (Turn.exec q t') := by
  let kernels (u u' : Turn) : Prop :=
    Kernel.Twins (u.self :: others) (u'.self :: others') u.kernel u'.kernel
  have hagree : Agree kernels (Turn.exec q t) (Turn.exec q t') := by
    unfold Turn.exec
    apply (h.agree (alwaysSparesReady_execArguments q) (parallel_execArguments q t t' h.twin)).bind
    · rintro ⟨name, args⟩ u u' hu
      have hspawn : Agree kernels (onKernel (Kernel.spawn name args) u)
          (onKernel (Kernel.spawn name args) u') :=
        (hu.kernels.spawn hu.sound hu.sound' name args).zoom fun _ _ hk => hk
      apply hspawn.bind
      · intro pid v v' hv
        refine .ok ⟨hv.level, ?_, hv.ready⟩
        cases hv.running with
        | cons hp hrest =>
          refine .cons ⟨?_, hp.memory⟩ hrest
          simp only
          rw [hp.same]
      · intro _ _ hv
        exact hv
    · intro _ _ hu
      exact hu.kernels
  apply hagree.ensures (ensures_exec h.sound q) (ensures_exec h.sound' q)
  · intro _ u u' hu hs hs'
    exact ⟨hs.1.sound, hs'.1.sound, hu⟩
  · intro _ u u' hu hs hs'
    exact ⟨hs.1.sound, hs'.1.sound, hu⟩

private theorem Twins.serve (h : Twins others others' t t') (call : CallNumber) (q : CallRequest) :
    Agree (Twins others others') (Turn.serve call q t) (Turn.serve call q t') := by
  by_cases hexec : call = .exec
  · subst hexec
    exact h.exec q
  · exact h.agree (alwaysSparesReady_serve hexec q) (agree_serve hexec h.twin h.sound h.sound' q)

private theorem Twins.noted {x : Call α} (h : Twins others others' t t') (hx : Parallel Twin x)
    (hleft : ∀ {others : List Process} {t : Turn}, t.Sound others →
      Ensures x t (fun _ u => Left others t u ∧ u.kernel.ready = t.kernel.ready) fun _ _ => False) :
    Agree (Twins others others') (x t) (x t') := by
  refine h.agree ?_ (hx t t' h.twin)
  intro others t hs
  apply (hleft hs).mono
  · rintro _ u ⟨hu, hready⟩
    exact hu.sparesReady hready
  · intro _ _ hu
    exact hu.elim

private theorem Twins.report (h : Twins others others' t t') (e : Event) :
    Agree (Twins others others') (Turn.report e t) (Turn.report e t') :=
  h.noted (parallel_report e) fun hs => ⟨left_report hs e, rfl⟩

private theorem Twins.exit (h : Twins others others' t t') (status : Option Int32) :
    Agree (Twins others others') ((Turn.exit status : Call α) t) ((Turn.exit status : Call α) t') :=
  h.agree (alwaysSparesReady_exit status) (agree_exit h.twin h.sound h.sound' status)

private theorem Twins.registers (h : Twins others others' t t') (f : Registers → Registers) :
    Agree (Twins others others') (modifySelf (fun p => { p with registers := f p.registers }) t)
      (modifySelf (fun p => { p with registers := f p.registers }) t') :=
  h.noted (parallel_modifySelf fun _ _ => rfl) fun hs =>
    ⟨left_of_sameProcesses hs (Kernel.SameProcesses.refl _) rfl rfl rfl rfl fun _ hc => hc, rfl⟩

def issue (pid : Pid) (q : CallRequest) : Call Unit := do
  match CallNumber.decode q.number with
  | .error _ =>
    Turn.report (.unknownCall pid q.number)
    Turn.exit none
  | .ok call =>
    let result ← attempt (Turn.serve call q)
    match result with
    | .ok _ => pure ()
    | .error e => Turn.report (.callFailed q.number e)
    modifySelf fun p => { p with registers := p.registers.answer result }

private theorem Twins.syscall (h : Twins others others' t t') :
    Agree (Twins others others') (Turn.syscall t) (Turn.syscall t') := by
  apply Agree.get (g := fun t : Turn => (t.self.pid, t.self.registers.request))
    (k := fun c => issue c.1 c.2)
  · rw [h.twin.self.same]
  · unfold issue
    dsimp only
    cases CallNumber.decode t.self.registers.request.number with
    | error e =>
      apply (h.report _).bind
      · intro _ u u' hu
        exact hu.exit none
      · intro _ _ hu
        exact hu
    | ok call =>
      apply (h.serve call _).attempt.bind
      · intro result u u' hu
        cases result with
        | ok n => exact hu.registers fun r => r.answer (.ok n)
        | error e =>
          apply (hu.report _).bind
          · intro _ v v' hv
            exact hv.registers fun r => r.answer (.error e)
          · intro _ _ hv
            exact hv
      · intro _ _ hu
        exact hu

/-- Whatever the program does, twins come to the same. -/
theorem Twins.run (h : Twins others others' t t') (m : Move) :
    Agree (Twins others others') (m.run t) (m.run t') := by
  cases m with
  | compute registers => exact h.registers fun _ => registers
  | call =>
    unfold Move.run
    apply Agree.get (g := fun t : Turn => t.kernel.machine.poweredOff) (k := fun off => do
      if off then throw (.ended (-1))
      Turn.syscall)
    · rw [Machine.poweredOff, h.kernels.level.power]
      rfl
    · cases t.kernel.machine.poweredOff with
      | true => exact .error h
      | false => exact h.syscall
  | load address length =>
    apply (h.agree (alwaysSparesReady_loadBytes address length)
      (agree_loadBytes h.twin h.sound h.sound' address length)).bind
    · intro _ _ _ hu
      exact .ok hu
    · intro _ _ hu
      exact hu
  | store address data =>
    exact h.agree (alwaysSparesReady_storeBytes address data)
      (agree_storeBytes h.twin h.sound h.sound' address data)
  | raise cause =>
    exact h.agree (alwaysSparesReady_exception cause) (agree_exception h.twin h.sound h.sound' cause)
  | leave => exact h.exit none
  | die f => exact .error h

private theorem Twin.withoutThread (h : Twin t t') : t.withoutThread.Level t'.withoutThread := by
  have hoff : t'.kernel.machine.poweredOff = t.kernel.machine.poweredOff := by
    rw [Machine.poweredOff, h.level.power]
    rfl
  unfold Turn.withoutThread
  rw [hoff, h.self.same]
  split
  · exact (h.level.report _).halt
  · exact h.level

theorem Twins.bury (h : Twins others others' t t') (stop : Stop Errno) :
    Kernel.Twins others others' (t.bury stop) (t'.bury stop) := by
  have hgone := h.sound.bury stop
  have hgone' := h.sound'.bury stop
  have hlevel : (t.bury stop).Level (t'.bury stop) := by
    obtain ⟨pool, hdrop, -, hqueue⟩ := h.sound.drop
    obtain ⟨pool', hdrop', -, hqueue'⟩ := h.sound'.drop
    have houtcome : t'.outcome stop = t.outcome stop := by
      unfold outcome
      rw [h.twin.self.same]
    rw [Turn.bury, Turn.bury, hdrop, hdrop', houtcome, h.twin.self.ordinal]
    apply Kernel.Level.settle
    refine { h.twin.withoutThread with available := ?_ }
    simp only [FramePool.available, hqueue, hqueue', List.length_append,
      PageTable.length_frames_eq_of_faceless h.twin.self.memory.faceless]
    exact congrArg (· + t.self.table.frames.length) h.kernels.level.available
  refine ⟨hlevel, ?_, ?_⟩
  · rw [hgone.memory, hgone'.memory]
    cases h.kernels.running with
    | cons _ hrest => exact hrest
  · rw [hgone.memory, hgone'.memory, hgone.ready, hgone'.ready]
    exact h.kernels.ready

end Turn

end PagedKernel

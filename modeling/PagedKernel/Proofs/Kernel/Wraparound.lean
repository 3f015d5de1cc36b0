import PagedKernel.Proofs.Kernel.Decoding

/-!
# Numbers that come round

A process that the host refuses a thread has used a number up. So whoever can execute a program can
come to any number that is still to be given. Behind the largest these are the numbers that others
have had: its own, and that of a child that it has joined.
-/

namespace PagedKernel

namespace Turn

open Kernel UserMemory

variable {t t' : Turn} {others : List Process} {q : CallRequest} {n : Nat}
variable {passed : String × List String}

/-- The process can execute what its memory names, if only the host has a thread for it. -/
structure CanExec (t : Turn) (q : CallRequest) (passed : String × List String) : Prop where
  conveys : t.memory.Conveys t.kernel.machine.config.maxStringLength q (.ok passed)
  named : '\x00' ∉ passed.1.toList
  loadable : Loader.Loadable t.kernel.machine passed.1 passed.2

private theorem exists_canExec (hs : t.Sound others) (hexec : exec q t = .ok n t') :
    ∃ passed, t.CanExec q passed := by
  obtain ⟨-, child, hgains⟩ := (ensures_exec_gainsChild hs q).of_ok hexec
  obtain ⟨name, args, t₁, hfound, -, hruns⟩ := hgains.passed
  obtain ⟨-, hname, -⟩ := (finds_execArguments hs.framed q).of_ok hfound
  obtain ⟨r, hr⟩ := exists_conveys hs.framed t.kernel.machine.config.maxStringLength q
  have hfinds : Tells (execArguments q) t (.ok (name, args)) :=
    ⟨t₁, hfound, ((finds_execArguments hs.framed q).of_ok hfound).1⟩
  obtain rfl := (tells_execArguments hs.framed hr).unique hfinds
  exact ⟨(name, args), hr, hname, hruns.loadable⟩

private theorem CanExec.congr (h : t.CanExec q passed) (halike : Alike t.memory t'.memory)
    (hconfig : t'.kernel.machine.config = t.kernel.machine.config)
    (hfiles : t'.kernel.machine.devices.files = t.kernel.machine.devices.files)
    (havailable : t'.kernel.machine.pool.available = t.kernel.machine.pool.available) :
    t'.CanExec q passed where
  conveys := hconfig ▸ halike.conveys h.conveys
  named := h.named
  loadable := by
    unfold Loader.Loadable
    rw [hfiles, hconfig, havailable]
    exact h.loadable

private theorem CanExec.exists_exec_eq (hs : t.Sound others) (h : t.CanExec q passed)
    (hthread : t.kernel.machine.devices.refusals.find? t.kernel.nextOrdinal = none) :
    ∃ n t', exec q t = .ok n t' := by
  obtain ⟨pid, k, hspawn⟩ := exists_spawn_eq hs h.named h.loadable hthread
  obtain ⟨t', hexec⟩ := Turn.exists_exec_eq (tells_execArguments hs.framed h.conveys) hspawn
  exact ⟨_, t', hexec⟩

private theorem CanExec.exists_unstarted (hs : t.Sound others) (h : t.CanExec q passed)
    {reason : String}
    (hrefused : t.kernel.machine.devices.refusals.find? t.kernel.nextOrdinal = some reason) :
    ∃ t', exec q t = .error (.refused .noMemory) t' ∧ Fails others t (.refused .noMemory) t' ∧
      t'.CanExec q passed ∧ t'.kernel.nextOrdinal = t.kernel.nextOrdinal + 1 := by
  obtain ⟨k, hspawn, hnext, hconfig⟩ := exists_spawn_unstarted hs h.named h.loadable hrefused
  obtain ⟨t₁, hfound, seen, rfl⟩ := tells_execArguments hs.framed h.conveys
  let t' : Turn := ⟨k, { t.self with table := t.self.table.marked seen }⟩
  have hchild : onKernel (Kernel.spawn passed.1 passed.2)
      { t with self.table := t.self.table.marked seen } = .error (.refused .noMemory) t' := by
    rw [onKernel, zoom, hspawn]
  have hexec : exec q t = .error (.refused .noMemory) t' :=
    (bind_of_ok hfound).trans (bind_of_error hchild)
  obtain ⟨-, hfails⟩ := (ensures_exec_gainsChild hs q).of_error hexec
  refine ⟨t', hexec, hfails, h.congr ⟨?_, fun a => (hfails.served hs).byte a id⟩ hconfig ?_ ?_, hnext⟩
  · exact PageTable.mapping_marked ..
  · rw [hfails.devices]
  · exact hfails.queue.length_eq

/-- The process is told that there is no memory, and can try again. -/
private theorem CanExec.exists_refused (hs : t.Sound others)
    (hon : t.kernel.machine.poweredOff = false)
    (hcall : CallNumber.decode t.self.registers.request.number = .ok .exec)
    (h : t.CanExec t.self.registers.request passed) {reason : String}
    (hrefused : t.kernel.machine.devices.refusals.find? t.kernel.nextOrdinal = some reason) :
    ∃ t', Move.call.run t = .ok ⟨⟩ t' ∧ t'.CanExec t.self.registers.request passed ∧
      t'.kernel.nextOrdinal = t.kernel.nextOrdinal + 1 ∧
      t'.kernel.machine.poweredOff = false ∧ t'.self.pid = t.self.pid ∧
      t'.self.children = t.self.children := by
  obtain ⟨t₁, hexec, hfails, hagain, hnext⟩ := h.exists_unstarted hs hrefused
  obtain ⟨seen, hself⟩ := hfails.self
  have hserve : attempt (serve .exec t.self.registers.request) t = .ok (.error .noMemory) t₁ :=
    attempt_eq_ok_iff.2 hexec
  obtain ⟨log, hrun⟩ := exists_call_eq hon hcall hserve
  refine ⟨_, hrun, hagain.congr (.refl _) rfl rfl rfl, hnext, ?_, ?_, ?_⟩
  · change t₁.kernel.machine.power.isOff = false
    rw [hfails.power]
    exact hon
  · change t₁.self.pid = t.self.pid
    rw [hself]
  · change t₁.self.children = t.self.children
    rw [hself]

private theorem CanExec.exists_child (hs : t.Sound others)
    (hon : t.kernel.machine.poweredOff = false)
    (hcall : CallNumber.decode t.self.registers.request.number = .ok .exec)
    (h : t.CanExec t.self.registers.request passed)
    (hthread : t.kernel.machine.devices.refusals.find? t.kernel.nextOrdinal = none) :
    ∃ t₁ child log registers, GainsChild others t.self.registers.request t t₁ child ∧
      Move.call.run t = .ok ⟨⟩
        ⟨{ t₁.kernel with machine := { t₁.kernel.machine with log } }, { t₁.self with registers }⟩ := by
  obtain ⟨n, t₁, hexec⟩ := h.exists_exec_eq hs hthread
  obtain ⟨-, child, hgains⟩ := (ensures_exec_gainsChild hs _).of_ok hexec
  have hserve : attempt (serve .exec t.self.registers.request) t = .ok (.ok n) t₁ :=
    attempt_eq_ok_iff.2 hexec
  obtain ⟨log, hrun⟩ := exists_call_eq hon hcall hserve
  exact ⟨t₁, child, log, _, hgains, hrun⟩

private theorem CanExec.exists_pointer (h : t.CanExec q passed) :
    ∃ va, t.self.table.pointer? q.arg1 = some va := by
  obtain ⟨hconveys, -, -⟩ := h
  cases hconveys with
  | whole hname => exact ⟨_, hname⟩

end Turn

namespace World

open Turn Kernel

variable {history : List Happening} {w : World} {pid : Pid} {children : List Pid} {q : CallRequest}
variable {passed : String × List String}

/-- A chronicle has come to a world in which a process is about to execute a program. -/
structure AboutToExec (history : List Happening) (w : World) (pid : Pid) (children : List Pid)
    (q : CallRequest) (passed : String × List String) : Prop where
  chronicle : ∃ more, Chronicle Move.Tame (history ++ more) w
  on : w.kernel.machine.poweredOff = false
  caller : ∃ before p after, w.running = before ++ p :: after ∧ p.pid = pid ∧
    p.children = children ∧ p.registers.request = q ∧ CanExec ⟨w.kernel, p⟩ q passed

def refusing (w : World) (refusals : Assoc Nat String) : World :=
  let devices := { w.kernel.machine.devices with refusals }
  ⟨{ w.kernel with machine := { w.kernel.machine with devices } }, w.running⟩

private theorem AboutToExec.refusing (h : AboutToExec history w pid children q passed)
    (refusals : Assoc Nat String) :
    AboutToExec history (w.refusing refusals) pid children q passed := by
  obtain ⟨⟨more, hchronicle⟩, hon, before, p, after, hrunning, hpid, hchildren, hq, hcan⟩ := h
  exact ⟨⟨more, hchronicle.changed _⟩, hon, before, p, after, hrunning, hpid, hchildren, hq,
    hcan.congr (.refl _) rfl rfl rfl⟩

private theorem AboutToExec.exists_next (h : AboutToExec history w pid children q passed)
    (hcall : CallNumber.decode q.number = .ok .exec) :
    ∃ w', AboutToExec history w' pid children q passed ∧
      w'.kernel.nextOrdinal = w.kernel.nextOrdinal + 1 := by
  obtain ⟨⟨more, hchronicle⟩, hon, before, p, after, hrunning, rfl, rfl, rfl, hcan⟩ :=
    h.refusing [(w.kernel.nextOrdinal, "")]
  have hs := sound_turn hchronicle.reachable.sound hrunning
  have hrefused : (w.refusing [(w.kernel.nextOrdinal, "")]).kernel.machine.devices.refusals.find?
      w.kernel.nextOrdinal = some "" := by
    simp [World.refusing, Assoc.find?]
  obtain ⟨t, hrun, hagain, hnext, hstill, hpid, hchildren⟩ :=
    hcan.exists_refused hs hon hcall hrefused
  -- The answer has taken the place of the request, which the process puts there again.
  let asking : Process :=
    { t.self with registers := Registers.cleared.withRequest p.registers.request }
  have hcalled : Chronicle Move.Tame _ ⟨t.kernel, before ++ t.self :: after⟩ :=
    hchronicle.acted (m := .call) (by simp [Move.Tame]) (.goesOn hrunning hrun)
  have hasked : Chronicle Move.Tame _ ⟨t.kernel, before ++ asking :: after⟩ :=
    hcalled.acted (m := .compute asking.registers) (by simp [Move.Tame])
      (.goesOn (t := ⟨t.kernel, asking⟩) rfl rfl)
  rw [List.append_assoc, List.append_assoc] at hasked
  exact ⟨_, ⟨⟨_, hasked⟩, hstill, before, asking, after, rfl, hpid, hchildren,
    Registers.request_withRequest .., hagain.congr (.refl _) rfl rfl rfl⟩, hnext⟩

/-- Any number that is still to be given can be the next. -/
private theorem AboutToExec.exists_ordinal (h : AboutToExec history w pid children q passed)
    (hcall : CallNumber.decode q.number = .ok .exec) {ordinal : Nat}
    (hlater : w.kernel.nextOrdinal ≤ ordinal) :
    ∃ w', AboutToExec history w' pid children q passed ∧ w'.kernel.nextOrdinal = ordinal := by
  induction ordinal, hlater using Nat.le_induction with
  | base => exact ⟨w, h, rfl⟩
  | succ ordinal _ ih =>
    obtain ⟨w', habout, hnext⟩ := ih
    obtain ⟨w'', hagain, hsucc⟩ := habout.exists_next hcall
    exact ⟨w'', hagain, hsucc.trans (congrArg (· + 1) hnext)⟩

/-- A chronicle has come to a world in which a process has a child that waits for its turn. -/
structure HasReadyChild (history : List Happening) (w : World) (pid : Pid) (children : List Pid)
    (q : CallRequest) (child : Process) : Prop where
  chronicle : ∃ more, Chronicle Move.Tame (history ++ more) w
  parent : ∃ p ∈ w.running, p.pid = pid ∧ p.children = children ∧
    ∃ va, p.table.pointer? q.arg1 = some va
  ready : ∃ earlier, w.kernel.ready = earlier ++ [child]
  childless : child.children = []
  record : ∃ name, w.kernel.records.find? (.nth child.ordinal) =
    some { name, ordinal := child.ordinal }

private theorem AboutToExec.exists_readyChild (h : AboutToExec history w pid children q passed)
    (hcall : CallNumber.decode q.number = .ok .exec) :
    ∃ w' child, HasReadyChild history w' pid (w.kernel.nextPid.insert children) q child ∧
      child.ordinal = w.kernel.nextOrdinal := by
  obtain ⟨⟨more, hchronicle⟩, hon, before, p, after, hrunning, rfl, rfl, rfl, hcan⟩ := h.refusing []
  have hs := sound_turn hchronicle.reachable.sound hrunning
  obtain ⟨va, hva⟩ := hcan.exists_pointer
  obtain ⟨t, child, log, registers, hgains, hrun⟩ := hcan.exists_child hs hon hcall rfl
  obtain ⟨seen, hself⟩ := hgains.self
  obtain ⟨name, hrecords⟩ := hgains.takesUp.records
  let parent : Process := { t.self with registers }
  have hcreated : Chronicle Move.Tame _ ⟨_, before ++ parent :: after⟩ :=
    hchronicle.acted (m := .call) (by simp [Move.Tame]) (.goesOn hrunning hrun)
  rw [List.append_assoc] at hcreated
  refine ⟨_, child, ⟨⟨_, hcreated⟩, ⟨parent, ?_, ?_, ?_, va, ?_⟩, ⟨_, hgains.takesUp.ready⟩,
    hgains.takesUp.children, name, ?_⟩, hgains.takesUp.ordinal⟩
  · exact List.mem_append_right _ (List.mem_cons_self ..)
  · change t.self.pid = p.pid
    rw [hself]
  · change t.self.children = _
    rw [hself]
    rfl
  · change t.self.table.pointer? _ = _
    rw [hself]
    exact Looks.pointer? (t := ⟨w.kernel, p⟩) ⟨seen, rfl⟩ hva
  · change t.kernel.records.find? _ = _
    rw [hrecords, hgains.takesUp.ordinal, Assoc.find?_insert]
    exact if_pos rfl

/-- The child that is the last to have got ready gets the processor, and comes to the end of its
program. -/
private theorem Chronicle.exists_left {child : Process} {earlier : List Process}
    (h : Chronicle Move.Tame history w) (hready : w.kernel.ready = earlier ++ [child])
    (hchildless : child.children = []) :
    ∃ more w', Chronicle Move.Tame (history ++ more) w' ∧ w'.running = w.running ∧
      w'.kernel.records = w.kernel.records.mapValues (.settle child.ordinal (.ended none)) := by
  have hdistinct := h.reachable.consistentWith.distinct
  rw [processes, hready, List.map_append, List.map_append] at hdistinct
  have hlast := (List.nodup_append.1 (List.nodup_append.1 hdistinct).2.1).2.2
  have hfind : w.kernel.ready.find? (·.ordinal = child.ordinal) = some child := by
    have hnone : earlier.find? (·.ordinal = child.ordinal) = none := by
      refine List.find?_eq_none.2 fun p hp hsame => ?_
      exact hlast _ (List.mem_map_of_mem hp) _ (List.mem_singleton_self _) (of_decide_eq_true hsame)
    rw [hready, List.find?_append, hnone]
    simp
  let started : Process := { child with phase := .running }
  obtain ⟨k, htaken, hkept⟩ : ∃ k, w.kernel.takeReady? child.ordinal = some (child, k) ∧
      k.records = w.kernel.records := by
    rw [takeReady?, hfind]
    exact ⟨_, rfl, rfl⟩
  have hstarted := h.started htaken
  have hsplit : started :: w.running = [] ++ started :: w.running := rfl
  have hs := sound_turn hstarted.reachable.sound hsplit
  have hends := ensures_exit (α := Unit) hs none
  rcases hrun : (exit none : Call Unit) ⟨_, started⟩ with ⟨_, t⟩ | ⟨stop, t⟩
  · exact (hends.of_ok hrun).elim
  · obtain ⟨-, rfl, hexits⟩ := hends.of_error hrun
    have hleft := hstarted.acted (m := .leave) (by simp [Move.Tame])
      (.stops hsplit hrun (by simp))
    refine ⟨_, _, hleft, rfl, ?_⟩
    change (t.bury _).records = _
    rw [bury_of_exited hexits.phase hexits.table, settle, hexits.ordinal, outcome, hexits.status,
      hexits.records]
    change Assoc.mapValues (child.children.foldl Assoc.erase k.records) _ = _
    rw [hchildless, hkept]
    rfl

private theorem HasReadyChild.exists_joins {child : Process}
    (h : HasReadyChild history w pid children q child) (hchild : .nth child.ordinal ∈ children) :
    ∃ more w' p va t, Chronicle Move.Tame (history ++ more) w' ∧ p ∈ w'.running ∧ p.pid = pid ∧
      p.children = children ∧ p.table.pointer? q.arg1 = some va ∧
      join ⟨3, (Pid.nth child.ordinal).number, q.arg1, 0, 0⟩ ⟨w'.kernel, p⟩ = .ok 0 t := by
  obtain ⟨⟨more, hchronicle⟩, ⟨p, hp, hpid, rfl, va, hva⟩, ⟨earlier, hready⟩, hchildless, name,
    hfind⟩ := h
  obtain ⟨more', w', hleft, hrunning, hrecords⟩ := hchronicle.exists_left hready hchildless
  have hended : w'.kernel.records.find? (.nth child.ordinal) =
      some { name, ordinal := child.ordinal, outcome := some (.ended none) } := by
    rw [hrecords, Assoc.find?_mapValues, hfind, Option.map_some, Record.settle, if_pos rfl]
  rw [List.append_assoc] at hleft
  have hjoin : join ⟨3, (Pid.nth child.ordinal).number, q.arg1, 0, 0⟩ ⟨w'.kernel, p⟩ =
      .ok 0 (reap ⟨w'.kernel, p⟩ (.nth child.ordinal)) := by
    rw [join_eq]
    simp only [hva, if_pos hchild, hended]
    rfl
  exact ⟨_, w', p, va, _, hleft, hrunning ▸ hp, hpid, rfl, hva, hjoin⟩

/-- Whoever can execute a program comes to have a child of any ordinal that is still to be given, and
to join it by its number, whoever had that number before. -/
theorem Chronicle.joins_child_of_any_ordinal (h : Chronicle Move.Tame history w)
    (hon : w.kernel.machine.poweredOff = false) {before after : List Process} {p : Process}
    (hrunning : w.running = before ++ p :: after)
    (hcall : CallNumber.decode q.number = .ok .exec) {n : Nat} {t : Turn}
    (hexec : exec q ⟨w.kernel, p⟩ = .ok n t) {ordinal : Nat}
    (hlater : w.kernel.nextOrdinal ≤ ordinal) :
    ∃ more w' p' va t', Chronicle Move.Tame (history ++ more) w' ∧ p' ∈ w'.running ∧
      p'.pid = p.pid ∧ p'.children = (Pid.nth ordinal).insert p.children ∧
      p'.table.pointer? q.arg1 = some va ∧
      join ⟨3, (Pid.nth ordinal).number, q.arg1, 0, 0⟩ ⟨w'.kernel, p'⟩ = .ok 0 t' := by
  obtain ⟨passed, hcan⟩ := exists_canExec (sound_turn h.reachable.sound hrunning) hexec
  let asking : Process := { p with registers := Registers.cleared.withRequest q }
  have hasked : Chronicle Move.Tame _ ⟨w.kernel, before ++ asking :: after⟩ :=
    h.acted (m := .compute asking.registers) (by simp [Move.Tame])
      (.goesOn (t := ⟨w.kernel, asking⟩) hrunning rfl)
  have habout : AboutToExec history ⟨w.kernel, before ++ asking :: after⟩ p.pid p.children q passed :=
    ⟨⟨_, hasked⟩, hon, before, asking, after, rfl, rfl, rfl, Registers.request_withRequest ..,
      hcan.congr (.refl _) rfl rfl rfl⟩
  obtain ⟨w₁, hnext, rfl⟩ := habout.exists_ordinal hcall hlater
  obtain ⟨w₂, child, hready, hordinal⟩ := hnext.exists_readyChild hcall
  have hchild : .nth child.ordinal ∈ w₁.kernel.nextPid.insert p.children := by
    rw [hordinal]
    exact Pid.mem_insert.2 (.inl rfl)
  obtain ⟨more, w', p', va, t', hjoins⟩ := hready.exists_joins hchild
  rw [hordinal] at hjoins
  exact ⟨more, w', p', va, t', hjoins⟩

def sampleReaped : List Happening × World :=
  story sampleRoot (.start 1 :: Cue.issue ⟨2, 8192, 0, 8192, 0⟩ ++
    .start 2 :: .move .leave :: Cue.issue ⟨3, 2, 8192, 0, 0⟩)

private theorem chronicle_sampleReaped : Chronicle Move.Tame sampleReaped.1 sampleReaped.2 := by
  apply chronicle_story chronicle_sampleRoot
  simp [Cue.issue, Move.Tame]

private theorem exists_sampleChild {ordinal : Nat} (hlater : 3 ≤ ordinal) :
    ∃ more w p va t, Chronicle Move.Tame (sampleReaped.1 ++ more) w ∧ p ∈ w.running ∧
      p.pid = .root ∧ p.children = [Pid.nth ordinal] ∧ p.table.pointer? 8192 = some va ∧
      join ⟨3, (Pid.nth ordinal).number, 8192, 0, 0⟩ ⟨w.kernel, p⟩ = .ok 0 t := by
  have hroot : sampleReaped.2.running.map (fun p => (p.pid, p.children)) = [(.root, [])] := by
    decide +kernel
  obtain ⟨p, hrunning, hp⟩ := List.map_eq_singleton_iff.1 hroot
  obtain ⟨hpid, hchildren⟩ := Prod.mk.inj hp
  have hcreates : ∀ p ∈ sampleReaped.2.running,
      answer? (exec ⟨2, 8192, 0, 8192, 0⟩ ⟨sampleReaped.2.kernel, p⟩) = some 3 := by decide +kernel
  obtain ⟨t, hexec⟩ := answer?_eq_some_iff.1 (hcreates p (hrunning ▸ List.mem_singleton_self p))
  have hon : sampleReaped.2.kernel.machine.poweredOff = false := by decide +kernel
  have hnext : sampleReaped.2.kernel.nextOrdinal = 3 := by decide +kernel
  have hsplit : sampleReaped.2.running = [] ++ p :: [] := hrunning
  obtain ⟨more, w, p', va, t', hchronicle, hp', hsame, hnew, hjoins⟩ :=
    chronicle_sampleReaped.joins_child_of_any_ordinal hon hsplit (by decide) hexec
      (hnext.symm ▸ hlater)
  rw [hchildren] at hnew
  exact ⟨more, w, p', va, t', hchronicle, hp', hsame.trans hpid, hnew, hjoins⟩

/-- A process can be its own child by its number. Then its number is not below that of its child. -/
theorem number_of_own_child :
    (¬ ∀ history w, Chronicle Move.Tame history w → ∀ p ∈ w.running, p.pid ∉ p.children) ∧
    ¬ ∀ history w, Chronicle Move.Tame history w → ∀ p ∈ w.running, ∀ c ∈ p.children,
      p.pid.number < c.number := by
  obtain ⟨ordinal, hlater, hround⟩ : ∃ ordinal, 3 ≤ ordinal ∧ Pid.nth ordinal = .root :=
    ⟨2 ^ 32 + 1, by decide, by decide⟩
  obtain ⟨more, w, p, va, t, hchronicle, hp, hpid, hchildren, -⟩ := exists_sampleChild hlater
  rw [hround] at hchildren
  have hself : p.pid ∈ p.children := by
    rw [hpid, hchildren]
    exact List.mem_singleton_self _
  exact ⟨fun h => h _ w hchronicle p hp hself,
    fun h => Int32.lt_irrefl (h _ w hchronicle p hp _ hself)⟩

/-- A number that was joined once can be joined again. -/
theorem number_joined_again : ¬ ∀ history w, Chronicle Move.Tame history w →
    ∀ past parent child rest, history = past ++ .reaped parent child :: rest →
      ∀ p ∈ w.running, ∀ (q : CallRequest) (va : VirtualAddress), ⟨q.arg1⟩ = Pid.nth child →
        p.table.pointer? q.arg2 = some va →
        join q ⟨w.kernel, p⟩ = .error (.refused .noChild) ⟨w.kernel, p⟩ := by
  intro honce
  obtain ⟨ordinal, hlater, hround⟩ : ∃ ordinal, 3 ≤ ordinal ∧ Pid.nth ordinal = .nth 2 :=
    ⟨2 ^ 32 + 2, by decide, by decide⟩
  obtain ⟨more, w, p, va, t, hchronicle, hp, -, -, hva, hjoin⟩ := exists_sampleChild hlater
  have htold : sampleReaped.1 = [.created 1 2, .exited 2 none] ++ [.reaped 1 2] := by
    decide +kernel
  have hhistory : sampleReaped.1 ++ more =
      [.created 1 2, .exited 2 none] ++ .reaped 1 2 :: more := by
    rw [htold, List.append_assoc, List.singleton_append]
  have hrefused := honce _ w hchronicle _ 1 2 more hhistory p hp
    ⟨3, (Pid.nth ordinal).number, 8192, 0, 0⟩ va hround hva
  rw [hjoin] at hrefused
  cases hrefused

end World

end PagedKernel

import PagedKernel.Proofs.Kernel.KeepingFiles

/-!
# Processes that are stopped by an outage

When the machine is off, the thread of a process ends at its next system call, without an exit. The
frames of the process go back to the pool. Its files are not closed, and stay in the count of open
files after no process has them any more.
-/

namespace PagedKernel

namespace Turn

variable {t : Turn}

private theorem trap_of_off (hoff : t.kernel.machine.poweredOff = true) (number : Int32)
    {args : List Int32}
    (hargs : args.length ≤ 4) : trap number args t = .error (.ended (-1)) t := by
  apply Ensures.eq
  unfold trap
  rw [if_neg (Nat.not_lt.2 hargs), ensures_bind, ensures_get]
  dsimp only
  rw [if_pos hoff]
  rfl

private theorem run_call_of_off (hoff : t.kernel.machine.poweredOff = true) :
    Move.call.run t = .error (.ended (-1)) t := by
  apply Ensures.eq
  rw [Move.run, ensures_bind, ensures_get, if_pos hoff]
  rfl

end Turn

namespace World

open Turn

variable {allowed : Move → Prop} {w w' : World} {before after : List Process} {p : Process}

/-- A process that makes a call during an outage is dropped as it stands. -/
theorem Acts.cut (hw : w.kernel.Sound w.running) (hoff : w.kernel.machine.poweredOff = true)
    (h : w.Acts before p after .call w') :
    w'.running = before ++ after ∧ Turn.Buries ⟨w.kernel, p⟩ (.ended (-1)) w'.kernel := by
  have hstopped : Move.call.run ⟨w.kernel, p⟩ = .error (.ended (-1)) ⟨w.kernel, p⟩ :=
    run_call_of_off hoff
  have hs := sound_turn hw h.running_eq
  cases h with
  | goesOn hrunning hrun =>
    rw [hstopped] at hrun
    cases hrun
  | waits hrunning hrun =>
    rw [hstopped] at hrun
    cases hrun
  | stops hrunning hrun hstop =>
    rw [hstopped] at hrun
    cases hrun
    exact ⟨rfl, hs.buries _⟩

/-- A process that makes a call during an outage is stopped. All its frames go back to the pool, and
no file is closed: those that it had open are counted on, though no process has them. -/
theorem ReachableKeepingFiles.stopped_by_outage (hw : ReachableKeepingFiles allowed w)
    (hrunning : w.running = before ++ p :: after)
    (hoff : w.kernel.machine.poweredOff = true) :
    (∀ number args, args.length ≤ 4 →
      trap number args ⟨w.kernel, p⟩ = .error (.ended (-1)) ⟨w.kernel, p⟩) ∧
    ∀ w', w.Acts before p after .call w' →
      w'.running = before ++ after ∧ w'.kernel.ready = w.kernel.ready ∧
      w'.kernel.machine.pool.queue = w.kernel.machine.pool.queue ++ p.table.frames ∧
      w'.kernel.machine.memory = w.kernel.machine.memory ∧
      w'.kernel.machine.devices = w.kernel.machine.devices ∧
      openFiles w'.processes + p.descriptors.fileCount ≤ w'.kernel.machine.openHandles := by
  refine ⟨fun number args => trap_of_off hoff number, fun w' hacts => ?_⟩
  obtain ⟨hothers, hburies⟩ := hacts.cut hw.reachable.sound hoff
  refine ⟨hothers, hburies.ready, hburies.queue, hburies.memory, hburies.devices, ?_⟩
  have hhandles := hw.filed.handles
  rw [openFiles_perm (processes_perm hrunning), openFiles_cons] at hhandles
  rw [processes, hothers, hburies.ready, Machine.openHandles, hburies.devices, Nat.add_comm]
  exact hhandles

def sampleOutage : World :=
  (story ⟨tried "" [] (tried "" [] (.boot { physPages := 10, stackPages := 1 }
    { files := ({} : FileSystem).insert "" Loader.sampleImage })), []⟩
    (.start 1 :: Cue.issue ⟨5, 8192, 0, 0, 0⟩ ++ [.start 2, .move (.die .badThreadName)])).2

private theorem reachableKeepingFiles_sampleOutage :
    ReachableKeepingFiles (fun _ => True) sampleOutage :=
  reachableKeepingFiles_story
    (((ReachableKeepingFiles.boot _ (FileSystem.grounded_empty.insert _ _)).tried "" []).tried "" [])
    fun _ _ => trivial

private theorem exists_sampleOutage : ∃ p w', sampleOutage.running = [] ++ p :: [] ∧
    sampleOutage.kernel.machine.poweredOff = true ∧
    sampleOutage.kernel.machine.openHandles = 1 ∧ p.descriptors.fileCount = 1 ∧
    sampleOutage.Acts [] p [] .call w' := by
  have hlength : sampleOutage.running.length = 1 := by decide +kernel
  have hmachine : sampleOutage.kernel.machine.poweredOff = true ∧
      sampleOutage.kernel.machine.openHandles = 1 := by decide +kernel
  have hopen : ∀ p ∈ sampleOutage.running, p.descriptors.fileCount = 1 := by decide +kernel
  obtain ⟨p, hrunning⟩ := List.length_eq_one_iff.1 hlength
  have hsplit : sampleOutage.running = [] ++ p :: [] := hrunning
  obtain ⟨w', hacts⟩ := exists_acts hsplit .call
  exact ⟨p, w', hrunning, hmachine.1, hmachine.2, hopen p (hrunning ▸ List.mem_singleton_self p),
    hacts⟩

theorem stopped_by_outage_sample : ∃ p w', ReachableKeepingFiles (fun _ => True) sampleOutage ∧
    sampleOutage.running = [] ++ p :: [] ∧ sampleOutage.kernel.machine.poweredOff = true ∧
    sampleOutage.Acts [] p [] .call w' ∧
    w'.kernel.machine.pool.queue = sampleOutage.kernel.machine.pool.queue ++ p.table.frames ∧
    openFiles w'.processes = 0 ∧ w'.kernel.machine.openHandles = 1 := by
  obtain ⟨p, w', hrunning, hoff, hhandles, hcount, hacts⟩ := exists_sampleOutage
  obtain ⟨-, -, hqueue, -, hdevices, hopen⟩ :=
    (reachableKeepingFiles_sampleOutage.stopped_by_outage hrunning hoff).2 w' hacts
  have hsame : w'.kernel.machine.openHandles = 1 := by
    rw [Machine.openHandles, hdevices]
    exact hhandles
  exact ⟨p, w', reachableKeepingFiles_sampleOutage, hrunning, hoff, hacts, hqueue, by omega, hsame⟩

/-- An outage does not close the files of a process that it stops. -/
theorem not_closed_by_outage :
    ¬ ∀ (w w' : World) (p : Process), ReachableKeepingFiles (fun _ => True) w →
    w.running = [] ++ p :: [] → w.kernel.machine.poweredOff = true → w.Acts [] p [] .call w' →
    w'.kernel.machine.openHandles + p.descriptors.fileCount = w.kernel.machine.openHandles := by
  intro hclosed
  obtain ⟨p, w', hrunning, hoff, hhandles, hcount, hacts⟩ := exists_sampleOutage
  obtain ⟨-, hburies⟩ := hacts.cut reachableKeepingFiles_sampleOutage.reachable.sound hoff
  have hfewer := hclosed _ w' p reachableKeepingFiles_sampleOutage hrunning hoff hacts
  rw [Machine.openHandles, hburies.devices, hcount] at hfewer
  exact absurd hfewer (Nat.succ_ne_self _)

end World

end PagedKernel

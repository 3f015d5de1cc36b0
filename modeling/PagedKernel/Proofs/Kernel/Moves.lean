import PagedKernel.Proofs.Kernel.Dispatch

/-!
# What a program can do

A program computes with its registers, loads and stores through its page table, and issues system
calls. Each of these is one move; an exception is raised by a load or a store, or by the program
itself. A move spares all other processes.
-/

namespace PagedKernel

/-- Something that a program does. -/
inductive Move where
  /-- It computes, and leaves the registers as it likes. -/
  | compute (registers : Registers)
  /-- It issues the system call that its registers state. -/
  | call
  | load (address length : Nat)
  | store (address : Nat) (data : Bytes)
  /-- It runs into an exception. -/
  | raise (cause : Exception)
  /-- It comes to its end without a status. -/
  | leave
  /-- It breaks a rule and gives up. -/
  | die (fault : Fault)

namespace Move

open Turn

/-- What the kernel and the processor make of a move. When the machine is off, no call is served, and
the thread ends instead. -/
def run : Move → Call Unit
  | compute registers => modifySelf fun p => { p with registers }
  | call => do
    if (← get).kernel.machine.poweredOff then throw (.ended (-1))
    syscall
  | load address length => do
    let _ ← loadBytes address length
  | store address data => storeBytes address data
  | raise cause => exception cause
  | leave => exit none
  | die f => throw (.fault f)

def tells (m : Move) (t : Turn) : List Happening :=
  match m with
  | compute _ => []
  | call => if t.kernel.machine.poweredOff then [.lost t.self] else t.tellsCall
  | load .. | store .. =>
    match m.run t with
    | .ok _ _ => []
    | .error _ _ => [.exited t.self.ordinal none]
  | raise _ | leave => [.exited t.self.ordinal none]
  | die _ => [.lost t.self]

/-- The program does not give up by itself. -/
def Tame (m : Move) : Prop := ∀ f, m ≠ die f

end Move

namespace Turn

open UserMemory

variable {α : Type} {t t' : Turn} {others : List Process}

theorem ensures_exception (hs : t.Sound others) (cause : Exception) :
    Ensures (exception cause) t (fun _ _ => False)
      (fun stop t' => Left others t t' ∧ stop = .ended (-1) ∧ Exits none t t') := by
  unfold exception
  rw [ensures_bind, ensures_get]
  exact ensures_report_exit hs _

theorem ensures_raise (hs : t.Sound others) (cause : Exception) (address : Nat) :
    Ensures (raise cause address : Call α) t (fun _ _ => False)
      (fun stop t' => Left others t t' ∧ stop = .ended (-1) ∧ Exits none t t') := by
  let registers := t.self.registers.set .badVaddr (Int32.ofNat address)
  have hnoted : Left others t ⟨t.kernel, { t.self with registers }⟩ :=
    left_of_sameProcesses hs (Kernel.SameProcesses.refl _) rfl rfl rfl rfl fun _ hc => hc
  unfold raise
  rw [ensures_bind, modifySelf, ensures_modify, ensures_bind]
  apply (ensures_exception hnoted.sound cause).mono
  · intro _ _ h
    exact h.elim
  · rintro stop t' ⟨hleft, rfl, hexits⟩
    exact ⟨hnoted.trans hleft, rfl, hexits.of_worksOnMemory (worksOnMemory_registers t registers)⟩

private theorem ensures_raiseObstacle (hs : t.Sound others) {obstacle : Obstacle}
    (hframe : ∀ f, obstacle ≠ .noFrame f) :
    Ensures (raiseObstacle obstacle : Call α) t (fun _ _ => False)
      (fun stop t' => Left others t t' ∧ stop = .ended (-1) ∧ Exits none t t') := by
  cases obstacle with
  | refused address cause => exact ensures_raise hs cause address
  | noFrame f => exact absurd rfl (hframe f)

private theorem worksOnMemory_of_edited {m : UserMemory} {touched : Nat → Prop}
    (h : Edited touched t.memory m) :
    WorksOnMemory t { t with self.table := m.table, kernel.machine.memory := m.memory } :=
  ⟨(stays_of_edited h).works, rfl, rfl⟩

theorem ensures_loadBytes (hs : t.Sound others) (address length : Nat) :
    Ensures (loadBytes address length) t (fun _ t' => Keeps untouched t t' ∧ WorksOnMemory t t')
      (fun stop t' => Left others t t' ∧ stop = .ended (-1) ∧ Exits none t t') := by
  unfold loadBytes
  obtain ⟨-, htable, -, hframe⟩ := copyOut_ofRange hs.framed address length
  rw [ensures_bind, ensures_get]
  dsimp only
  rw [ensures_bind, modifySelf, ensures_modify]
  simp only [Turn.memory] at htable hframe
  generalize copyOut t.kernel.machine.memory t.self.table (Span.ofRange address length) = copy at *
  have hedited : Edited untouched t.memory ⟨copy.table, t.kernel.machine.memory⟩ := by
    rw [htable]
    exact edited_afterRead t.memory address _
  have hkeeps := (stays_of_edited hedited).keeps
  have hnotes := worksOnMemory_of_edited hedited
  cases hobstacle : copy.obstacle with
  | none => exact ⟨hkeeps, hnotes⟩
  | some obstacle =>
    have hleft : Left others t { t with self := { t.self with table := copy.table } } :=
      ⟨hkeeps.spares hs, rfl⟩
    apply (ensures_raiseObstacle hleft.sound ?_).mono
    · intro _ _ h
      exact h.elim
    · rintro stop t' ⟨hend, rfl, hexits⟩
      exact ⟨hleft.trans hend, rfl, hexits.of_worksOnMemory hnotes⟩
    · intro f hf
      exact hframe f (by rw [hobstacle, hf])

theorem ensures_storeBytes (hs : t.Sound others) (address : Nat) (data : Bytes) :
    Ensures (storeBytes address data) t
      (fun _ t' => Keeps (fun b => address ≤ b ∧ b < address + data.length) t t' ∧ WorksOnMemory t t')
      (fun stop t' => Spares others t t' ∧ stop = .ended (-1) ∧ Exits none t t') := by
  unfold storeBytes
  obtain ⟨-, hwrote, -, hframe⟩ := copyIn_ofRange hs.framed address (Nat.le_refl data.length)
  rw [ensures_bind, ensures_get]
  dsimp only
  rw [ensures_bind, ensures_set]
  simp only [Turn.memory] at hwrote hframe
  generalize copyIn ⟨t.self.table, t.kernel.machine.memory⟩ (Span.ofRange address data.length)
    data = copy at *
  have hedited : Edited (fun b => address ≤ b ∧ b < address + data.length) t.memory
      copy.target := by
    refine hwrote.edited ?_
    intro b hl hu
    rw [List.length_take] at hu
    exact ⟨hl, by omega⟩
  have hkeeps := (stays_of_edited hedited).keeps
  have hnotes := worksOnMemory_of_edited hedited
  have hspares := hkeeps.spares hs
  cases hobstacle : copy.obstacle with
  | none => exact ⟨hkeeps, hnotes⟩
  | some obstacle =>
    apply (ensures_raiseObstacle hspares.sound ?_).mono
    · intro _ _ h
      exact h.elim
    · rintro stop t' ⟨hend, rfl, hexits⟩
      exact ⟨hspares.trans hend.toSpares, rfl, hexits.of_worksOnMemory hnotes⟩
    · intro f hf
      exact hframe f (by rw [hobstacle, hf])

end Turn

namespace Move

open Turn

variable {t t' : Turn} {others : List Process}

theorem ensures_call {ok : Unit → Turn → Prop} {stop : Stop Errno → Turn → Prop}
    (hoff : t.kernel.machine.poweredOff = true → stop (.ended (-1)) t)
    (hcall : Ensures syscall t ok stop) : Ensures call.run t ok stop := by
  rw [run, ensures_bind, ensures_get]
  split
  · next h => exact hoff h
  · exact hcall

/-- What a move comes to if the program goes on. It spares the other processes, and once the machine
is off it does no work on files and creates no process. -/
structure GoesOn (others : List Process) (m : Move) (t t' : Turn) : Prop where
  spares : Spares others t t'
  does : t.Does (m.tells t) t'
  worksOnMemory : t.kernel.machine.poweredOff = true → WorksOnMemory t t'

/-- What a move comes to if the program does not go on. A tame move meets no fault but that of a child
that died. -/
structure Stops (others : List Process) (m : Move) (t : Turn) (stop : Stop Errno) (t' : Turn) :
    Prop where
  spares : Spares others t t'
  fault : ∀ f, stop = .fault f → m.Tame → ∃ e ∈ t.kernel.records, e.2.outcome = some (.died f)
  ceases : t.Ceases stop (m.tells t) t'

private theorem GoesOn.of_worksOnMemory {m : Move} (htells : m.tells t = [])
    (hspares : Spares others t t')
    (hnotes : WorksOnMemory t t') : GoesOn others m t t' where
  spares := hspares
  does := htells ▸ .works hnotes.toWorks
  worksOnMemory _ := hnotes

private theorem Stops.of_exits {m : Move} (htells : m.tells t = [.exited t.self.ordinal none])
    (hspares : Spares others t t') (hexits : Exits none t t') :
    Stops others m t (.ended (-1)) t' where
  spares := hspares
  fault := nofun
  ceases := htells ▸ .exits hexits

private theorem ensures_access_tells {m : Move}
    (hrun : Ensures m.run t (fun _ t' => Spares others t t' ∧ WorksOnMemory t t')
      (fun stop t' => Spares others t t' ∧ stop = .ended (-1) ∧ Exits none t t'))
    (htells : m.tells t =
      match m.run t with
      | .ok _ _ => []
      | .error _ _ => [.exited t.self.ordinal none]) :
    Ensures m.run t (fun _ t' => GoesOn others m t t')
      (fun stop t' => Stops others m t stop t') := by
  apply ensures_intro
  · intro _ t' hok
    obtain ⟨hspares, hnotes⟩ := hrun.of_ok hok
    exact .of_worksOnMemory (by rw [htells, hok]) hspares hnotes
  · intro stop t' herror
    obtain ⟨hspares, rfl, hexits⟩ := hrun.of_error herror
    exact .of_exits (by rw [htells, herror]) hspares hexits

private theorem ensures_end_tells {m : Move} (htells : m.tells t = [.exited t.self.ordinal none])
    (hrun : Ensures m.run t (fun _ _ => False)
      (fun stop t' => Left others t t' ∧ stop = .ended (-1) ∧ Exits none t t')) :
    Ensures m.run t (fun _ t' => GoesOn others m t t')
      (fun stop t' => Stops others m t stop t') := by
  refine hrun.mono (fun _ _ h => h.elim) ?_
  rintro _ t' ⟨hleft, rfl, hexits⟩
  exact .of_exits htells hleft.toSpares hexits

/-- A move spares the other processes, whether the program goes on or not, and comes to what is seen
to happen. -/
theorem ensures_run_tells (hs : t.Sound others) (m : Move) : Ensures m.run t
    (fun _ t' => GoesOn others m t t') (fun stop t' => Stops others m t stop t') := by
  cases m with
  | compute registers =>
    have hleft : Left others t { t with self := { t.self with registers } } :=
      left_of_sameProcesses hs (Kernel.SameProcesses.refl _) rfl rfl rfl rfl fun _ hc => hc
    exact .of_worksOnMemory rfl hleft.toSpares (worksOnMemory_registers t registers)
  | call =>
    have htells : call.tells t =
        if t.kernel.machine.poweredOff then [.lost t.self] else t.tellsCall := rfl
    rw [run, ensures_bind, ensures_get]
    cases hoff : t.kernel.machine.poweredOff with
    | true =>
      rw [hoff] at htells
      exact ⟨Spares.refl hs, nofun, htells ▸ .cut hoff⟩
    | false =>
      rw [hoff] at htells
      apply (ensures_syscall_tells hs).mono
      · rintro _ t' ⟨hresumes, hdoes⟩
        exact ⟨hresumes.spares, htells ▸ hdoes, by simp [hoff]⟩
      · rintro stop t' ⟨hwithdraws, hceases⟩
        refine ⟨hwithdraws.spares, ?_, htells ▸ hceases⟩
        rintro f rfl -
        exact hwithdraws.died
  | load address length =>
    refine ensures_access_tells ?_ rfl
    simp only [run, ensures_bind, ensures_pure]
    apply (ensures_loadBytes hs address length).mono
    · exact fun _ _ h => ⟨h.1.spares hs, h.2⟩
    · exact fun _ _ h => ⟨h.1.toSpares, h.2⟩
  | store address data =>
    refine ensures_access_tells ?_ rfl
    apply (ensures_storeBytes hs address data).mono
    · exact fun _ _ h => ⟨h.1.spares hs, h.2⟩
    · exact fun _ _ h => h
  | raise cause => exact ensures_end_tells rfl (ensures_exception hs cause)
  | leave => exact ensures_end_tells rfl (ensures_exit hs none)
  | die f =>
    exact ⟨Spares.refl hs, fun _ _ htame => absurd rfl (htame f), .dies f (.works (.refl t))⟩

theorem ensures_run (hs : t.Sound others) (m : Move) : Ensures m.run t
    (fun _ t' => Spares others t t')
    (fun stop t' => Spares others t t' ∧ ∀ f, stop = .fault f → m.Tame →
      ∃ e ∈ t.kernel.records, e.2.outcome = some (.died f)) :=
  (ensures_run_tells hs m).mono (fun _ _ h => h.spares) fun _ _ h => ⟨h.spares, h.fault⟩

end Move

end PagedKernel

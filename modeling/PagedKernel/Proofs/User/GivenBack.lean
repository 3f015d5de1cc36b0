import PagedKernel.Proofs.User.Schedule

/-!
# What processes give back

A process that comes to its end gives back all that it had, and then the others learn how it ended.
So when all processes of a run are gone, all frames are free, and as many files are open as before.
-/

namespace PagedKernel

open Turn

namespace Move

variable {t t' : Turn} {others : List Process} {m : Move}

/-- The moves with which a process comes to its end, whatever is in its memory. It ends with a call
that there is not, with an exit, and the root with a halt. -/
inductive Last (p : Process) : Move → Prop
  | raise (cause : Exception) : Last p (.raise cause)
  | leave : Last p .leave
  | call (hlast : ∀ call, CallNumber.decode p.registers.request.number = .ok call →
      call = .exit ∨ call = .halt ∧ p.pid = .root) : Last p .call

private theorem ensures_lastCall (hs : t.Sound others)
    (hlast : ∀ call, CallNumber.decode t.self.registers.request.number = .ok call →
      call = .exit ∨ call = .halt ∧ t.self.pid = .root) :
    Ensures syscall t (fun _ _ => False) (fun stop _ => ∃ code, stop = .ended code) := by
  have hunanswered : ∀ call, call = .exit ∨ call = .halt ∧ t.self.pid = .root →
      Ensures (attempt (serve call t.self.registers.request)) t (fun _ _ => False)
        (fun _ _ => True) := by
    rintro call (rfl | ⟨rfl, hroot⟩)
    · rw [ensures_attempt]
      apply (ensures_exit hs _).mono
      · exact fun _ _ h => h
      · rintro _ _ ⟨-, rfl, -⟩
        trivial
    · rw [ensures_attempt]
      apply (ensures_halt hs).mono
      · exact fun _ _ h => h.1 hroot
      · rintro _ _ ⟨-, rfl, -⟩
        trivial
  apply (ensures_syscall hs).mono
  · rintro _ t' ⟨call, result, t₁, hdecode, hserve, -⟩
    exact (hunanswered call (hlast call hdecode)).of_ok hserve
  · rintro stop t' (⟨-, -, -, hended⟩ | ⟨call, hdecode, hstop⟩)
    · exact hended
    · have hcall := hlast call hdecode
      cases hstop with
      | ended code => exact ⟨code, rfl⟩
      | waiting hjoin => simp [hjoin] at hcall
      | fault f hjoin => simp [hjoin] at hcall

/-- No process goes on after such a move. -/
theorem Last.ensures_run (h : m.Last t.self) (hs : t.Sound others) :
    Ensures m.run t (fun _ _ => False) (fun stop _ => ∃ code, stop = .ended code) := by
  cases h with
  | raise cause =>
    apply (ensures_exception hs cause).mono
    · exact fun _ _ h => h
    · rintro _ _ ⟨-, rfl, -⟩
      exact ⟨_, rfl⟩
  | leave =>
    apply (ensures_exit hs none).mono
    · exact fun _ _ h => h
    · rintro _ _ ⟨-, rfl, -⟩
      exact ⟨_, rfl⟩
  | call hlast => exact ensures_call (fun _ => ⟨_, rfl⟩) (ensures_lastCall hs hlast)

/-- Only by a call a thread can be cut off before its process has come to its end. -/
theorem tells_ne_lost {code : Int32} (hrun : m.run t = .error (.ended code) t') (hm : m ≠ .call) :
    m.tells t ≠ [.lost t.self] := by
  cases m with
  | call => exact absurd rfl hm
  | die f => cases hrun
  | load address length => simp [tells, hrun]
  | store address data => simp [tells, hrun]
  | _ => simp [tells]

end Move

namespace World

variable {allowed : Move → Prop} {w w' : World} {before after : List Process} {p : Process}
variable {m : Move} {t : Turn}

/-- A process of the world came to its end in a turn, and has nothing left. Nobody has learned yet how
it ended, and that is all that is still to be done. -/
structure GivenBack (w : World) (p : Process) (t : Turn) : Prop where
  frames : t.kernel.machine.pool.queue = w.kernel.machine.pool.queue ++ p.table.mapped
  once : t.kernel.machine.pool.queue.Nodup
  table : t.self.table = {}
  handles : t.kernel.machine.openHandles =
    w.kernel.machine.openHandles - p.descriptors.fileCount
  files : t.self.descriptors.fileCount = 0
  closed : p.descriptors.capacity < wordLimit → t.self.descriptors.openCount = 0
  unsettled : ∀ e ∈ t.kernel.records, e.2.ordinal = p.ordinal → e.2.outcome = none
  settled : ∀ stop, t.bury stop = t.kernel.settle p.ordinal (t.outcome stop)

private theorem Releases.givenBack {others : List Process} (hb : w.kernel.ConsistentWith w.processes)
    (hp : p ∈ w.processes) (hreleases : Releases ⟨w.kernel, p⟩ t) (hs : t.Sound others)
    (hrecords : ∀ e ∈ t.kernel.records, e ∈ w.kernel.records) : w.GivenBack p t where
  frames := by
    rw [hreleases.queue, (hb.intact p hp).valid.frames_eq]
  once := (List.nodup_append.1 hs.held.distinct).1
  table := hreleases.table
  handles := by
    obtain ⟨-, -, -, hhandles⟩ :=
      Desk.closeAll_freeExact (s := desk ⟨w.kernel, p⟩) (hb.intact p hp).freeExact
    rw [Machine.openHandles,
      show t.kernel.machine.devices = _ from congrArg Desk.devices hreleases.desk]
    exact hhandles
  files := by
    obtain ⟨-, -, hfiles, -⟩ :=
      Desk.closeAll_freeExact (s := desk ⟨w.kernel, p⟩) (hb.intact p hp).freeExact
    rw [show t.self.descriptors = _ from congrArg Desk.descriptors hreleases.desk]
    exact hfiles
  closed hcapacity := by
    rw [show t.self.descriptors = _ from congrArg Desk.descriptors hreleases.desk]
    exact Desk.openCount_closeAll (s := desk ⟨w.kernel, p⟩) (hb.intact p hp).freeExact hcapacity
  unsettled e he hself := hb.unsettled p hp e (hrecords e he) hself
  settled stop := by
    rw [bury_of_exited hreleases.phase hreleases.table, hreleases.ordinal]

/-- Whatever move a process ends with, it has given all back before others learn of it. -/
theorem givenBack_of_ended (hw : Reachable allowed w) (hrunning : w.running = before ++ p :: after)
    (hon : m = .call → w.kernel.machine.poweredOff = false) {code : Int32}
    (hrun : m.run ⟨w.kernel, p⟩ = .error (.ended code) t) : w.GivenBack p t := by
  have hs := sound_turn hw.sound hrunning
  obtain ⟨hspares, -, hceases⟩ := (Move.ensures_run_tells hs m).of_error hrun
  have hp : p ∈ w.processes := by
    rw [processes, hrunning]
    exact List.mem_append_left _ (List.mem_append_right _ (List.mem_cons_self ..))
  have hlost := Move.tells_ne_lost hrun
  generalize m.tells ⟨w.kernel, p⟩ = happened at hceases hlost
  cases hceases with
  | exits hexits =>
    refine Releases.givenBack hw.consistentWith hp hexits.toReleases hspares.sound ?_
    rw [hexits.records]
    exact fun _ he => Assoc.mem_of_mem_foldl_erase he
  | halts hhalts =>
    refine Releases.givenBack hw.consistentWith hp hhalts.toReleases hspares.sound ?_
    rw [hhalts.records]
    exact fun _ he => he
  | cut hoff =>
    by_cases hcall : m = .call
    · exact absurd ((hon hcall).symm.trans hoff) Bool.false_ne_true
    · exact absurd rfl (hlost hcall)

/-- When no process is left, all frames are free. -/
theorem Reachable.frames_free (hw : Reachable allowed w) (hdone : w.processes = []) :
    w.kernel.machine.pool.available = w.kernel.machine.pool.capacity := by
  have hbalanced : _ + _ = _ := hw.consistentWith.balanced
  rw [hdone] at hbalanced
  rw [hw.sound.ledger.capacity]
  exact hbalanced

/-- When no process is left of a run, as many files are open as before the first one was created, as
long as only the root has the root's number. -/
theorem Run.files_closed {config : Config} {devices : Devices} {name : String}
    {args : List String} {pid : Pid} {k : Kernel}
    (hspawn : Kernel.spawn name args (.boot config devices) = .ok pid k)
    (hrun : Run Move.Tame ⟨k, []⟩ w) (hdone : w.processes = [])
    (hfew : w.kernel.nextOrdinal ≤ 2 ^ 32) :
    w.kernel.machine.openHandles = devices.files.openHandles := by
  have hroot : Reachable Move.Tame ⟨k, []⟩ := (Reachable.boot config devices).step (.spawned hspawn)
  have haccounts := (hrun.accounts hroot (accounts_root hspawn) hfew).handles
  rw [(List.append_eq_nil_iff.1 hdone).1] at haccounts
  exact haccounts

end World

def Program.Tame : Program → Prop
  | empty => True
  | script instructions _ => ∀ i ∈ instructions, i.action.Tame

namespace Schedule

open World

variable {programs : Assoc Int32 Program} {config : Config} {devices : Devices} {root : String}
variable {args : List String} {fuel : Nat}

private theorem runAll_idle {s : Schedule} (hstack : s.stack = []) (hready : s.kernel.ready = []) :
    s.runAll fuel = s := by
  cases fuel with
  | zero => rfl
  | succ fuel => simp [runAll, advance?, step?, hstack, hready, Kernel.nextReady?]

private theorem frames_free_runAll
    (hdone : ((boot config devices programs root args).2.runAll fuel).world.processes = []) :
    ((boot config devices programs root args).2.runAll fuel).kernel.machine.pool.available =
      ((boot config devices programs root args).2.runAll fuel).kernel.machine.pool.capacity := by
  have hreachable : Reachable (fun _ => True)
      ((boot config devices programs root args).2.runAll fuel).world :=
    reachable_runAll (fun _ _ => trivial) (fun _ _ _ _ _ => trivial) config devices root args fuel
  exact hreachable.frames_free hdone

private theorem follows_spawned {pid : Pid} {k : Kernel} (htame : ∀ e ∈ programs, e.2.Tame)
    (hspawn : Kernel.spawn root args (.boot config devices) = .ok pid k) (fuel : Nat) :
    Follows Move.Tame ⟨k, []⟩ (runAll fuel { kernel := k, programs }) := by
  have hgrown :=
    ((Kernel.ensures_spawn (Kernel.Sound.boot config devices) root args).of_ok hspawn).1
  have hpermitted : Permitted Move.Tame { kernel := k, programs } :=
    ⟨fun _ hm => hm, fun hmem i hi m hm => hm (htame _ hmem i hi),
      fun a ha => absurd ha List.not_mem_nil⟩
  exact follows_runAll hpermitted hgrown.sound fuel

private theorem files_closed_runAll (htame : ∀ e ∈ programs, e.2.Tame)
    (hdone : ((boot config devices programs root args).2.runAll fuel).world.processes = [])
    (hfew : ((boot config devices programs root args).2.runAll fuel).kernel.nextOrdinal ≤ 2 ^ 32) :
    ((boot config devices programs root args).2.runAll fuel).kernel.machine.openHandles =
      devices.files.openHandles := by
  unfold boot at hdone hfew ⊢
  split
  · next pid k hspawn =>
    rw [hspawn] at hdone hfew
    exact Run.files_closed hspawn (follows_spawned htame hspawn fuel).1 hdone hfew
  · next stop k hspawn =>
    obtain ⟨-, habides, hdevices, -⟩ :=
      (Kernel.ensures_spawn (Kernel.Sound.boot config devices) root args).of_error hspawn
    rw [runAll_idle rfl habides.ready, Machine.openHandles, hdevices]
    rfl

/-- Whichever way a process ends that the kernel serves, it gives all back before others learn of it.
So once all processes are gone of a run in which they run one at a time, all frames are free, and as
many files are open as before. The same is true of what programs do on a new machine. Only one that
gives up by itself can leave files open, or one that has the number of the root and is not the root. -/
theorem processes_give_back (config : Config) (devices : Devices) (root : String)
    (args : List String) :
    (∀ {allowed : Move → Prop} {w : World} {before after : List Process} {p : Process} {m : Move},
      Reachable allowed w → w.running = before ++ p :: after →
        (m.Last p → ∃ code t, m.run ⟨w.kernel, p⟩ = .error (.ended code) t) ∧
        ∀ code t, (m = .call → w.kernel.machine.poweredOff = false) →
          m.run ⟨w.kernel, p⟩ = .error (.ended code) t → w.GivenBack p t) ∧
    (∀ {pid : Pid} {k : Kernel} {w : World},
      Kernel.spawn root args (.boot config devices) = .ok pid k → Run Move.Tame ⟨k, []⟩ w →
        w.processes = [] →
        w.kernel.machine.pool.available = w.kernel.machine.pool.capacity ∧
        (w.kernel.nextOrdinal ≤ 2 ^ 32 →
          w.kernel.machine.openHandles = devices.files.openHandles)) ∧
    ∀ {programs : Assoc Int32 Program} {fuel : Nat} {s : Schedule},
      s = (boot config devices programs root args).2.runAll fuel → s.world.processes = [] →
        s.kernel.machine.pool.available = s.kernel.machine.pool.capacity ∧
        ((∀ e ∈ programs, e.2.Tame) → s.kernel.nextOrdinal ≤ 2 ^ 32 →
          s.kernel.machine.openHandles = devices.files.openHandles) := by
  refine ⟨?_, ?_, ?_⟩
  · intro allowed w before after p m hw hrunning
    refine ⟨fun hlast => ?_, fun code t hon hrun => givenBack_of_ended hw hrunning hon hrun⟩
    have hends := hlast.ensures_run (sound_turn hw.sound hrunning)
    rcases hrun : m.run ⟨w.kernel, p⟩ with ⟨_, t⟩ | ⟨stop, t⟩
    · exact (hends.of_ok hrun).elim
    · obtain ⟨code, rfl⟩ := hends.of_error hrun
      exact ⟨code, t, rfl⟩
  · intro pid k w hspawn hrun hdone
    have hroot : Reachable Move.Tame ⟨k, []⟩ :=
      (Reachable.boot config devices).step (.spawned hspawn)
    exact ⟨(hroot.run hrun).frames_free hdone, hrun.files_closed hspawn hdone⟩
  · rintro programs fuel s rfl hdone
    exact ⟨frames_free_runAll hdone, fun htame hfew => files_closed_runAll htame hdone hfew⟩

def samplePrograms : Assoc Int32 Program :=
  [(16, .script [{ action := .syscall (.literal 8) [.literal 1] false }] (.literal 7))]

def sampleDevices : Devices where
  files := ({} : FileSystem).insert "a.coff" Loader.sampleImage

def sampleRun : Schedule :=
  (boot { physPages := 10, stackPages := 1 } sampleDevices samplePrograms "a.coff" []).2.runAll 6

private theorem samplePrograms_tame : ∀ e ∈ samplePrograms, e.2.Tame := by
  simp [samplePrograms, Program.Tame, Action.Tame]

private theorem processes_sampleRun : sampleRun.world.processes = [] := by
  have hlength : sampleRun.world.processes.length = 0 := by decide +kernel
  exact List.length_eq_zero_iff.1 hlength

private theorem run_sampleRun : ∃ pid k,
    Kernel.spawn "a.coff" [] (.boot { physPages := 10, stackPages := 1 } sampleDevices) =
      .ok pid k ∧
    Run Move.Tame ⟨k, []⟩ sampleRun.world := by
  have hcreated : (boot { physPages := 10, stackPages := 1 } sampleDevices samplePrograms
      "a.coff" []).1.toBool = true := by decide +kernel
  unfold sampleRun
  unfold boot at hcreated ⊢
  rcases hspawn : Kernel.spawn "a.coff" []
      (.boot { physPages := 10, stackPages := 1 } sampleDevices) with ⟨pid, k⟩ | ⟨stop, k⟩
  · exact ⟨pid, k, rfl, (follows_spawned samplePrograms_tame hspawn 6).1⟩
  · rw [hspawn] at hcreated
    cases hcreated

theorem processes_give_back_sample :
    (∃ p code t, Reachable Move.Tame sampleWorld ∧ sampleWorld.running = [] ++ p :: [] ∧
      Move.Last p .leave ∧
      Move.run .leave ⟨sampleWorld.kernel, p⟩ = .error (.ended code) t ∧
      sampleWorld.GivenBack p t) ∧
    (∃ pid k, Kernel.spawn "a.coff" [] (.boot { physPages := 10, stackPages := 1 } sampleDevices) =
        .ok pid k ∧
      Run Move.Tame ⟨k, []⟩ sampleRun.world ∧ sampleRun.world.processes = [] ∧
      sampleRun.kernel.nextOrdinal ≤ 2 ^ 32 ∧
      sampleRun.kernel.machine.pool.available = sampleRun.kernel.machine.pool.capacity ∧
      sampleRun.kernel.machine.openHandles = sampleDevices.files.openHandles) ∧
    (sampleRun.world.processes = [] ∧
      sampleRun.kernel.machine.pool.available = sampleRun.kernel.machine.pool.capacity ∧
      sampleRun.kernel.machine.openHandles = sampleDevices.files.openHandles) := by
  obtain ⟨hends, hruns, hprograms⟩ :=
    processes_give_back { physPages := 10, stackPages := 1 } sampleDevices "a.coff" []
  obtain ⟨p, hrunning⟩ := exists_sampleWorld
  have hsplit : sampleWorld.running = [] ++ p :: [] := hrunning
  have hreachable : Reachable Move.Tame sampleWorld := reachable_sampleWorld fun _ _ => nofun
  obtain ⟨hlast, hgiven⟩ := hends (m := .leave) hreachable hsplit
  obtain ⟨code, t, hended⟩ := hlast .leave
  obtain ⟨pid, k, hspawn, hrun⟩ := run_sampleRun
  have hdone := processes_sampleRun
  have hfew : sampleRun.kernel.nextOrdinal ≤ 2 ^ 32 := by decide +kernel
  obtain ⟨hfree, hclosed⟩ := @hprograms samplePrograms 6 sampleRun rfl hdone
  obtain ⟨hempty, hshut⟩ := hruns hspawn hrun hdone
  exact ⟨⟨p, code, t, hreachable, hsplit, .leave, hended, hgiven code t nofun hended⟩,
    ⟨pid, k, hspawn, hrun, hdone, hfew, hempty, hshut hfew⟩,
    hdone, hfree, hclosed samplePrograms_tame hfew⟩

/-- A program that opens a file, runs itself again, makes one more call and dies. There is room for it
twice, and the call of the first comes when the second has died. -/
def sampleLosses : Assoc Int32 Program :=
  [(16, .script
    [{ action := .syscall (.literal 5) [.literal 8192] false },
      { action := .syscall (.literal 2) [.literal 8192, .literal 0, .literal 8192] false },
      { action := .syscall (.literal 8) [.literal 9] false },
      { action := .die }] (.literal 0))]

def sampleShelf : Devices where
  files := ({} : FileSystem).insert "" Loader.sampleImage

/-- Programs that die leave files open, their own and those of processes that the outage stops. -/
theorem not_closed_by_death : ¬ ∀ (config : Config) (devices : Devices)
    (programs : Assoc Int32 Program) (root : String) (args : List String) (fuel : Nat)
    (s : Schedule), s = (boot config devices programs root args).2.runAll fuel →
      s.world.processes = [] → s.kernel.machine.openHandles = devices.files.openHandles := by
  intro hclosed
  have hend := hclosed { physPages := 10, stackPages := 1 } sampleShelf sampleLosses "" [] 16 _ rfl
  generalize hrun :
    (boot { physPages := 10, stackPages := 1 } sampleShelf sampleLosses "" []).2.runAll 16 = s at hend
  have hlength : s.world.processes.length = 0 := by
    rw [← hrun]
    decide +kernel
  have hopen : s.kernel.machine.openHandles = 2 ∧ sampleShelf.files.openHandles = 0 := by
    rw [← hrun]
    decide +kernel
  have hsame := hend (List.length_eq_zero_iff.1 hlength)
  omega

end Schedule

end PagedKernel

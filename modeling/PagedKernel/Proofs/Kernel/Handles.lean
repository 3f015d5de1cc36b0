import PagedKernel.Proofs.Kernel.FreeDescriptors
import PagedKernel.Proofs.Kernel.Power

/-!
# Open files

Every file that the file system counts as open is under a descriptor of a process that has not come
to its end. So a call that is refused leaves no file open, a process that ends leaves none, and none
is closed twice.
-/

namespace PagedKernel

def Happening.lost? : Happening → Option Process
  | lost p => some p
  | created .. | reaped .. | unstarted _ | exited .. | halted _ => none

def lost (history : List Happening) : List Process := history.filterMap Happening.lost?

private theorem lost_append (history happened : List Happening) :
    lost (history ++ happened) = lost history ++ lost happened := by
  simp [lost]

namespace FileSystem

private theorem open?_create (fs : FileSystem) (name : String) : ∃ id files,
    fs.open? name true = some (id, files) ∧ files.openHandles = fs.openHandles + 1 ∧
      files.contents? name = some ((fs.contents? name).getD []) ∧
      ∀ other, other ≠ name → files.contents? other = fs.contents? other := by
  unfold open?
  cases hfind : fs.names.find? name with
  | some id => exact ⟨_, _, rfl, rfl, by simp [contents?, hfind, bytes], fun _ _ => rfl⟩
  | none =>
    refine ⟨_, _, rfl, rfl, ?_, fun other hother => ?_⟩
    · simp [contents?, hfind, insert, Assoc.find?_insert, bytes]
    · rw [contents?, insert, Assoc.find?_insert, if_neg (Ne.symm hother), contents?]
      cases fs.names.find? other with
      | none => rfl
      | some id => exact congrArg some (bytes_insert fs name id)

end FileSystem

/-- If no descriptor is free, a file that is to be made is there afterwards, and not open. -/
theorem Desk.openFile_full {s : Desk} (hfull : s.descriptors.free = []) (name : String) :
    ∃ files, openFile name true s = .error (.refused .tooManyOpenFiles)
        ⟨s.descriptors, { s.devices with files }⟩ ∧
      files.openHandles = s.devices.files.openHandles ∧
      files.contents? name = some ((s.devices.files.contents? name).getD []) ∧
      ∀ other, other ≠ name → files.contents? other = s.devices.files.contents? other := by
  obtain ⟨id, files, hopen, hhandles, hthere, hothers⟩ := s.devices.files.open?_create name
  have hplace : ∀ file, s.descriptors.place? file = none :=
    fun _ => DescriptorTable.place?_eq_none_iff.2 hfull
  have hopened : s.devices.open? name true =
      some (⟨.file name (some id) 0, {}⟩, { s.devices with files }) := by
    rw [Devices.open?, hopen]
    rfl
  refine ⟨files.closed, ?_, by simp [FileSystem.closed, hhandles], hthere, hothers⟩
  simp [openFile, install, bind, EStateM.bind, get, getThe, MonadStateOf.get, EStateM.get, set,
    MonadStateOf.set, EStateM.set, hopened, hplace, OpenFile.close, Source.close]

namespace World

theorem openFiles_append (processes others : List Process) :
    openFiles (processes ++ others) = openFiles processes + openFiles others := by
  simp [openFiles]

theorem openFiles_perm {processes processes' : List Process} (h : processes.Perm processes') :
    openFiles processes = openFiles processes' :=
  (h.map _).sum_nat

end World

namespace Turn

open World

variable {t t' : Turn} {others : List Process} {happened : List Happening} {base : Nat}
variable {stop : Stop Errno} {call : CallNumber}

/-- A call on files that is refused leaves as many files open as before, and so does an exec. -/
theorem handles_of_refused (hs : t.Sound others) (hcall : call ∈ .exec :: CallNumber.onFiles)
    (q : CallRequest) : Ensures (serve call q) t (fun _ _ => True)
      (fun _ t' => t'.kernel.machine.openHandles = t.kernel.machine.openHandles) := by
  have huses : ∀ {x : Call Nat}, OnlyUses x → Ensures x t (fun _ _ => True)
      (fun _ t' => t'.kernel.machine.openHandles = t.kernel.machine.openHandles) :=
    fun hx => (hx t).mono (fun _ _ _ => trivial) fun _ _ h => h.handles
  have hopens : ∀ create, Ensures (openNamed create q) t (fun _ _ => True)
      (fun _ t' => t'.kernel.machine.openHandles = t.kernel.machine.openHandles) :=
    fun create => (ensures_openNamed_opens create q hs.inRange).mono (fun _ _ _ => trivial)
      fun _ _ h => h.handles
  simp only [CallNumber.onFiles, List.mem_cons, List.not_mem_nil, or_false] at hcall
  rcases hcall with rfl | rfl | rfl | rfl | rfl | rfl | rfl
  · apply (ensures_exec_gainsChild hs q).mono (fun _ _ _ => trivial)
    rintro stop t' ⟨-, hfails⟩
    rw [Machine.openHandles, hfails.devices, Machine.openHandles]
  · exact hopens true
  · exact hopens false
  · exact huses (onlyUses_readCall q)
  · exact huses (onlyUses_writeCall q)
  · apply (ensures_closeCall q t).mono (fun _ _ _ => trivial)
    intro stop t' hdesk
    exact congrArg (fun s : Desk => s.devices.files.openHandles) hdesk
  · exact huses (onlyUses_unlinkCall q)

private theorem Does.lost_eq (hdoes : t.Does happened t') : lost happened = [] := by
  cases hdoes <;> rfl

private theorem Does.handles (hdoes : t.Does happened t') (hexact : t.self.descriptors.FreeExact)
    (h : t.kernel.machine.openHandles =
      base + openFiles (t.self :: (others ++ t.kernel.ready))) :
    t'.kernel.machine.openHandles =
      base + openFiles (t'.self :: (others ++ t'.kernel.ready)) := by
  cases hdoes with
  | works hworks =>
    rw [hworks.ready]
    exact hworks.handles hexact h
  | @begets t₁ t' k child hworks hchild hafter =>
    have hready := hworks.ready_begets hchild hafter
    have hcreated : child.descriptors.fileCount = 0 := by
      rw [hchild.descriptors, DescriptorTable.fileCount_create]
    have hbirth : k.machine.openHandles =
        base + openFiles (t₁.self :: (others ++ t.kernel.ready)) := by
      rw [Machine.openHandles, hchild.devices]
      exact hworks.handles hexact h
    have hcounted : t'.kernel.machine.openHandles =
        base + openFiles (t'.self :: (others ++ t.kernel.ready)) :=
      hafter.handles (hworks.filesKept.freeExact hexact) hbirth
    simpa [hready, openFiles_append, hcreated, Nat.add_assoc] using hcounted
  | @unstarts t₁ t' hworks hafter =>
    rw [hworks.ready_passOver hafter]
    have hworked : t₁.passOver.kernel.machine.openHandles = _ := hworks.handles hexact h
    exact hafter.handles (hworks.filesKept.freeExact hexact) hworked
  | reaps hchild hrecord hworks =>
    rw [hworks.ready]
    exact hworks.handles hexact h
  | misses hchild hrecord hworks =>
    rw [hworks.ready]
    exact hworks.handles hexact h

/-- The files of a process that has come to its end are closed. Those of one that is lost are open. -/
theorem Ceases.handles (hceases : t.Ceases stop happened t') (hwaits : stop ≠ .waiting) {k : Kernel}
    (hburies : t'.Buries stop k) (hexact : t.self.descriptors.FreeExact)
    (h : t.kernel.machine.openHandles =
      base + openFiles (t.self :: (others ++ t.kernel.ready))) :
    k.machine.openHandles = base + openFiles (lost happened ++ (others ++ k.ready)) := by
  cases hceases with
  | exits hexits =>
    rw [hburies.ready, hexits.ready]
    exact hexits.toReleases.handles hburies hexact h
  | halts hhalts =>
    rw [hburies.ready, hhalts.ready]
    exact hhalts.toReleases.handles hburies hexact h
  | cut hoff =>
    rw [Machine.openHandles, hburies.devices, hburies.ready]
    exact h
  | waits => exact absurd rfl hwaits
  | dies f hdoes =>
    rw [Machine.openHandles, hburies.devices, hburies.ready, lost_append, hdoes.lost_eq]
    exact hdoes.handles hexact h

end Turn

namespace World

open Turn

variable {allowed : Move → Prop} {history : List Happening} {w w' : World} {base : Nat}
variable {before after : List Process} {p : Process} {m : Move} {happened : List Happening}

/-- The processes that have not come to their end, those that are lost among them. -/
def unended (w : World) (history : List Happening) : List Process := lost history ++ w.processes

private theorem unended_perm (hrunning : w.running = before ++ p :: after) (history : List Happening) :
    (w.unended history).Perm (p :: (lost history ++ (before ++ after) ++ w.kernel.ready)) := by
  rw [List.append_assoc]
  exact ((processes_perm hrunning).append_left _).trans List.perm_middle

theorem MoveOutcome.handles (hrunning : w.running = before ++ p :: after)
    (hb : w.kernel.ConsistentWith w.processes)
    (h : w.kernel.machine.openHandles = base + openFiles (w.unended history))
    (houtcome : w.MoveOutcome before p after m happened w') :
    w'.kernel.machine.openHandles = base + openFiles (w'.unended (history ++ happened)) := by
  have hexact : p.descriptors.FreeExact :=
    (hb.intact p ((mem_processes_iff hrunning).2 (.inl rfl))).freeExact
  have hhandles := h
  rw [openFiles_perm (unended_perm hrunning history)] at hhandles
  cases houtcome with
  | @goesOn _ t hspares hdoes =>
    have hperm := unended_perm (w := ⟨t.kernel, before ++ t.self :: after⟩) rfl
      (history ++ happened)
    rw [lost_append, hdoes.lost_eq, List.append_nil] at hperm
    rw [openFiles_perm hperm]
    exact hdoes.handles hexact hhandles
  | waits =>
    rw [List.append_nil]
    exact h
  | ends hspares hstop hceases =>
    rw [hceases.handles hstop (hspares.sound.buries _) hexact hhandles]
    simp only [unended, processes, lost_append, openFiles_append]
    omega

/-- A process is lost only when the machine is off, or goes off by it. -/
theorem MoveOutcome.lost_eq (hphase : p.phase = .running)
    (h : w.MoveOutcome before p after m happened w') (hon : w'.kernel.machine.poweredOff = false) :
    lost happened = [] := by
  have hbefore : w.kernel.machine.poweredOff = false :=
    Bool.eq_false_iff.2 fun hoff => Bool.false_ne_true (hon.symm.trans (h.off hoff))
  cases h with
  | goesOn hspares hdoes => exact hdoes.lost_eq
  | waits => rfl
  | ends hspares hstop hceases =>
    have hburies := hspares.sound.buries
    cases hceases with
    | exits => rfl
    | halts => rfl
    | cut hoff => exact absurd (hbefore.symm.trans hoff) Bool.false_ne_true
    | waits => rfl
    | dies f hdoes =>
      have hoff := (hburies (.fault f)).power
      rw [hdoes.phase, hphase] at hoff
      rw [hoff] at hon
      simp at hon

/-- While the machine is on nobody is lost. -/
theorem Chronicle.lost_of_on (h : Chronicle allowed history w)
    (hon : w.kernel.machine.poweredOff = false) : lost history = [] := by
  induction h with
  | begins hspawn => rfl
  | started h hready ih =>
    obtain ⟨found, hfind, heq⟩ := Option.map_eq_some_iff.1 hready
    cases heq
    exact ih hon
  | @acted history w w' before after p m h hallowed hacts ih =>
    have houtcome := hacts.moveOutcome h.reachable.sound
    have hphase := h.phases p hacts.mem_running
    have hbefore : w.kernel.machine.poweredOff = false :=
      Bool.eq_false_iff.2 fun hoff => Bool.false_ne_true (hon.symm.trans (houtcome.off hoff))
    rw [lost_append, ih hbefore, houtcome.lost_eq hphase hon, List.append_nil]
  | changed h devices ih => exact ih hon

/-- A chronicle on a file system of which `base` files were open at first, and of which the host has
opened and closed none since. -/
inductive ChronicleKeepingHandles (allowed : Move → Prop) (base : Nat) : List Happening → World → Prop
  | begins {config : Config} {devices : Devices} {name : String} {args : List String} {pid : Pid}
      {k : Kernel} (hbase : devices.files.openHandles = base)
      (hspawn : Kernel.spawn name args (.boot config devices) = .ok pid k) :
      ChronicleKeepingHandles allowed base [] ⟨k, []⟩
  | started {history : List Happening} {w : World} {ordinal : Nat} {p : Process} {k : Kernel}
      (h : ChronicleKeepingHandles allowed base history w)
      (hready : w.kernel.takeReady? ordinal = some (p, k)) :
      ChronicleKeepingHandles allowed base history ⟨k, { p with phase := .running } :: w.running⟩
  | acted {history : List Happening} {w w' : World} {before after : List Process} {p : Process}
      {m : Move} (h : ChronicleKeepingHandles allowed base history w) (hallowed : allowed m)
      (hacts : w.Acts before p after m w') :
      ChronicleKeepingHandles allowed base (history ++ m.tells ⟨w.kernel, p⟩) w'
  | changed {history : List Happening} {w : World} (h : ChronicleKeepingHandles allowed base history w)
      (devices : Devices)
      (hkept : devices.files.openHandles = w.kernel.machine.openHandles) :
      ChronicleKeepingHandles allowed base history
        ⟨{ w.kernel with machine := { w.kernel.machine with devices } }, w.running⟩

private theorem ChronicleKeepingHandles.chronicle (h : ChronicleKeepingHandles allowed base history w) :
    Chronicle allowed history w := by
  induction h with
  | begins hbase hspawn => exact .begins hspawn
  | started h hready ih => exact ih.started hready
  | acted h hallowed hacts ih => exact ih.acted hallowed hacts
  | changed h devices hkept ih => exact ih.changed devices

private theorem ChronicleKeepingHandles.handles (h : ChronicleKeepingHandles allowed base history w) :
    w.kernel.machine.openHandles = base + openFiles (w.unended history) := by
  induction h with
  | begins hbase hspawn =>
    obtain ⟨-, -, root, hroot⟩ :=
      (Kernel.ensures_spawn (Kernel.Sound.boot _ _) _ _).of_ok hspawn
    have hfamily : unended ⟨_, []⟩ [] = [root] := hroot.ready
    rw [hfamily, Machine.openHandles, hroot.devices, openFiles_cons, hroot.descriptors,
      DescriptorTable.fileCount_create]
    exact hbase
  | @started history w ordinal p k h hready ih =>
    obtain ⟨-, hperm, hk⟩ := processes_started h.chronicle.reachable.consistentWith.distinct hready
    have hsame : openFiles (unended ⟨k, { p with phase := .running } :: w.running⟩ history) =
        openFiles (w.unended history) := by
      rw [unended, unended, openFiles_append, openFiles_append, openFiles_perm hperm]
      rfl
    rw [hsame, hk]
    exact ih
  | acted h hallowed hacts ih =>
    have hw := h.chronicle.reachable
    exact (hacts.moveOutcome hw.sound).handles hacts.running_eq hw.consistentWith ih
  | changed h devices hkept ih => exact hkept.trans ih

/-- In a run of processes one at a time nobody is lost with files open, as long as only the root has the
root's number. -/
theorem Run.handles {config : Config} {devices : Devices} {name : String} {args : List String}
    {pid : Pid} {k : Kernel} (hspawn : Kernel.spawn name args (.boot config devices) = .ok pid k)
    (hrun : Run Move.Tame ⟨k, []⟩ w) (hfew : w.kernel.nextOrdinal ≤ 2 ^ 32) :
    w.kernel.machine.openHandles = devices.files.openHandles + openFiles w.processes := by
  have hroot : Reachable Move.Tame ⟨k, []⟩ := (Reachable.boot config devices).step (.spawned hspawn)
  have haccounts := hrun.accounts hroot (accounts_root hspawn) hfew
  have hready : openFiles w.kernel.ready = 0 := by
    rw [openFiles, List.map_eq_replicate_iff.2 haccounts.fresh, List.sum_replicate_nat, Nat.mul_zero]
  rw [processes, openFiles_append, hready, Nat.add_zero]
  exact haccounts.handles

private theorem createCall_full {t t₁ : Turn} {q : CallRequest} {name : String}
    (hfull : t.self.descriptors.free = []) (hname : stringArgument q.arg1 t = .ok name t₁) :
    ∃ t', createCall q t = .error (.refused .tooManyOpenFiles) t' ∧
      t'.self.descriptors = t.self.descriptors ∧
      t'.kernel.machine.openHandles = t.kernel.machine.openHandles ∧
      t'.kernel.machine.devices.files.contents? name =
        some ((t.kernel.machine.devices.files.contents? name).getD []) ∧
      ∀ other, other ≠ name → t'.kernel.machine.devices.files.contents? other =
        t.kernel.machine.devices.files.contents? other := by
  have hdesk : t₁.desk = t.desk := (desk_stringArgument q.arg1 t).of_ok hname
  obtain ⟨files, hopen, hmade⟩ := Desk.openFile_full (s := t.desk) hfull name
  have hcall : createCall q t = onDesk (Desk.openFile name true) t₁ := by
    simp [createCall, openNamed, bind, EStateM.bind, hname]
  have hopened : Desk.openFile name true ⟨t₁.self.descriptors, t₁.kernel.machine.devices⟩ = _ :=
    (congrArg (Desk.openFile name true) hdesk).trans hopen
  refine ⟨{ t₁ with self.descriptors := t.self.descriptors
                    kernel.machine.devices := { t.desk.devices with files } }, ?_, rfl, hmade⟩
  rw [hcall, onDesk, zoom, hopened]
  rfl

/-- The files that are open are those that were open at first and those under the descriptors of the
processes that have not come to their end. While the machine is on, or processes run one at a time
and no number is given twice, these are the processes that are there. A call that is refused leaves as
many files open as before; a create leaves the file there, even if no descriptor is free for it. -/
theorem ChronicleKeepingHandles.handles_accounted (h : ChronicleKeepingHandles allowed base history w) :
    w.kernel.machine.openHandles = base + openFiles (w.unended history) ∧
    (w.kernel.machine.poweredOff = false → w.unended history = w.processes) ∧
    (∀ config devices name args pid k w', Kernel.spawn name args (.boot config devices) = .ok pid k →
      Run Move.Tame ⟨k, []⟩ w' → w'.kernel.nextOrdinal ≤ 2 ^ 32 →
      w'.kernel.machine.openHandles = devices.files.openHandles + openFiles w'.processes) ∧
    ∀ p ∈ w.running,
      (∀ call ∈ .exec :: CallNumber.onFiles, ∀ q stop t,
        serve call q ⟨w.kernel, p⟩ = .error stop t →
        t.kernel.machine.openHandles = w.kernel.machine.openHandles) ∧
      ∀ q name t, p.descriptors.free = [] → stringArgument q.arg1 ⟨w.kernel, p⟩ = .ok name t →
        ∃ t', createCall q ⟨w.kernel, p⟩ = .error (.refused .tooManyOpenFiles) t' ∧
          t'.self.descriptors = p.descriptors ∧
          t'.kernel.machine.openHandles = w.kernel.machine.openHandles ∧
          t'.kernel.machine.devices.files.contents? name =
            some ((w.kernel.machine.devices.files.contents? name).getD []) ∧
          ∀ other, other ≠ name → t'.kernel.machine.devices.files.contents? other =
            w.kernel.machine.devices.files.contents? other := by
  refine ⟨h.handles, fun hon => ?_, fun _ _ _ _ _ _ _ hspawn hrun hfew =>
    hrun.handles hspawn hfew,
    fun p hp => ⟨fun call hcall q stop t hrun => ?_, fun q name t hfull hname =>
      createCall_full (t := ⟨w.kernel, p⟩) hfull hname⟩⟩
  · rw [unended, h.chronicle.lost_of_on hon, List.nil_append]
  · obtain ⟨before, after, hrunning⟩ := List.append_of_mem hp
    have hs := sound_turn h.chronicle.reachable.sound hrunning
    exact (handles_of_refused hs hcall q).of_error hrun

private theorem ChronicleKeepingHandles.play (h : ChronicleKeepingHandles allowed base history w)
    {c : Cue}
    (hallowed : ∀ m, c = .move m → allowed m) :
    ChronicleKeepingHandles allowed base (history ++ (c.play w).1) (c.play w).2 := by
  rcases c.play_cases w with hplay | ⟨ordinal, p, k, hready, hplay⟩ | ⟨m, p, after, hm, htells, hacts⟩
  · rw [hplay, List.append_nil]
    exact h
  · rw [hplay, List.append_nil]
    exact h.started hready
  · rw [htells]
    exact h.acted (hallowed m hm) hacts

def sampleCrowd : World :=
  ⟨tried "" [] (.boot { physPages := 10, stackPages := 1, maxOpenFiles := 3 }
    { files := { ({} : FileSystem).insert "" Loader.sampleImage with openHandles := 5 } }), []⟩

def sampleFull : List Happening × World :=
  story sampleCrowd (.start 1 :: Cue.issue ⟨5, 8192, 0, 0, 0⟩)

private theorem chronicleKeepingHandles_sampleFull :
    ChronicleKeepingHandles Move.Tame 5 sampleFull.1 sampleFull.2 := by
  have hready : sampleCrowd.kernel.ready.length = 1 := by decide +kernel
  obtain ⟨pid, hspawn⟩ := spawn_of_ready hready
  have hroot : ChronicleKeepingHandles Move.Tame 5 [] sampleCrowd := .begins rfl hspawn
  refine story_induction hroot fun c hc history w h => h.play fun m hm => ?_
  simp only [Cue.issue, List.mem_cons, List.not_mem_nil, or_false, hm, reduceCtorEq, false_or] at hc
  rcases hc with hc | hc <;> cases hc <;> simp [Move.Tame]

theorem handles_accounted_sample :
    ∃ p t t', ChronicleKeepingHandles Move.Tame 5 sampleFull.1 sampleFull.2 ∧
    sampleFull.2.running = [p] ∧ sampleFull.2.kernel.machine.openHandles = 5 + 1 ∧
    openFiles (sampleFull.2.unended sampleFull.1) = 1 ∧ p.descriptors.free = [] ∧
    stringArgument 8192 ⟨sampleFull.2.kernel, p⟩ = .ok "" t ∧
    createCall ⟨4, 8192, 0, 0, 0⟩ ⟨sampleFull.2.kernel, p⟩ =
      .error (.refused .tooManyOpenFiles) t' ∧
    t'.kernel.machine.openHandles = sampleFull.2.kernel.machine.openHandles := by
  have hlength : sampleFull.2.running.length = 1 := by decide +kernel
  obtain ⟨p, hrunning⟩ := List.length_eq_one_iff.1 hlength
  have hp : p ∈ sampleFull.2.running := hrunning ▸ List.mem_singleton_self p
  have hhandles : sampleFull.2.kernel.machine.openHandles = 5 + 1 := by decide +kernel
  have hall : ∀ p ∈ sampleFull.2.running, p.descriptors.free = [] ∧
      (match stringArgument 8192 ⟨sampleFull.2.kernel, p⟩ with
        | .ok name _ => name == ""
        | .error _ _ => false) = true := by decide +kernel
  obtain ⟨hfull, hname⟩ := hall p hp
  obtain ⟨hbalanced, -, -, hcalls⟩ := chronicleKeepingHandles_sampleFull.handles_accounted
  rw [hhandles] at hbalanced
  split at hname
  · next name t hread =>
    rw [beq_iff_eq.1 hname] at hread
    obtain ⟨t', hcreate, -, hsame, -⟩ := (hcalls p hp).2 ⟨4, 8192, 0, 0, 0⟩ "" t hfull hread
    exact ⟨p, t, t', chronicleKeepingHandles_sampleFull, hrunning, hhandles,
      Nat.add_left_cancel hbalanced.symm, hfull, hread, hcreate, hsame⟩
  · cases hname

end World

end PagedKernel

import PagedKernel.Proofs.Kernel.Reading
import PagedKernel.Proofs.Kernel.Streams

/-!
# Sessions at the console

The host creates processes, starts them, types at the console and changes files, in any order with
the moves of the processes. What has passed the console is kept as a list, the oldest first: whatever
the order, the bytes that were typed are those that reads took and those that wait, and what is
printed is what writes passed.
-/

namespace PagedKernel

namespace Turn

open UserMemory

variable {t : Turn} {q : CallRequest}

private theorem stores_missing (hm : t.memory.Proper) (hw : t.desk.Wired) (hinput : q.arg1 = 0) :
    Ensures (readCall q) t (fun n t' => (t.missing t').length = n ∧
      t.memory.Stores t'.memory q.arg2.toInt.toNat (t.missing t')) (fun _ _ => True) := by
  rw [readCall_eq_transfer]
  refine ensures_transfer (fun _ => trivial) fun va slot file hpointer hfind hsize => ?_
  rw [← readCall_eq_transfer]
  obtain ⟨-, -, hslot⟩ := DescriptorTable.find?_eq_some_iff.1 hfind
  have hfile := hw.table.slots slot file hslot
  have hstdin : slot = 0 := (slot_eq_iff hfind 0 (by decide)).2 hinput
  have hva : va.toNat = q.arg2.toInt.toNat := by
    have hint := toNat_pointer hpointer
    omega
  subst hstdin
  cases hfile with
  | file hi => exact absurd hi (by decide)
  | stdin =>
    have htaken : ∀ m count, count ≤ (Channel.rest ⟨.stdin, t.kernel.machine.devices⟩).length →
        t.missing (t.plug 0 m (Channel.pulled ⟨.stdin, t.kernel.machine.devices⟩ count)) =
          (Channel.rest ⟨.stdin, t.kernel.machine.devices⟩).take count :=
      fun m count hcount => missing_eq (hw.pull hslot hcount)
    apply (ensures_readCall hm.framed hpointer hfind hsize rfl rfl).mono
    · rintro _ t' ⟨rfl, -, m, hwrote, rfl⟩
      rw [htaken m _ (Nat.min_le_right ..), ← hva]
      refine ⟨?_, Wrote.stores hwrote hm⟩
      rw [List.length_take]
      exact Nat.min_eq_left (Nat.min_le_right ..)
    · exact fun _ _ _ => trivial

end Turn

namespace World

open Turn Desk

variable {allowed : Move → Prop} {w w' : World} {before after : List Process} {p : Process}
variable {m : Move} {passed : List Traffic}

def console (w : World) : Console := w.kernel.machine.devices.console

def feed (w : World) (data : Bytes) : World :=
  ⟨{ w.kernel with machine.devices.console := w.console.feed data }, w.running⟩

def withFiles (w : World) (files : FileSystem) : World :=
  ⟨{ w.kernel with machine.devices.files := files }, w.running⟩

/-- What the host may leave of the files: names lead to files that there are, no file is lost, and
none gets shorter. -/
structure Leaves (w : World) (files : FileSystem) : Prop where
  names : files.Grounded
  grown : w.kernel.machine.devices.files.Grown files

/-- The worlds that a kernel can get to, with what has passed the console, the oldest first. -/
inductive Session (allowed : Move → Prop) : List Traffic → World → Prop
  | boot (config : Config) {files : FileSystem} (hnames : files.Grounded) :
      Session allowed [] ⟨.boot config { files }, []⟩
  | spawned {passed : List Traffic} {w : World} {name : String} {args : List String} {pid : Pid}
      {k : Kernel} (hw : Session allowed passed w)
      (hspawn : Kernel.spawn name args w.kernel = .ok pid k) : Session allowed passed ⟨k, w.running⟩
  | notSpawned {passed : List Traffic} {w : World} {name : String} {args : List String}
      {stop : Stop Errno} {k : Kernel} (hw : Session allowed passed w)
      (hspawn : Kernel.spawn name args w.kernel = .error stop k) :
      Session allowed passed ⟨k, w.running⟩
  | started {passed : List Traffic} {w : World} {ordinal : Nat} {p : Process} {k : Kernel}
      (hw : Session allowed passed w) (hready : w.kernel.takeReady? ordinal = some (p, k)) :
      Session allowed passed ⟨k, { p with phase := .running } :: w.running⟩
  | acted {passed : List Traffic} {w w' : World} {before after : List Process} {p : Process}
      {m : Move} (hw : Session allowed passed w) (hallowed : allowed m)
      (hacts : w.Acts before p after m w') :
      Session allowed (passed ++ m.traffic ⟨w.kernel, p⟩) w'
  | fed {passed : List Traffic} {w : World} (hw : Session allowed passed w) (data : Bytes) :
      Session allowed (passed ++ [.fed data]) (w.feed data)
  | filed {passed : List Traffic} {w : World} {files : FileSystem} (hw : Session allowed passed w)
      (hleaves : w.Leaves files) : Session allowed passed (w.withFiles files)

theorem Session.reachable (h : Session allowed passed w) : Reachable allowed w := by
  induction h with
  | boot config hnames => exact .boot config _
  | spawned hw hspawn ih => exact ih.step (.spawned hspawn)
  | notSpawned hw hspawn ih => exact ih.step (.notSpawned hspawn)
  | started hw hready ih => exact ih.step (.started hready)
  | acted hw hallowed hacts ih => exact ih.step (.acted hallowed hacts)
  | fed hw data ih => exact ih.step (.changed _)
  | filed hw hleaves ih => exact ih.step (.changed _)

/-- Every name and every descriptor leads where it may. -/
structure Wired (w : World) : Prop where
  names : w.kernel.machine.devices.files.Grounded
  tables : ∀ p ∈ w.processes, p.descriptors.Wired w.kernel.machine.devices.files

theorem Wired.desk (h : w.Wired) (hp : p ∈ w.processes) : (Turn.desk ⟨w.kernel, p⟩).Wired :=
  ⟨h.names, h.tables p hp⟩

/-- A step in which this has passed the console. -/
structure Passes (w : World) (passed : List Traffic) (w' : World) : Prop where
  wired : w'.Wired
  input : w.console.input = passed.flatMap Traffic.taken ++ w'.console.input
  output : w'.console.output = w.console.output ++ passed.flatMap Traffic.printed

private theorem Wired.retain (h : w.Wired) (hnames : w'.kernel.machine.devices.files.Grounded)
    (hgrown : w.kernel.machine.devices.files.Grown w'.kernel.machine.devices.files)
    (hprocesses : ∀ q ∈ w'.processes, q.descriptors.Wired w'.kernel.machine.devices.files ∨
      q ∈ w.processes ∨ ∃ capacity, q.descriptors = .create capacity) : w'.Wired where
  names := hnames
  tables q hq := by
    rcases hprocesses q hq with hworked | hold | ⟨capacity, hnew⟩
    · exact hworked
    · exact (h.tables q hold).grown hgrown
    · exact hnew ▸ DescriptorTable.wired_create capacity _

private theorem Acts.passes (hs : w.kernel.Sound w.running) (hw : w.Wired)
    (h : w.Acts before p after m w') : w.Passes (m.traffic ⟨w.kernel, p⟩) w' := by
  have hrunning := h.running_eq
  have hturn := sound_turn hs hrunning
  have hself := hw.desk ((mem_processes_iff hrunning).2 (.inl rfl))
  have hpasses := Move.passes_run hturn hself m
  have hmove := Move.ensures_run_tells hturn m
  have hothers : ∀ {ready : List Process}, (∀ q ∈ ready, q ∈ w.kernel.ready ∨
      ∃ capacity, q.descriptors = .create capacity) → ∀ q ∈ before ++ after ++ ready,
      q ∈ w.processes ∨ ∃ capacity, q.descriptors = .create capacity := by
    intro ready hready q hq
    rcases List.mem_append.1 hq with hother | hq
    · exact .inl ((mem_processes_iff hrunning).2 (.inr (List.mem_append_left _ hother)))
    · refine (hready q hq).imp_left fun hold => ?_
      exact (mem_processes_iff hrunning).2 (.inr (List.mem_append_right _ hold))
  cases h with
  | @goesOn t hw' hrun =>
    have hcarries := hpasses.of_ok hrun
    obtain ⟨-, hdoes, -⟩ := hmove.of_ok hrun
    obtain ⟨-, hready⟩ := hdoes.filesKept
    refine ⟨hw.retain hcarries.wired.names hcarries.grown fun q hq => ?_, hcarries.input,
      hcarries.output⟩
    rcases (mem_processes_iff (w := ⟨t.kernel, _⟩) rfl).1 hq with rfl | hq
    · exact .inl hcarries.wired.table
    · exact .inr (hothers hready q hq)
  | waits hw' hrun =>
    obtain ⟨-, hwaits⟩ := hpasses.of_error hrun
    exact ⟨hw, (hwaits rfl).input, (hwaits rfl).output⟩
  | @stops t stop hw' hrun hstop =>
    obtain ⟨hcarries, -⟩ := hpasses.of_error hrun
    obtain ⟨hspares, -, hceases⟩ := hmove.of_error hrun
    obtain ⟨-, hready⟩ := hceases.filesKept hstop
    have hburies := hspares.sound.buries stop
    have hdevices : (t.bury stop).machine.devices = t.desk.devices := hburies.devices
    refine ⟨hw.retain ?_ ?_ fun q hq => .inr (hothers hready q ?_), ?_, ?_⟩
    · exact hdevices ▸ hcarries.wired.names
    · exact hdevices ▸ hcarries.grown
    · rwa [processes, hburies.ready] at hq
    · rw [World.console, World.console, hdevices]
      exact hcarries.input
    · rw [World.console, World.console, hdevices]
      exact hcarries.output

/-- What was typed was taken or waits, and what is printed is what was passed. -/
structure Balanced (passed : List Traffic) (w : World) : Prop where
  wired : w.Wired
  input : passed.flatMap Traffic.data = passed.flatMap Traffic.taken ++ w.console.input
  output : w.console.output = passed.flatMap Traffic.printed

private theorem Balanced.passes {more : List Traffic} (h : Balanced passed w) (hmore : w.Passes more w')
    (hsameprocs : more.flatMap Traffic.data = []) : Balanced (passed ++ more) w' where
  wired := hmore.wired
  input := by
    rw [List.flatMap_append, hsameprocs, List.append_nil, h.input, hmore.input, List.flatMap_append,
      List.append_assoc]
  output := by rw [hmore.output, h.output, List.flatMap_append]

/-- Nothing passes the console, and no process gets to files that it had not opened. -/
theorem Balanced.of_devices (h : Balanced passed w)
    (hdevices : w'.kernel.machine.devices = w.kernel.machine.devices)
    (hprocesses : ∀ q ∈ w'.processes, (∃ p ∈ w.processes, q.descriptors = p.descriptors) ∨
      ∃ capacity, q.descriptors = .create capacity) : Balanced passed w' where
  wired := by
    refine h.wired.retain (hdevices ▸ h.wired.names) (.of_files (by rw [hdevices])) fun q hq => ?_
    rcases hprocesses q hq with ⟨p, hp, hsame⟩ | hnew
    · rw [hsame, hdevices]
      exact .inl (h.wired.tables p hp)
    · exact .inr (.inr hnew)
  input := by
    rw [World.console, hdevices]
    exact h.input
  output := by
    rw [World.console, hdevices]
    exact h.output

private theorem Balanced.feed (h : Balanced passed w) (data : Bytes) :
    Balanced (passed ++ [.fed data]) (w.feed data) where
  wired := ⟨h.wired.names, h.wired.tables⟩
  input := by
    have hinput : (w.feed data).console.input = w.console.input ++ data := rfl
    simp only [List.flatMap_append, List.flatMap_singleton, Traffic.data, Traffic.taken, h.input,
      hinput, List.append_nil, List.append_assoc]
  output := by
    have houtput : (w.feed data).console.output = w.console.output := rfl
    simp only [List.flatMap_append, List.flatMap_singleton, Traffic.printed, houtput, h.output,
      List.append_nil]

private theorem Balanced.file {files : FileSystem} (h : Balanced passed w) (hleaves : w.Leaves files) :
    Balanced passed (w.withFiles files) where
  wired := ⟨hleaves.names, fun q hq => (h.wired.tables q hq).grown hleaves.grown⟩
  input := h.input
  output := h.output

theorem Session.balanced (h : Session allowed passed w) : Balanced passed w := by
  induction h with
  | boot config hnames => exact ⟨⟨hnames, nofun⟩, rfl, rfl⟩
  | spawned hw hspawn ih =>
    obtain ⟨-, -, child, hchild⟩ := (Kernel.ensures_spawn hw.reachable.sound _ _).of_ok hspawn
    refine ih.of_devices hchild.devices fun q hq => ?_
    rw [processes, hchild.ready, ← List.append_assoc] at hq
    rcases List.mem_append.1 hq with hold | hnew
    · exact .inl ⟨q, hold, rfl⟩
    · exact .inr ⟨_, List.mem_singleton.1 hnew ▸ hchild.descriptors⟩
  | notSpawned hw hspawn ih =>
    obtain ⟨-, habides, hdevices, -⟩ :=
      (Kernel.ensures_spawn hw.reachable.sound _ _).of_error hspawn
    refine ih.of_devices hdevices fun q hq => .inl ⟨q, ?_, rfl⟩
    rwa [processes, habides.ready] at hq
  | @started passed w pid p k hw hready ih =>
    obtain ⟨-, hperm, hk⟩ := processes_started hw.reachable.consistentWith.distinct hready
    have hmachine : k.machine = w.kernel.machine := by rw [hk]
    refine ih.of_devices (congrArg Machine.devices hmachine) fun q hq => .inl ?_
    rcases List.mem_cons.1 hq with rfl | hq
    · exact ⟨p, hperm.mem_iff.2 (List.mem_cons_self ..), rfl⟩
    · exact ⟨q, hperm.mem_iff.2 (List.mem_cons_of_mem _ hq), rfl⟩
  | @acted passed w w' before after p m hw hallowed hacts ih =>
    exact ih.passes (hacts.passes hw.reachable.sound ih.wired) (m.data_traffic _)
  | fed hw data ih => exact ih.feed data
  | filed hw hleaves ih => exact ih.file hleaves

/-- Over any run, the bytes that were typed are those that reads from descriptor 0 took, in their order,
and then those that wait. What is printed are the buffers of the writes to descriptor 1 that
succeeded, in their order. A read that returns has stored what it took. -/
theorem Session.streams (h : Session allowed passed w) :
    passed.flatMap Traffic.data = passed.flatMap Traffic.taken ++ w.console.input ∧
    w.console.output = passed.flatMap Traffic.printed ∧
    ∀ p ∈ w.running, ∀ (q : CallRequest) (n : Nat) (t : Turn), q.arg1 = 0 →
      serve .read q ⟨w.kernel, p⟩ = .ok n t →
      (Turn.takes ⟨w.kernel, p⟩ .read q).length = n ∧
      (w.memory p).Stores t.memory q.arg2.toInt.toNat (Turn.takes ⟨w.kernel, p⟩ .read q) := by
  have hbalanced := h.balanced
  refine ⟨hbalanced.input, hbalanced.output, fun p hp q n t hinput hserve => ?_⟩
  have hself := hbalanced.wired.desk (List.mem_append_left _ hp)
  have htakes : Turn.takes ⟨w.kernel, p⟩ .read q = Turn.missing ⟨w.kernel, p⟩ t := by
    rw [Turn.takes, if_pos ⟨rfl, hinput⟩, reached_of_ok hserve]
  rw [htakes]
  exact (stores_missing (t := ⟨w.kernel, p⟩) (h.reachable.proper hp) hself hinput).of_ok hserve

private theorem Session.tried (hw : Session allowed passed w) (name : String) (args : List String) :
    Session allowed passed ⟨World.tried name args w.kernel, w.running⟩ := by
  unfold World.tried
  split
  · next pid k hspawn => exact hw.spawned hspawn
  · next stop k hspawn => exact hw.notSpawned hspawn

private theorem session_sampleWorld : Session (fun _ => True) [.fed [1, 2, 3]] sampleWorld := by
  have hnames : (({} : FileSystem).insert "a.coff" Loader.sampleImage).Grounded :=
    FileSystem.grounded_empty.insert _ _
  have hready : Session (fun _ => True) [.fed [1, 2, 3]] ⟨sampleKernel, []⟩ :=
    (((Session.boot _ hnames).fed [1, 2, 3]).tried "a.coff" []).tried "a.coff" ["a"]
  unfold sampleWorld
  split
  · next p k htake =>
    let started : Process := { p with phase := .running }
    have hacts : Acts ⟨k, [started]⟩ [] started []
        (.compute (p.registers.withRequest ⟨6, 0, 12288, 3, 0⟩)) _ := .goesOn rfl rfl
    exact (hready.started htake).acted trivial hacts
  · exact hready

theorem streams_of_read : ∃ p t w', sampleWorld.running = [p] ∧ sampleWorld.Acts [] p [] .call w' ∧
    w'.console.input = [] ∧ w'.console.output = [] ∧ serve .read ⟨6, 0, 12288, 3, 0⟩
      ⟨sampleWorld.kernel, p⟩ = .ok 3 t ∧
    (sampleWorld.memory p).Stores t.memory 12288 [1, 2, 3] := by
  have hread : ∀ p ∈ sampleWorld.running,
      answer? (serve .read ⟨6, 0, 12288, 3, 0⟩ ⟨sampleWorld.kernel, p⟩) = some 3 ∧
      Turn.takes ⟨sampleWorld.kernel, p⟩ .read ⟨6, 0, 12288, 3, 0⟩ = [1, 2, 3] ∧
      Move.call.traffic ⟨sampleWorld.kernel, p⟩ = [.moved .root [1, 2, 3] []] := by decide +kernel
  obtain ⟨p, hrunning⟩ := exists_sampleWorld
  have hp : p ∈ sampleWorld.running := hrunning ▸ List.mem_singleton_self p
  obtain ⟨hanswer, htakes, htraffic⟩ := hread p hp
  obtain ⟨t, hserve⟩ := answer?_eq_some_iff.1 hanswer
  have hsplit : sampleWorld.running = [] ++ p :: [] := hrunning
  obtain ⟨w', hacts⟩ := exists_acts hsplit .call
  obtain ⟨hinput, houtput, -⟩ := (session_sampleWorld.acted trivial hacts).streams
  obtain ⟨-, -, hstores⟩ := session_sampleWorld.streams
  have hstored := (hstores p hp _ 3 t rfl hserve).2
  rw [htakes] at hstored
  rw [htraffic] at hinput houtput
  exact ⟨p, t, w', hrunning, hacts, (List.append_cancel_left hinput).symm, houtput, hserve, hstored⟩

end World

end PagedKernel

import PagedKernel.Proofs.Kernel.Handles

/-!
# Worlds of which the host keeps the files

The host may make files, take names away, and open and close files of its own. While it loses no file
and closes none of those that processes have open, every name and every descriptor leads to a file,
and no open file is missing from the count.
-/

namespace PagedKernel

namespace Turn

variable {t t' : Turn} {happened : List Happening} {stop : Stop Errno}

theorem Does.filesKept (h : t.Does happened t') : t.desk.FilesKept t'.desk ∧
    ∀ q ∈ t'.kernel.ready, q ∈ t.kernel.ready ∨
      ∃ capacity, q.descriptors = .create capacity := by
  have hsame : ∀ {u : Turn}, u.kernel.ready = t.kernel.ready → ∀ q ∈ u.kernel.ready,
      q ∈ t.kernel.ready ∨ ∃ capacity, q.descriptors = .create capacity :=
    fun hready q hq => .inl (hready ▸ hq)
  cases h with
  | works hworks => exact ⟨hworks.filesKept, hsame hworks.ready⟩
  | @begets t₁ t' k child hworks hchild hafter =>
    have hdesk : desk ⟨k, { t₁.self with children := child.pid.insert t₁.self.children }⟩ =
        t₁.desk := congrArg (Desk.mk t₁.self.descriptors) hchild.devices
    have htends := hafter.filesKept
    rw [hdesk] at htends
    refine ⟨hworks.filesKept.trans htends, fun q hq => ?_⟩
    rw [hworks.ready_begets hchild hafter] at hq
    refine (List.mem_append.1 hq).imp_right fun hnew => ?_
    rw [List.mem_singleton.1 hnew]
    exact ⟨_, hchild.descriptors⟩
  | unstarts hworks hafter =>
    exact ⟨hworks.filesKept.trans hafter.filesKept, hsame (hworks.ready_passOver hafter)⟩
  | reaps hchild hrecord hworks => exact ⟨hworks.filesKept, hsame hworks.ready⟩
  | misses hchild hrecord hworks => exact ⟨hworks.filesKept, hsame hworks.ready⟩

theorem Ceases.filesKept (h : t.Ceases stop happened t') (hstop : stop ≠ .waiting) :
    t.desk.FilesKept t'.desk ∧ ∀ q ∈ t'.kernel.ready, q ∈ t.kernel.ready ∨
      ∃ capacity, q.descriptors = .create capacity := by
  have hreleases : Releases t t' → t.desk.FilesKept t'.desk ∧ ∀ q ∈ t'.kernel.ready,
      q ∈ t.kernel.ready ∨ ∃ capacity, q.descriptors = .create capacity := by
    intro h
    rw [h.desk, h.ready]
    exact ⟨Desk.filesKept_closeAll, fun q hq => .inl hq⟩
  cases h with
  | exits hexits => exact hreleases hexits.toReleases
  | halts hhalts => exact hreleases hhalts.toReleases
  | cut hoff => exact ⟨.refl _, fun q hq => .inl hq⟩
  | waits => exact absurd rfl hstop
  | dies f hdoes => exact hdoes.filesKept

end Turn

namespace World

open Turn

variable {allowed : Move → Prop} {w w' : World} {before after : List Process} {p : Process}
variable {m : Move} {happened : List Happening}

/-- Names and descriptors lead to files that were made, and the files that processes have open are
counted. -/
structure Filed (w : World) : Prop where
  names : w.kernel.machine.devices.files.Grounded
  below : ∀ p ∈ w.processes, p.descriptors.Below w.kernel.machine.devices.files.files.length
  handles : openFiles w.processes ≤ w.kernel.machine.openHandles

theorem Filed.grounded (h : w.Filed) (hp : p ∈ w.processes) :
    Desk.Grounded (Turn.desk ⟨w.kernel, p⟩) := ⟨h.names, h.below p hp⟩

/-- What the host may leave on the devices: no file is lost, and none is closed but its own. -/
structure Allows (w : World) (devices : Devices) : Prop where
  names : devices.files.Grounded
  count : w.kernel.machine.devices.files.files.length ≤ devices.files.files.length
  handles : openFiles w.processes ≤ devices.files.openHandles

/-- The worlds that a kernel can get to while the host keeps the files. -/
inductive ReachableKeepingFiles (allowed : Move → Prop) : World → Prop
  | boot (config : Config) {devices : Devices} (hnames : devices.files.Grounded) :
      ReachableKeepingFiles allowed ⟨.boot config devices, []⟩
  | spawned {w : World} {name : String} {args : List String} {pid : Pid} {k : Kernel}
      (hw : ReachableKeepingFiles allowed w) (hspawn : Kernel.spawn name args w.kernel = .ok pid k) :
      ReachableKeepingFiles allowed ⟨k, w.running⟩
  | notSpawned {w : World} {name : String} {args : List String} {stop : Stop Errno} {k : Kernel}
      (hw : ReachableKeepingFiles allowed w)
      (hspawn : Kernel.spawn name args w.kernel = .error stop k) :
      ReachableKeepingFiles allowed ⟨k, w.running⟩
  | started {w : World} {ordinal : Nat} {p : Process} {k : Kernel}
      (hw : ReachableKeepingFiles allowed w)
      (hready : w.kernel.takeReady? ordinal = some (p, k)) :
      ReachableKeepingFiles allowed ⟨k, { p with phase := .running } :: w.running⟩
  | acted {w w' : World} {before after : List Process} {p : Process} {m : Move}
      (hw : ReachableKeepingFiles allowed w) (hallowed : allowed m)
      (hacts : w.Acts before p after m w') :
      ReachableKeepingFiles allowed w'
  | changed {w : World} {devices : Devices} (hw : ReachableKeepingFiles allowed w)
      (hallows : w.Allows devices) :
      ReachableKeepingFiles allowed
        ⟨{ w.kernel with machine := { w.kernel.machine with devices } }, w.running⟩

theorem ReachableKeepingFiles.reachable (h : ReachableKeepingFiles allowed w) :
    Reachable allowed w := by
  induction h with
  | boot config hnames => exact .boot config _
  | spawned hw hspawn ih => exact ih.step (.spawned hspawn)
  | notSpawned hw hspawn ih => exact ih.step (.notSpawned hspawn)
  | started hw hready ih => exact ih.step (.started hready)
  | acted hw hallowed hacts ih => exact ih.step (.acted hallowed hacts)
  | changed hw hallows ih => exact ih.step (.changed _)

private theorem MoveOutcome.filed (hrunning : w.running = before ++ p :: after)
    (hb : w.kernel.ConsistentWith w.processes) (h : w.Filed)
    (houtcome : w.MoveOutcome before p after m happened w') :
    w'.Filed := by
  have hdesk := h.grounded ((mem_processes_iff hrunning).2 (.inl rfl))
  have hothers : ∀ q ∈ before ++ after ++ w.kernel.ready,
      q.descriptors.Below w.kernel.machine.devices.files.files.length :=
    fun q hq => h.below q ((mem_processes_iff hrunning).2 (.inr hq))
  have hhandles : openFiles w'.processes ≤ w'.kernel.machine.openHandles := by
    have hbase := (Nat.sub_add_cancel h.handles).symm
    have hafter : w'.kernel.machine.openHandles =
        w.kernel.machine.openHandles - openFiles w.processes +
          openFiles (w'.unended ([] ++ happened)) := houtcome.handles hrunning hb hbase
    simp only [unended, openFiles_append] at hafter
    omega
  have hbelow : ∀ {s : Desk} {ready : List Process}, Desk.FilesKept (Turn.desk ⟨w.kernel, p⟩) s →
      (∀ q ∈ ready, q ∈ w.kernel.ready ∨ ∃ capacity, q.descriptors = .create capacity) →
      ∀ q ∈ before ++ after ++ ready, q.descriptors.Below s.devices.files.files.length := by
    intro s ready htends hready q hq
    rcases List.mem_append.1 hq with hother | hq
    · exact (hothers q (List.mem_append_left _ hother)).mono htends.count
    · rcases hready q hq with hold | ⟨capacity, hnew⟩
      · exact (hothers q (List.mem_append_right _ hold)).mono htends.count
      · rw [hnew]
        exact DescriptorTable.below_create capacity _
  cases houtcome with
  | @goesOn happened t hspares hdoes hnotes =>
    obtain ⟨htends, hready⟩ := hdoes.filesKept
    refine ⟨(htends.grounded hdesk).names, fun q hq => ?_, hhandles⟩
    rcases (mem_processes_iff (w := ⟨t.kernel, _⟩) rfl).1 hq with rfl | hq
    · exact (htends.grounded hdesk).below
    · exact hbelow htends hready q hq
  | waits => exact h
  | @ends happened t stop hspares hstop hceases hfault =>
    obtain ⟨htends, hready⟩ := hceases.filesKept hstop
    have hburies := hspares.sound.buries stop
    have hdevices : (t.bury stop).machine.devices = t.desk.devices := hburies.devices
    refine ⟨?_, fun q hq => ?_, hhandles⟩
    · rw [hdevices]
      exact (htends.grounded hdesk).names
    · rw [processes, hburies.ready] at hq
      rw [hdevices]
      exact hbelow htends hready q hq

private theorem Filed.spawned {k : Kernel} (h : w.Filed) (hchild : w.kernel.TakesUp k p) :
    Filed ⟨k, w.running⟩ := by
  have hcreated : p.descriptors.fileCount = 0 := by
    rw [hchild.descriptors, DescriptorTable.fileCount_create]
  refine ⟨?_, fun q hq => ?_, ?_⟩
  · rw [hchild.devices]
    exact h.names
  · rw [processes, hchild.ready, ← List.append_assoc] at hq
    rw [hchild.devices]
    rcases List.mem_append.1 hq with hold | hnew
    · exact h.below q hold
    · rw [List.mem_singleton.1 hnew, hchild.descriptors]
      exact DescriptorTable.below_create _ _
  · rw [processes, hchild.ready, ← List.append_assoc, openFiles_append, openFiles_cons, hcreated,
      Machine.openHandles, hchild.devices]
    exact h.handles

private theorem Filed.started {k : Kernel} {ordinal : Nat} (h : w.Filed)
    (hb : w.kernel.ConsistentWith w.processes)
    (hready : w.kernel.takeReady? ordinal = some (p, k)) :
    Filed ⟨k, { p with phase := .running } :: w.running⟩ := by
  obtain ⟨-, hperm, hk⟩ := processes_started hb.distinct hready
  have hmachine : k.machine = w.kernel.machine := by rw [hk]
  have hbelow : ∀ q ∈ p :: (w.running ++ k.ready), _ := fun q hq => h.below q (hperm.mem_iff.2 hq)
  have hhandles := h.handles
  rw [openFiles_perm hperm] at hhandles
  refine ⟨hmachine ▸ h.names, fun q hq => ?_, hmachine ▸ hhandles⟩
  rw [hmachine]
  rcases List.mem_cons.1 hq with rfl | hq
  · exact hbelow p (List.mem_cons_self ..)
  · exact hbelow q (List.mem_cons_of_mem _ hq)

/-- While the host keeps the files, all that can be reached was made, and what is open is counted. -/
theorem ReachableKeepingFiles.filed (h : ReachableKeepingFiles allowed w) : w.Filed := by
  induction h with
  | boot config hnames => exact ⟨hnames, nofun, Nat.zero_le _⟩
  | spawned hw hspawn ih =>
    obtain ⟨-, -, child, hchild⟩ := (Kernel.ensures_spawn hw.reachable.sound _ _).of_ok hspawn
    exact ih.spawned hchild
  | notSpawned hw hspawn ih =>
    obtain ⟨-, habides, hdevices, -⟩ :=
      (Kernel.ensures_spawn hw.reachable.sound _ _).of_error hspawn
    refine ⟨hdevices ▸ ih.names, ?_, ?_⟩
    · rw [processes, habides.ready, hdevices]
      exact ih.below
    · rw [processes, habides.ready, Machine.openHandles, hdevices]
      exact ih.handles
  | started hw hready ih => exact ih.started hw.reachable.consistentWith hready
  | acted hw hallowed hacts ih =>
    exact (hacts.moveOutcome hw.reachable.sound).filed hacts.running_eq hw.reachable.consistentWith ih
  | changed hw hallows ih =>
    exact ⟨hallows.names, fun q hq => (ih.below q hq).mono hallows.count, hallows.handles⟩

theorem ReachableKeepingFiles.tried (hw : ReachableKeepingFiles allowed w) (name : String)
    (args : List String) :
    ReachableKeepingFiles allowed ⟨World.tried name args w.kernel, w.running⟩ := by
  unfold World.tried
  split
  · next pid k hspawn => exact hw.spawned hspawn
  · next stop k hspawn => exact hw.notSpawned hspawn

private theorem ReachableKeepingFiles.play (hw : ReachableKeepingFiles allowed w) {c : Cue}
    (hallowed : ∀ m, c = .move m → allowed m) :
    ReachableKeepingFiles allowed (c.play w).2 := by
  rcases c.play_cases w with hplay | ⟨ordinal, p, k, hready, hplay⟩ | ⟨m, p, after, hm, -, hacts⟩
  · rwa [hplay]
  · rw [hplay]
    exact hw.started hready
  · exact hw.acted (hallowed m hm) hacts

theorem reachableKeepingFiles_story (hw : ReachableKeepingFiles allowed w) {cues : List Cue}
    (hallowed : ∀ m, .move m ∈ cues → allowed m) : ReachableKeepingFiles allowed (story w cues).2 := by
  let holds : List Happening → World → Prop := fun _ w => ReachableKeepingFiles allowed w
  have hbegins : holds [] w := hw
  exact story_induction hbegins fun _ hc _ _ h => ReachableKeepingFiles.play h fun m hm =>
    hallowed m (hm ▸ hc)

end World

end PagedKernel

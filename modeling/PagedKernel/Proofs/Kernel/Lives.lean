import PagedKernel.Proofs.Kernel.Isolation
import PagedKernel.Proofs.Kernel.Passages
import PagedKernel.Proofs.Kernel.TwinTurns
import PagedKernel.Proofs.Loader.Written

/-!
# The pages of a process over its life

From the load on the pages of a process are reached by its own moves and by copies that the kernel
makes for it, and by nothing else. So the marks of a page tell exactly what happened to it, and what
is not marked as written is as it was loaded.
-/

namespace PagedKernel

open UserMemory

namespace Turn

variable {t t' : Turn} {others : List Process}

/-- Who is ready after a turn: those that were, or beside them a process that was just taken up. -/
inductive Adds (t t' : Turn) : Prop
  | none (hready : t'.kernel.ready = t.kernel.ready)
  | one {name : String} {args : List String} {pid : Pid} {k : Kernel}
      (hspawn : Kernel.spawn name args t.kernel = .ok pid k) (hready : t'.kernel.ready = k.ready)
      (hmemory : t'.kernel.machine.memory = k.machine.memory)

theorem Adds.congr {u : Turn} (h : Adds t t') (hready : u.kernel.ready = t'.kernel.ready)
    (hmemory : u.kernel.machine.memory = t'.kernel.machine.memory) : Adds t u := by
  cases h with
  | none hsame => exact .none (hready.trans hsame)
  | one hspawn hmore hsame => exact .one hspawn (hready.trans hmore) (hmemory.trans hsame)

private theorem ensures_exec_adds (hs : t.Sound others) (q : CallRequest) : Ensures (exec q) t
    (fun _ t' => Adds t t') fun _ t' => t'.kernel.ready = t.kernel.ready := by
  have harguments := finds_execArguments hs.framed q
  have hexec := ensures_exec_gainsChild hs q
  apply ensures_intro
  · intro n t' hx
    have hadds : Ensures (exec q) t (fun _ t' => Adds t t') fun _ _ => True := by
      unfold exec
      rw [ensures_bind]
      apply ensures_intro
      · rintro ⟨name, args⟩ t₁ hpassed
        obtain ⟨⟨seen, rfl⟩, -, -⟩ := harguments.of_ok hpassed
        dsimp only
        rw [ensures_bind, onKernel, ensures_zoom]
        exact ensures_intro (fun pid k hspawn => .one hspawn rfl rfl) fun _ _ _ => trivial
      · exact fun _ _ _ => trivial
    exact hadds.of_ok hx
  · intro stop t' hx
    exact (hexec.of_error hx).2.ready

private theorem ensures_serve_adds (hs : t.Sound others) (call : CallNumber) (q : CallRequest) :
    Ensures (serve call q) t (fun _ t' => Adds t t')
      fun _ t' => t'.kernel.ready = t.kernel.ready := by
  by_cases hexec : call = .exec
  · subst hexec
    exact ensures_exec_adds hs q
  · apply (alwaysSparesReady_serve hexec q others t hs).mono
    · exact fun _ _ h => .none h.same
    · exact fun _ _ h => h.same

private theorem ensures_syscall_adds (hs : t.Sound others) : Ensures syscall t
    (fun _ t' => Adds t t') fun _ t' => t'.kernel.ready = t.kernel.ready := by
  unfold syscall
  rw [ensures_bind, ensures_get]
  dsimp only
  cases CallNumber.decode t.self.registers.request.number with
  | error e =>
    have hreport := left_report hs (.unknownCall t.self.pid t.self.registers.request.number)
    rw [ensures_bind, report, modifyKernel, ensures_modify]
    apply (alwaysSparesReady_exit none others _ hreport.sound).mono
    · exact fun _ _ h => .none h.same
    · exact fun _ _ h => h.same
  | ok call =>
    rw [ensures_bind, ensures_attempt]
    apply (ensures_serve_adds hs call _).mono
    · intro n t' h
      exact h.congr rfl rfl
    · rintro (e | code | _ | f) t' hready
      · exact .none hready
      · exact hready
      · exact hready
      · exact hready

/-- A program adds a process by an exec that succeeds, and by nothing else. -/
theorem ensures_run_adds (hs : t.Sound others) (m : Move) : Ensures m.run t
    (fun _ t' => Adds t t') fun _ t' => t'.kernel.ready = t.kernel.ready := by
  cases m with
  | compute registers => exact .none rfl
  | call => exact Move.ensures_call (fun _ => rfl) (ensures_syscall_adds hs)
  | load address length =>
    apply (alwaysSparesReady_loadBytes address length others t hs).bind
    · exact fun _ _ h => .none h.same
    · exact fun _ _ h => h.same
  | store address data =>
    apply (alwaysSparesReady_storeBytes address data others t hs).mono
    · exact fun _ _ h => .none h.same
    · exact fun _ _ h => h.same
  | raise cause =>
    apply (alwaysSparesReady_exception cause others t hs).mono
    · exact fun _ _ h => .none h.same
    · exact fun _ _ h => h.same
  | leave =>
    apply (alwaysSparesReady_exit none others t hs).mono
    · exact fun _ _ h => .none h.same
    · exact fun _ _ h => h.same
  | die f => exact rfl

end Turn

theorem Kernel.spawn_eq_ok {k k' : Kernel} {name : String} {args : List String} {pid : Pid}
    (h : spawn name args k = .ok pid k') : ∃ (p : Process) (r : Registers) (machine : Machine),
      Loader.load name args k.machine = .ok (p.table, r) machine ∧ k'.ready = k.ready ++ [p] ∧
      k'.machine.memory = machine.memory := by
  unfold spawn at h
  rcases hload : Loader.load name args k.machine with ⟨⟨table, r⟩, machine⟩ | ⟨e, machine⟩
  · simp only [hload] at h
    split at h
    · split at h
      · cases h
        exact ⟨_, r, machine, rfl, rfl, rfl⟩
      · cases h
    · cases h
  · simp only [hload] at h
    cases e <;> cases h

namespace World

open Turn

variable {allowed : Move → Prop} {w w' : World} {before after : List Process} {p : Process}
variable {m : Move} {log log' : List Passage} {mapped loaded : UserMemory}

/-- A step that is none of a process's own: another one moves or starts, or the host does something. -/
inductive OthersStep (p : Process) (w : World) : World → Prop
  | spawned {name : String} {args : List String} {pid : Pid} {k : Kernel} (hp : p ∈ w.processes)
      (hspawn : Kernel.spawn name args w.kernel = .ok pid k) : OthersStep p w ⟨k, w.running⟩
  | notSpawned {name : String} {args : List String} {stop : Stop Errno} {k : Kernel}
      (hp : p ∈ w.processes) (hspawn : Kernel.spawn name args w.kernel = .error stop k) :
      OthersStep p w ⟨k, w.running⟩
  | started {ordinal : Nat} {q : Process} {k : Kernel} (hp : p ∈ w.running ++ k.ready)
      (hready : w.kernel.takeReady? ordinal = some (q, k)) :
      OthersStep p w ⟨k, { q with phase := .running } :: w.running⟩
  | acted {before after : List Process} {q : Process} {m : Move} {w' : World}
      (hp : p ∈ before ++ after ++ w.kernel.ready) (hacts : w.Acts before q after m w') :
      OthersStep p w w'
  | changed (hp : p ∈ w.processes) (devices : Devices) :
      OthersStep p w ⟨{ w.kernel with machine := { w.kernel.machine with devices } }, w.running⟩

private theorem OthersStep.step (h : OthersStep p w w') : Step (fun _ => True) w w' := by
  cases h with
  | spawned hp hspawn => exact .spawned hspawn
  | notSpawned hp hspawn => exact .notSpawned hspawn
  | started hp hready => exact .started hready
  | acted hp hacts => exact .acted trivial hacts
  | changed hp devices => exact .changed devices

private theorem unchanged_of_grown {k : Kernel} (hw : w.kernel.Sound w.running)
    (hgrown : Kernel.Grown w.running w.kernel k) (hp : p ∈ w.processes) :
    p ∈ processes ⟨k, w.running⟩ ∧ ∀ a, byte? ⟨k, w.running⟩ p a = w.byte? p a := by
  constructor
  · exact List.mem_append.2 ((List.mem_append.1 hp).imp_right fun h => hgrown.ready.subset h)
  · intro a
    apply UserMemory.byte?_congr
    · rfl
    · exact fun f hf => hgrown.foreign f (hw.not_free hp hf)

private theorem OthersStep.unchanged (hw : w.kernel.Sound w.running) (h : OthersStep p w w') :
    p ∈ w'.processes ∧ ∀ a, w'.byte? p a = w.byte? p a := by
  cases h with
  | spawned hp hspawn =>
    exact unchanged_of_grown hw ((Kernel.ensures_spawn hw _ _).of_ok hspawn).1 hp
  | notSpawned hp hspawn =>
    exact unchanged_of_grown hw ((Kernel.ensures_spawn hw _ _).of_error hspawn).1 hp
  | started hp hready =>
    obtain ⟨found, -, heq⟩ := Option.map_eq_some_iff.1 hready
    cases heq
    exact ⟨List.mem_cons_of_mem _ hp, fun _ => rfl⟩
  | acted hp hacts => exact hacts.unchanged hw p hp
  | changed hp devices => exact ⟨hp, fun _ => rfl⟩

/-- What becomes of a process from its load on, up to the world `w`: the passages that were made to its
pages, from those that wrote its arguments on. The memory `mapped` has its pages before that, and
`loaded` when the load was over. -/
inductive Life (mapped loaded : UserMemory) : World → Process → List Passage → Prop
  /-- The process has the pages that a load gave it. -/
  | born {w : World} {p : Process} {machine : Machine} {name : String} {args : List String}
      {log : List Passage} (hw : w.kernel.Sound w.running) (hp : p ∈ w.processes)
      (hloads : Loader.Loads machine name args mapped log loaded) (htable : p.table = loaded.table)
      (hframes : ∀ f ∈ p.table.mapped,
        w.kernel.machine.memory.frame? f = loaded.memory.frame? f) : Life mapped loaded w p log
  /-- It makes a move, and goes on. -/
  | moved {w : World} {before after : List Process} {p : Process} {m : Move} {t : Turn}
      {log log' : List Passage} (h : Life mapped loaded w p log)
      (hw : w.running = before ++ p :: after) (hmakes : Turn.Makes m.run ⟨w.kernel, p⟩ log')
      (hrun : m.run ⟨w.kernel, p⟩ = .ok ⟨⟩ t) :
      Life mapped loaded ⟨t.kernel, before ++ t.self :: after⟩ t.self (log ++ log')
  /-- The kernel works on its memory, whatever comes of it. -/
  | copied {w : World} {before after : List Process} {p : Process} {α : Type}
      {x : EStateM (Stop Errno) UserMemory α} {t : Turn} {log log' : List Passage}
      (h : Life mapped loaded w p log) (hw : w.running = before ++ p :: after)
      (hmakes : UserMemory.Makes x (w.memory p) log')
      (ht : t = Turn.withMemory ⟨w.kernel, p⟩ (reached x (w.memory p))) :
      Life mapped loaded ⟨t.kernel, before ++ t.self :: after⟩ t.self (log ++ log')
  /-- It is given the processor. -/
  | started {w : World} {ordinal : Nat} {p : Process} {k : Kernel} {log : List Passage}
      (h : Life mapped loaded w p log) (hready : w.kernel.takeReady? ordinal = some (p, k)) :
      Life mapped loaded ⟨k, { p with phase := .running } :: w.running⟩
        { p with phase := .running } log
  /-- Something happens beside it. -/
  | othersStep {w w' : World} {p : Process} {log : List Passage} (h : Life mapped loaded w p log)
      (hothers : OthersStep p w w') : Life mapped loaded w' p log

/-- What holds of a process all its life: its pages are what the passages have made of them. -/
structure Lived (mapped loaded : UserMemory) (w : World) (p : Process) (log : List Passage) :
    Prop where
  sound : w.kernel.Sound w.running
  mem : p ∈ w.processes
  unused : mapped.table.Unused
  passed : Passed log mapped (w.memory p)
  first : ∃ log₀, log₀ <+: log ∧ Passed log₀ mapped loaded

private theorem passed_of_bytes {m : UserMemory} {table : PageTable} {memory memory' : Memory}
    (h : Passed log m ⟨table, memory⟩)
    (hbytes : ∀ a, (⟨table, memory'⟩ : UserMemory).byte? a =
      (⟨table, memory⟩ : UserMemory).byte? a) : Passed log m ⟨table, memory'⟩ :=
  ⟨h.entry, fun hn a => by rw [hbytes, h.byte hn], h.through⟩

private theorem Lived.goesOn {t : Turn} (h : Lived mapped loaded w p log)
    (hw : w.running = before ++ p :: after)
    (hpassed : Turn.Sound ⟨w.kernel, p⟩ (before ++ after) →
      Turn.Passed (before ++ after) log' ⟨w.kernel, p⟩ t) :
    Lived mapped loaded ⟨t.kernel, before ++ t.self :: after⟩ t.self (log ++ log') := by
  obtain ⟨hs, hmemory⟩ := hpassed (sound_turn h.sound hw)
  obtain ⟨log₀, hearlier, hfirst⟩ := h.first
  refine ⟨sound_of_turn hs, ?_, h.unused, h.passed.trans hmemory, log₀, ?_, hfirst⟩
  · exact List.mem_append_left _ (List.mem_append_right _ (List.mem_cons_self ..))
  · exact hearlier.trans (List.prefix_append ..)

theorem Life.lived (h : Life mapped loaded w p log) : Lived mapped loaded w p log := by
  induction h with
  | @born w p machine name args log hw hp hloads htable hframes =>
    obtain ⟨hunused, hpassed⟩ := hloads.passed
    refine ⟨hw, hp, hunused, ?_, log, List.prefix_rfl, hpassed⟩
    have hmemory : loaded = ⟨p.table, loaded.memory⟩ := by rw [htable]
    rw [hmemory] at hpassed
    apply passed_of_bytes hpassed
    intro a
    apply UserMemory.byte?_congr
    · rfl
    · exact hframes
  | moved _ hw hmakes hrun ih =>
    apply ih.goesOn hw
    intro hs
    exact (hmakes.passed hs).of_ok hrun
  | copied _ hw hmakes ht ih =>
    subst ht
    apply ih.goesOn hw
    intro hs
    exact passed_onMemory hs hmakes
  | @started w ordinal p k log _ hready ih =>
    have hsound := ih.sound.start hready
    obtain ⟨found, -, heq⟩ := Option.map_eq_some_iff.1 hready
    cases heq
    exact ⟨hsound, List.mem_cons_self .., ih.unused, ih.passed, ih.first⟩
  | othersStep _ hothers ih =>
    obtain ⟨hmem, hbytes⟩ := hothers.unchanged ih.sound
    exact ⟨hothers.step.sound ih.sound, hmem, ih.unused, passed_of_bytes ih.passed hbytes, ih.first⟩

end World

end PagedKernel

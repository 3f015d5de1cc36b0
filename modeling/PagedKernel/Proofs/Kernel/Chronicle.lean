import PagedKernel.Proofs.Kernel.Consistency
import PagedKernel.Proofs.Kernel.RecordsMatch

/-!
# Chronicles

A chronicle tells what has become of processes since the root was created. With it, the records of
the kernel are known at any time: they are those of the root and of the children that nobody has
joined yet.
-/

namespace PagedKernel

theorem stranded_append (history happened : List Happening) :
    stranded (history ++ happened) = stranded history ++ stranded happened :=
  List.filterMap_append ..

namespace World

variable {allowed : Move → Prop} {history : List Happening} {w w' : World}
variable {before after : List Process} {p : Process} {m : Move} {happened : List Happening}

/-- The worlds that a machine gets to once its root was created, and what has become of processes by
then, the oldest first. -/
inductive Chronicle (allowed : Move → Prop) : List Happening → World → Prop
  | begins {config : Config} {devices : Devices} {name : String} {args : List String} {pid : Pid}
      {k : Kernel} (hspawn : Kernel.spawn name args (.boot config devices) = .ok pid k) :
      Chronicle allowed [] ⟨k, []⟩
  | started {history : List Happening} {w : World} {ordinal : Nat} {p : Process} {k : Kernel}
      (h : Chronicle allowed history w) (hready : w.kernel.takeReady? ordinal = some (p, k)) :
      Chronicle allowed history ⟨k, { p with phase := .running } :: w.running⟩
  | acted {history : List Happening} {w w' : World} {before after : List Process} {p : Process}
      {m : Move} (h : Chronicle allowed history w) (hallowed : allowed m)
      (hacts : w.Acts before p after m w') :
      Chronicle allowed (history ++ m.tells ⟨w.kernel, p⟩) w'
  | changed {history : List Happening} {w : World} (h : Chronicle allowed history w)
      (devices : Devices) : Chronicle allowed history
        ⟨{ w.kernel with machine := { w.kernel.machine with devices } }, w.running⟩

theorem Chronicle.reachable (h : Chronicle allowed history w) : Reachable allowed w := by
  induction h with
  | begins hspawn => exact (Reachable.boot _ _).step (.spawned hspawn)
  | started h hready ih => exact ih.step (.started hready)
  | acted h hallowed hacts ih => exact ih.step (.acted hallowed hacts)
  | changed h devices ih => exact ih.step (.changed devices)

/-- The processes that have not exited, those left behind among them. -/
def unexited (w : World) (history : List Happening) : List Process :=
  stranded history ++ w.processes

theorem unexited_perm (hrunning : w.running = before ++ p :: after) (history : List Happening) :
    (w.unexited history).Perm
      (p :: (stranded history ++ (before ++ after) ++ w.kernel.ready)) := by
  rw [List.append_assoc]
  exact ((processes_perm hrunning).append_left _).trans List.perm_middle

theorem unexited_goesOn {t : Turn} (hdoes : Turn.Does ⟨w.kernel, p⟩ happened t)
    (before after : List Process) (history : List Happening) :
    (t.self :: (stranded history ++ (before ++ after) ++ t.kernel.ready)).Perm
      (unexited ⟨t.kernel, before ++ t.self :: after⟩ (history ++ happened)) := by
  have hperm := unexited_perm (w := ⟨t.kernel, before ++ t.self :: after⟩) rfl
    (history ++ happened)
  rw [stranded_append, hdoes.stranded_eq, List.append_nil] at hperm
  exact hperm.symm

theorem unexited_ends (k : Kernel) (others : List Process) (history happened : List Happening) :
    (stranded happened ++ (stranded history ++ others ++ k.ready)).Perm
      (unexited ⟨k, others⟩ (history ++ happened)) := by
  rw [unexited, stranded_append, List.append_assoc (stranded history), ← List.append_assoc]
  exact List.perm_append_comm.append_right _

private theorem MoveOutcome.recordsMatch (hrunning : w.running = before ++ p :: after)
    (h : w.kernel.RecordsMatch (w.unexited history))
    (houtcome : w.MoveOutcome before p after m happened w')
    (hfew : w'.kernel.nextOrdinal ≤ 2 ^ 31) :
    w'.kernel.RecordsMatch (w'.unexited (history ++ happened)) := by
  have hmatch := h.perm (unexited_perm hrunning history)
  cases houtcome with
  | goesOn hspares hdoes =>
    exact (hdoes.recordsMatch hfew hmatch).perm (unexited_goesOn hdoes before after history)
  | waits =>
    rw [List.append_nil]
    exact h
  | ends hspares hstop hceases =>
    exact (hceases.recordsMatch hstop (hspares.sound.buries _) hfew hmatch).perm (unexited_ends ..)

private theorem recordsMatch_root {config : Config} {devices : Devices} {name : String}
    {args : List String}
    {pid : Pid} {k : Kernel} (hspawn : Kernel.spawn name args (.boot config devices) = .ok pid k) :
    k.RecordsMatch (unexited ⟨k, []⟩ []) := by
  obtain ⟨-, -, root, hroot⟩ :=
    (Kernel.ensures_spawn (Kernel.Sound.boot config devices) name args).of_ok hspawn
  have hfamily : unexited ⟨k, []⟩ [] = [root] := hroot.ready
  have hkeys : k.records.keys = [.root] := by
    obtain ⟨name, hrecords⟩ := hroot.records
    rw [hrecords]
    rfl
  rw [hfamily]
  refine ⟨?_, ?_, fun e he => ?_, List.pairwise_singleton .., ?_, ?_⟩
  · rw [hkeys, offspring_cons, hroot.children]
    exact .refl _
  · rw [hkeys]
    exact List.pairwise_singleton ..
  · rcases hroot.mem_records he with ⟨hpid, hself, -⟩ | ⟨-, hold⟩
    · rw [hpid, hself]
      exact ⟨hroot.named, hroot.ordinal_lt⟩
    · cases hold
  · exact List.forall_mem_singleton.2 ⟨hroot.named, hroot.ordinal_lt⟩
  · rw [List.forall_mem_singleton, hroot.children]
    exact nofun

theorem unexited_started {ordinal : Nat} {k : Kernel} (hb : w.kernel.ConsistentWith w.processes)
    (hready : w.kernel.takeReady? ordinal = some (p, k)) (history : List Happening) :
    (w.unexited history).Perm (p :: (stranded history ++ (w.running ++ k.ready))) := by
  obtain ⟨-, hperm, -⟩ := processes_started hb.distinct hready
  exact (hperm.append_left _).trans List.perm_middle

private theorem recordsMatch_started {ordinal : Nat} {k : Kernel}
    (hb : w.kernel.ConsistentWith w.processes)
    (h : w.kernel.RecordsMatch (w.unexited history))
    (hready : w.kernel.takeReady? ordinal = some (p, k)) :
    k.RecordsMatch (unexited ⟨k, { p with phase := .running } :: w.running⟩ history) := by
  obtain ⟨-, -, hk⟩ := processes_started hb.distinct hready
  have hmoved : w.kernel.RecordsMatch ({ p with phase := .running } :: _) :=
    (h.perm (unexited_started hb hready history)).replace rfl rfl rfl
  rw [hk]
  exact (hmoved.perm List.perm_middle.symm).congr rfl (Nat.le_refl _)

theorem Chronicle.recordsMatch (h : Chronicle allowed history w)
    (hfew : w.kernel.nextOrdinal ≤ 2 ^ 31) :
    w.kernel.RecordsMatch (w.unexited history) := by
  induction h with
  | begins hspawn => exact recordsMatch_root hspawn
  | @started history w ordinal p k h hready ih =>
    obtain ⟨-, -, hk⟩ := processes_started h.reachable.consistentWith.distinct hready
    have hsame : k.nextOrdinal = w.kernel.nextOrdinal := by rw [hk]
    exact recordsMatch_started h.reachable.consistentWith (ih (hsame ▸ hfew)) hready
  | acted h hallowed hacts ih =>
    have houtcome := hacts.moveOutcome h.reachable.sound
    exact houtcome.recordsMatch hacts.running_eq
      (ih (Nat.le_trans houtcome.addsReadyLast.nextOrdinal hfew)) hfew
  | changed h devices ih => exact (ih hfew).congr rfl (Nat.le_refl _)

/-- What a chronicle can go on with: a process gets the processor, or the one on top moves. -/
inductive Cue where
  | start (ordinal : Nat)
  | move (m : Move)

namespace Cue

def play (w : World) : Cue → List Happening × World
  | start ordinal =>
    match w.kernel.takeReady? ordinal with
    | some (p, k) => ([], ⟨k, { p with phase := .running } :: w.running⟩)
    | none => ([], w)
  | move m =>
    match w.running with
    | [] => ([], w)
    | p :: after => (m.tells ⟨w.kernel, p⟩,
      match m.run ⟨w.kernel, p⟩ with
      | .ok _ t => ⟨t.kernel, t.self :: after⟩
      | .error .waiting _ => w
      | .error stop t => ⟨t.bury stop, after⟩)

def issue (q : CallRequest) : List Cue :=
  [move (.compute (Registers.cleared.withRequest q)), move .call]

end Cue

theorem Cue.play_cases (c : Cue) (w : World) : c.play w = ([], w) ∨
    (∃ ordinal p k, w.kernel.takeReady? ordinal = some (p, k) ∧
      c.play w = ([], ⟨k, { p with phase := .running } :: w.running⟩)) ∨
    ∃ m p after, c = .move m ∧ (c.play w).1 = m.tells ⟨w.kernel, p⟩ ∧
      w.Acts [] p after m (c.play w).2 := by
  cases c with
  | start ordinal =>
    simp only [Cue.play]
    split
    · next p k hready => exact .inr (.inl ⟨ordinal, p, k, hready, rfl⟩)
    · exact .inl rfl
  | move m =>
    simp only [Cue.play]
    split
    · exact .inl rfl
    · next p after hrunning =>
      have hsplit : w.running = [] ++ p :: after := hrunning
      refine .inr (.inr ⟨m, p, after, rfl, rfl, ?_⟩)
      split
      · next t hrun => exact .goesOn hsplit hrun
      · next t hrun => exact .waits hsplit hrun
      · next stop t hwaits hrun => exact .stops hsplit hrun hwaits

theorem Chronicle.play (h : Chronicle allowed history w) {c : Cue}
    (hallowed : ∀ m, c = .move m → allowed m) :
    Chronicle allowed (history ++ (c.play w).1) (c.play w).2 := by
  rcases c.play_cases w with hplay | ⟨ordinal, p, k, hready, hplay⟩ | ⟨m, p, after, hm, htells, hacts⟩
  · rw [hplay, List.append_nil]
    exact h
  · rw [hplay, List.append_nil]
    exact h.started hready
  · rw [htells]
    exact h.acted (hallowed m hm) hacts

def story (w : World) (cues : List Cue) : List Happening × World :=
  cues.foldl (fun told c => (told.1 ++ (c.play told.2).1, (c.play told.2).2)) ([], w)

theorem story_induction {holds : List Happening → World → Prop} (h : holds [] w) {cues : List Cue}
    (hplay : ∀ c ∈ cues, ∀ history w, holds history w →
      holds (history ++ (c.play w).1) (c.play w).2) :
    holds (story w cues).1 (story w cues).2 := by
  unfold story
  generalize ([] : List Happening) = history at h ⊢
  induction cues generalizing history w with
  | nil => exact h
  | cons c cues ih =>
    obtain ⟨hfirst, hrest⟩ := List.forall_mem_cons.1 hplay
    exact ih hrest _ (hfirst history w h)

theorem chronicle_story (h : Chronicle allowed [] w) {cues : List Cue}
    (hallowed : ∀ m, .move m ∈ cues → allowed m) :
    Chronicle allowed (story w cues).1 (story w cues).2 :=
  story_induction h fun _ hc _ _ h => h.play fun m hm => hallowed m (hm ▸ hc)

theorem spawn_of_ready {config : Config} {devices : Devices} {name : String} {args : List String}
    (hready : (tried name args (.boot config devices)).ready.length = 1) :
    ∃ pid, Kernel.spawn name args (.boot config devices) =
      .ok pid (tried name args (.boot config devices)) := by
  unfold tried at hready ⊢
  split
  · next pid k hspawn => exact ⟨pid, hspawn⟩
  · next stop k hspawn =>
    rw [hspawn] at hready
    obtain ⟨-, habides, -⟩ := (Kernel.ensures_spawn (Kernel.Sound.boot _ _) _ _).of_error hspawn
    simp [habides.ready, Kernel.boot] at hready

/-- A root that was just created. The only file has no name: a process that has not written anything
can name it, with the zeros of its stack. -/
def sampleRoot : World :=
  ⟨tried "" [] (.boot { physPages := 10, stackPages := 1 }
    { files := ({} : FileSystem).insert "" Loader.sampleImage }), []⟩

theorem chronicle_sampleRoot : Chronicle allowed [] sampleRoot := by
  have hready : sampleRoot.kernel.ready.length = 1 := by decide +kernel
  obtain ⟨pid, hspawn⟩ := spawn_of_ready hready
  exact .begins hspawn

def sampleCues : List Cue :=
  .start 1 :: Cue.issue ⟨2, 8192, 0, 8192, 0⟩ ++ .start 2 :: Cue.issue ⟨1, 7, 0, 0, 0⟩

def sampleFamily : List Happening × World := story sampleRoot sampleCues

theorem chronicle_sampleFamily : Chronicle Move.Tame sampleFamily.1 sampleFamily.2 := by
  apply chronicle_story chronicle_sampleRoot
  simp [sampleCues, Cue.issue, Move.Tame]

theorem exists_sampleFamily : ∃ p, sampleFamily.2.running = [p] ∧ p.children = [⟨2⟩] := by
  have hchildren : sampleFamily.2.running.map (·.children) = [[⟨2⟩]] := by decide +kernel
  exact List.map_eq_singleton_iff.1 hchildren

end World

end PagedKernel

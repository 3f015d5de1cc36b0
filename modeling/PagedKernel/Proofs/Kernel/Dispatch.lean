import PagedKernel.Kernel.Dispatch
import PagedKernel.Proofs.Kernel.Ends

/-!
# Serving system calls

Every call is answered, or it ends the process, or it waits for a child. No call breaks a rule of the
kernel; a join alone takes over a fault, from a child that died of it.
-/

namespace PagedKernel

open Turn in
/-- The bytes of a process that a call can change, by what it is answered. -/
def CallNumber.Touches (call : CallNumber) (q : CallRequest) (result : Except Errno Nat) (a : Nat) :
    Prop :=
  match call with
  | .read => InBuffer q.arg2 q.arg3.toInt a
  | .join => result = .ok 1 ∧ InBuffer q.arg2 4 a
  | _ => False

/-- What is seen to happen in a call that is answered: an exec that returns a number has created a
process. -/
def CallNumber.tells (call : CallNumber) (q : CallRequest) (t : Turn) (result : Except Errno Nat)
    (t' : Turn) : List Happening :=
  match call, result with
  | .exec, .ok _ => [.created t.self.ordinal t.kernel.nextOrdinal]
  | .exec, .error _ => Turn.execTells t t'
  | .join, result => Turn.joinTells q t result
  | _, _ => []

def CallNumber.tellsLast (call : CallNumber) (q : CallRequest) (t t' : Turn) :
    Stop Errno → List Happening
  | .ended _ => if call = .halt then [.halted t.self] else [.exited t.self.ordinal (some q.arg1)]
  | .fault _ => Turn.reapTells q t ++ [.lost t'.self]
  | .refused _ | .waiting => []

namespace Turn

variable {α : Type} {t t' t'' : Turn} {others : List Process} {touched : Nat → Prop}
variable {call : CallNumber} {q : CallRequest} {result : Except Errno Nat}

/-- What a call comes to that is answered. -/
structure Answered (others : List Process) (call : CallNumber) (q : CallRequest)
    (result : Except Errno Nat) (t t' : Turn) : Prop where
  served : Served others (call.Touches q result) t t'
  does : t.Does (call.tells q t result t') t'
  value : t.kernel.nextOrdinal < wordLimit → ∀ n, result = .ok n → n < wordLimit

/-- What a call comes to that is not answered. -/
inductive Unanswered (others : List Process) (call : CallNumber) (q : CallRequest) (t t' : Turn) :
    Stop Errno → Prop
  | ended (code : Int32) (hcall : call = .exit ∨ call = .halt ∧ t.self.pid = .root)
      (hleft : Left others t t')
      (hceases : t.Ceases (.ended code) (call.tellsLast q t t' (.ended code)) t') :
      Unanswered others call q t t' (.ended code)
  | waiting (hcall : call = .join) (hawaits : t.Awaits others ⟨q.arg1⟩)
      (hserved : Served others untouched t t') : Unanswered others call q t t' .waiting
  | fault (f : Fault) (hcall : call = .join)
      (hdied : ∃ e ∈ t.kernel.records, e.2.outcome = some (.died f))
      (hserved : Served others untouched t t')
      (hdoes : t.Does (reapTells q t) t') :
      Unanswered others call q t t' (.fault f)

private theorem Unanswered.ceases {stop : Stop Errno} (h : Unanswered others call q t t' stop) :
    t.Ceases stop (call.tellsLast q t t' stop) t' := by
  cases h with
  | ended code hcall hleft hceases => exact hceases
  | waiting hcall hawaits hserved => exact .waits
  | fault f hcall hdied hserved hdoes => exact .dies f hdoes

private theorem answered_of_serves {x : Call Nat} (hs : t.Sound others)
    (hx : Serves others touched x (· < wordLimit))
    (ht : ∀ result a, touched a → call.Touches q result a)
    (htells : ∀ result t', call.tells q t result t' = []) :
    Ensures (attempt x) t (fun result t' => Answered others call q result t t')
      (fun stop t' => Unanswered others call q t t' stop) := by
  rw [ensures_attempt]
  apply (hx t hs).mono
  · rintro n t' ⟨hstays, hn⟩
    refine ⟨(hstays.keeps.served hs).mono (ht _), htells _ _ ▸ .works hstays.works, ?_⟩
    intro _ m hm
    cases hm
    exact hn
  · rintro stop t' ⟨hstays, e, rfl⟩
    refine ⟨(hstays.keeps.served hs).mono (ht _), htells _ _ ▸ .works hstays.works, ?_⟩
    intro _ m hm
    cases hm

private theorem answered_of_untouched {x : Call Nat} (hs : t.Sound others)
    (hx : Serves others untouched x (· < wordLimit))
    (htells : ∀ result t', call.tells q t result t' = []) :
    Ensures (attempt x) t (fun result t' => Answered others call q result t t')
      (fun stop t' => Unanswered others call q t t' stop) :=
  answered_of_serves hs hx (fun _ _ h => h.elim) htells

private theorem answered_halt (hs : t.Sound others) :
    Ensures (attempt halt) t (fun result t' => Answered others .halt q result t t')
      (fun stop t' => Unanswered others .halt q t t' stop) := by
  rw [ensures_attempt]
  apply (ensures_halt hs).mono
  · rintro n t' ⟨-, rfl, hkeeps, hworks⟩
    refine ⟨(hkeeps.served hs).mono fun _ h => h.elim, .works hworks, ?_⟩
    intro _ m hm
    cases hm
    decide
  · rintro stop t' ⟨hleft, rfl, hhalts⟩
    exact .ended 0 (.inr ⟨rfl, hhalts.root⟩) hleft (.halts hhalts)

private theorem answered_exit (hs : t.Sound others) :
    Ensures (attempt (exit (some q.arg1))) t (fun result t' => Answered others .exit q result t t')
      (fun stop t' => Unanswered others .exit q t t' stop) := by
  rw [ensures_attempt]
  apply (ensures_exit hs (some q.arg1)).mono
  · intro n t' h
    exact h.elim
  · rintro stop t' ⟨hleft, rfl, hexits⟩
    exact .ended q.arg1 (.inl rfl) hleft (.exits hexits)

private theorem answered_exec (hs : t.Sound others) :
    Ensures (attempt (exec q)) t (fun result t' => Answered others .exec q result t t')
      (fun stop t' => Unanswered others .exec q t t' stop) := by
  rw [ensures_attempt]
  apply (ensures_exec hs q).mono
  · rintro n t' ⟨hserved, rfl, hdoes⟩
    refine ⟨hserved.mono fun _ h => h.elim, hdoes, ?_⟩
    intro hlimit m hm
    cases hm
    rwa [Kernel.nextPid, Pid.toNat_nth hlimit]
  · rintro stop t' ⟨hserved, ⟨e, rfl⟩, hdoes⟩
    refine ⟨hserved.mono fun _ h => h.elim, hdoes, ?_⟩
    intro _ m hm
    cases hm

private theorem answered_join (hs : t.Sound others) :
    Ensures (attempt (join q)) t (fun result t' => Answered others .join q result t t')
      (fun stop t' => Unanswered others .join q t t' stop) := by
  rw [ensures_attempt]
  apply (ensures_join hs q).mono
  · rintro n t' ⟨hserved, hn, hdoes⟩
    refine ⟨hserved.mono ?_, hdoes, ?_⟩
    · rintro a ⟨rfl, ha⟩
      exact ⟨rfl, ha⟩
    · intro _ m hm
      cases hm
      exact hn
  · rintro stop t' ⟨hserved, ⟨e, rfl, hdoes⟩ | ⟨rfl, hawaits⟩ | ⟨e, he, f, hdied, rfl, hdoes⟩⟩
    · refine ⟨hserved.mono fun _ h => h.elim, hdoes, ?_⟩
      intro _ m hm
      cases hm
    · exact .waiting rfl hawaits hserved
    · exact .fault f rfl ⟨e, he, hdied⟩ hserved hdoes

private theorem answered_serve (hs : t.Sound others) (call : CallNumber) (q : CallRequest) :
    Ensures (attempt (serve call q)) t (fun result t' => Answered others call q result t t')
      (fun stop t' => Unanswered others call q t t' stop) := by
  cases call with
  | halt => exact answered_halt hs
  | exit => exact answered_exit hs
  | exec => exact answered_exec hs
  | join => exact answered_join hs
  | create => exact answered_of_untouched hs (serves_openNamed true q) fun _ _ => rfl
  | openFile => exact answered_of_untouched hs (serves_openNamed false q) fun _ _ => rfl
  | read => exact answered_of_serves hs (serves_readCall q) (fun _ _ h => h) fun _ _ => rfl
  | write => exact answered_of_untouched hs (serves_writeCall q) fun _ _ => rfl
  | close => exact answered_of_untouched hs (serves_closeCall q) fun _ _ => rfl
  | unlink => exact answered_of_untouched hs (serves_unlinkCall q) fun _ _ => rfl

/-- The kernel served a call, and left the answer in the registers of the process. -/
def Resumes (others : List Process) (t t' : Turn) : Prop := ∃ call result t₁,
  CallNumber.decode t.self.registers.request.number = .ok call ∧
  attempt (serve call t.self.registers.request) t = .ok result t₁ ∧
  Answered others call t.self.registers.request result t t₁ ∧
  t₁.kernel.SameProcesses t'.kernel ∧
  t'.self = { t₁.self with registers := t₁.self.registers.answer result }

/-- The kernel did not return to the process. -/
def Withdraws (others : List Process) (t t' : Turn) (stop : Stop Errno) : Prop :=
  (∃ e, CallNumber.decode t.self.registers.request.number = .error e ∧ Left others t t' ∧
    ∃ code, stop = .ended code) ∨
  ∃ call, CallNumber.decode t.self.registers.request.number = .ok call ∧
    Unanswered others call t.self.registers.request t t' stop

def tellsCall (t : Turn) : List Happening :=
  let q := t.self.registers.request
  match CallNumber.decode q.number with
  | .error _ => [.exited t.self.ordinal none]
  | .ok call =>
    match attempt (serve call q) t with
    | .ok result t' => call.tells q t result t'
    | .error stop t' => call.tellsLast q t t' stop

theorem ensures_syscall_tells (hs : t.Sound others) : Ensures syscall t
    (fun _ t' => Resumes others t t' ∧ t.Does t.tellsCall t')
    (fun stop t' => Withdraws others t t' stop ∧ t.Ceases stop t.tellsCall t') := by
  unfold syscall tellsCall
  rw [ensures_bind, ensures_get]
  dsimp only
  cases hdecode : CallNumber.decode t.self.registers.request.number with
  | error e =>
    apply (ensures_report_exit hs _).mono
    · exact fun _ _ h => h.elim
    · rintro stop t' ⟨hleft, rfl, hexits⟩
      exact ⟨Or.inl ⟨e, hdecode, hleft, _, rfl⟩, .exits hexits⟩
  | ok call =>
    dsimp only
    have hserve := answered_serve hs call t.self.registers.request
    rw [ensures_bind]
    apply ensures_intro
    · intro result t₁ hrun
      have hanswered := hserve.of_ok hrun
      have hresumes : ∀ k, t₁.kernel.SameProcesses k → Resumes others t ⟨k, _⟩ :=
        fun k hsameprocs => ⟨call, result, t₁, hdecode, hrun, hanswered, hsameprocs, rfl⟩
      have hanswer : ∀ k, Works ⟨k, t₁.self⟩ _ := fun k =>
        (worksOnMemory_registers ⟨k, t₁.self⟩ (t₁.self.registers.answer result)).toWorks
      simp only [hrun]
      cases result with
      | ok n => exact ⟨hresumes _ (Kernel.SameProcesses.refl _), hanswered.does.then (hanswer _)⟩
      | error e =>
        exact ⟨hresumes _ (Kernel.sameProcesses_report _ _),
          hanswered.does.then ((worksOnMemory_report t₁ _).toWorks.trans (hanswer _))⟩
    · intro stop t' hrun
      have hunanswered := hserve.of_error hrun
      simp only [hrun]
      exact ⟨Or.inr ⟨call, hdecode, hunanswered⟩, hunanswered.ceases⟩

theorem ensures_syscall (hs : t.Sound others) : Ensures syscall t
    (fun _ t' => Resumes others t t') (fun stop t' => Withdraws others t t' stop) :=
  (ensures_syscall_tells hs).mono (fun _ _ h => h.1) fun _ _ h => h.1

theorem Resumes.spares (h : Resumes others t t') : Spares others t t' := by
  obtain ⟨call, result, t₁, -, -, hanswered, hsameprocs, hself⟩ := h
  have hserved := hanswered.served
  have hleft : Left others t₁ t' := by
    apply left_of_sameProcesses hserved.sound hsameprocs
    · rw [hself]
    · rw [hself]
    · rw [hself]
    · rw [hself]
    · intro c hc
      rwa [hself] at hc
  exact hserved.toSpares.trans hleft.toSpares

theorem Withdraws.spares {stop : Stop Errno} (h : Withdraws others t t' stop) :
    Spares others t t' := by
  rcases h with ⟨-, -, hleft, -⟩ | ⟨call, -, hunanswered⟩
  · exact hleft.toSpares
  · cases hunanswered with
    | ended code hcall hleft hceases => exact hleft.toSpares
    | waiting hcall hawaits hserved => exact hserved.toSpares
    | fault f hcall hdied hserved hdoes => exact hserved.toSpares

/-- A call takes over the fault of a child that died, and finds none of its own. -/
theorem Withdraws.died {f : Fault} (h : Withdraws others t t' (.fault f)) :
    ∃ e ∈ t.kernel.records, e.2.outcome = some (.died f) := by
  rcases h with ⟨-, -, -, code, hcode⟩ | ⟨call, -, hunanswered⟩
  · cases hcode
  · cases hunanswered with
    | fault f hcall hdied hserved hdoes => exact hdied

end Turn

end PagedKernel

import PagedKernel.Proofs.Kernel.KeepingFiles
import PagedKernel.Proofs.Kernel.Wiring

/-!
# The streams of the console

What is typed is read in the order in which it was typed, by whichever process asks for it next, and
no byte is read twice. What is printed is what those writes passed that succeeded, each as a whole.
-/

namespace PagedKernel

/-- What passes the console: something is typed, or a call takes bytes and prints others. -/
inductive Traffic where
  | fed (data : Bytes)
  | moved (pid : Pid) (taken printed : Bytes)
deriving DecidableEq, Repr

namespace Traffic

def data : Traffic → Bytes
  | fed data => data
  | moved .. => []

def taken : Traffic → Bytes
  | fed _ => []
  | moved _ taken _ => taken

def printed : Traffic → Bytes
  | fed _ => []
  | moved _ _ printed => printed

end Traffic

namespace Turn

open Desk

variable {t t' : Turn} {others : List Process} {q : CallRequest}

def missing (t t' : Turn) : Bytes :=
  let input := t.kernel.machine.devices.console.input
  input.take (input.length - t'.kernel.machine.devices.console.input.length)

/-- The bytes that a call takes from the console, if it is a read from descriptor 0. -/
def takes (t : Turn) (call : CallNumber) (q : CallRequest) : Bytes :=
  if call = .read ∧ q.arg1 = 0 then t.missing (reached (serve call q) t) else []

/-- The buffer that a call passes for the console, if it is a write to descriptor 1 and succeeds. -/
def prints (t : Turn) (call : CallNumber) (q : CallRequest) : Bytes :=
  if call = .write ∧ q.arg1 = 1 ∧ (answer? (serve call q t)).isSome then
    t.memory.bytesAt q.arg2.toInt.toNat q.arg3.toInt.toNat
  else []

theorem missing_eq {taken printed : Bytes} (h : Carries taken printed t.desk t'.desk) :
    t.missing t' = taken := by
  have hinput : t.kernel.machine.devices.console.input =
      taken ++ t'.kernel.machine.devices.console.input := h.input
  rw [Turn.missing, hinput]
  simp

private theorem desk_halt (hs : t.Sound others) : Ensures halt t (fun _ t' => t'.desk = t.desk)
    (fun _ t' => t'.desk = t.desk.closeAll.2) := by
  apply ensures_intro
  · intro n t' hrun
    obtain ⟨hother, -⟩ := (ensures_halt hs).of_ok hrun
    have hsameprocs : Ensures halt t (fun _ t' => t'.desk = t.desk) (fun _ _ => False) := by
      rw [halt, ensures_bind, ensures_get, if_pos hother]
      rfl
    exact hsameprocs.of_ok hrun
  · intro stop t' hrun
    exact ((ensures_halt hs).of_error hrun).2.2.desk

private theorem desk_exec (hs : t.Sound others) (q : CallRequest) : Ensures (exec q) t
    (fun _ t' => t'.desk = t.desk) (fun _ t' => t'.desk = t.desk) := by
  apply (ensures_exec_gainsChild hs q).mono
  · rintro n t' ⟨-, child, hgains⟩
    obtain ⟨seen, hself⟩ := hgains.self
    simp only [desk, hself, hgains.takesUp.devices]
  · rintro stop t' ⟨-, hfails⟩
    obtain ⟨seen, hself⟩ := hfails.self
    simp only [desk, hself, hfails.devices]

private theorem desk_learn (va : VirtualAddress) (outcome : Option Outcome) (t : Turn) :
    Ensures (learn va outcome) t (fun _ t' => t'.desk = t.desk) (fun _ t' => t'.desk = t.desk) := by
  rcases outcome with _ | ⟨_ | status⟩ | fault
  · rfl
  · rfl
  · exact ensures_bind.2 (ensures_zoom.2 (ensures_intro (fun _ _ _ => rfl) fun _ _ _ => rfl))
  · rfl

private theorem desk_join (q : CallRequest) (t : Turn) : Ensures (join q) t
    (fun _ t' => t'.desk = t.desk) (fun _ t' => t'.desk = t.desk) :=
  ensures_join_of rfl rfl fun va outcome => desk_learn va outcome (t.reap _)

private theorem carries_openNamed (hw : t.desk.Wired) (create : Bool) (q : CallRequest) :
    Ensures (openNamed create q) t (fun _ t' => Carries [] [] t.desk t'.desk)
      (fun _ t' => Carries [] [] t.desk t'.desk) := by
  apply (desk_stringArgument q.arg1 t).bind
  · intro name t₁ hsame
    rw [← hsame] at hw ⊢
    exact ensures_zoom.2 (hw.openFile name create)
  · exact fun _ _ hsame => hw.carries_of_eq hsame

private theorem carries_closeCall (hw : t.desk.Wired) (q : CallRequest) :
    Ensures (closeCall q) t (fun _ t' => Carries [] [] t.desk t'.desk)
      (fun _ t' => Carries [] [] t.desk t'.desk) := by
  apply (ensures_closeCall q t).mono
  · rintro _ t' ⟨i, hclosed⟩
    rw [hclosed]
    exact hw.closeSlot i
  · exact fun _ _ hsame => hw.carries_of_eq hsame

private theorem carries_unlinkCall (hw : t.desk.Wired) (q : CallRequest) :
    Ensures (unlinkCall q) t (fun _ t' => Carries [] [] t.desk t'.desk)
      (fun _ t' => Carries [] [] t.desk t'.desk) := by
  unfold unlinkCall
  apply (desk_stringArgument q.arg1 t).bind
  · intro name t₁ hsame
    rw [← hsame] at hw ⊢
    generalize hs : t₁.desk = s at hw ⊢
    refine ensures_zoom.2 ?_
    change Ensures _ t₁.desk (fun _ s' => Carries [] [] s s') (fun _ s' => Carries [] [] s s')
    rw [hs, ensures_bind, ensures_get]
    cases hremove : s.devices.files.remove? name with
    | none => exact .refl hw
    | some files =>
      obtain ⟨hnames, hfiles⟩ := hw.names.remove hremove
      exact carries_of_console ⟨hnames, hw.table.grown (.of_files hfiles)⟩ (.of_files hfiles) rfl
  · exact fun _ _ hsame => hw.carries_of_eq hsame

private theorem carries_takes (h : ∃ taken, Carries taken [] t.desk t'.desk ∧ (q.arg1 ≠ 0 → taken = []))
    (hreached : reached (serve .read q) t = t') :
    Carries (t.takes .read q) (t.prints .read q) t.desk t'.desk := by
  obtain ⟨taken, hcarries, hnone⟩ := h
  have htakes : t.takes .read q = taken := by
    by_cases hinput : q.arg1 = 0
    · rw [takes, if_pos ⟨rfl, hinput⟩, hreached, missing_eq hcarries]
    · rw [takes, if_neg (fun h => hinput h.2), hnone hinput]
  have hprints : t.prints .read q = [] := if_neg nofun
  rwa [htakes, hprints]

/-- What a call does at the desk, and to the console. One that has to wait takes and prints nothing. -/
def CarriesCall (t : Turn) (call : CallNumber) (q : CallRequest) : Prop :=
  Ensures (serve call q) t (fun _ t' => Carries (t.takes call q) (t.prints call q) t.desk t'.desk)
    (fun stop t' => Carries (t.takes call q) (t.prints call q) t.desk t'.desk ∧
      (stop = .waiting → t.takes call q = [] ∧ t.prints call q = []))

private theorem carriesCall_of_sameProcesses {call : CallNumber} (hread : call ≠ .read)
    (hwrite : call ≠ .write)
    (h : Ensures (serve call q) t (fun _ t' => Carries [] [] t.desk t'.desk)
      (fun _ t' => Carries [] [] t.desk t'.desk)) : t.CarriesCall call q := by
  simp only [CarriesCall, takes, prints, hread, hwrite, false_and, if_false, and_self, implies_true,
    and_true]
  exact h

private theorem carriesCall_of_desk {call : CallNumber} (hw : t.desk.Wired) (hread : call ≠ .read)
    (hwrite : call ≠ .write) (h : Ensures (serve call q) t (fun _ t' => t'.desk = t.desk)
      (fun _ t' => t'.desk = t.desk)) : t.CarriesCall call q :=
  carriesCall_of_sameProcesses hread hwrite
    (h.mono (fun _ _ hsame => hw.carries_of_eq hsame) fun _ _ hsame => hw.carries_of_eq hsame)

private theorem carriesCall_read (hs : t.Sound others) (hw : t.desk.Wired) (q : CallRequest) :
    t.CarriesCall .read q := by
  have hread := carries_readCall hs.framed hw q
  have hrefusal := serves_readCall q t hs
  apply ensures_intro
  · intro n t' hrun
    exact carries_takes (hread.of_ok hrun) (reached_of_ok hrun)
  · intro stop t' hrun
    obtain ⟨-, e, rfl⟩ := hrefusal.of_error hrun
    exact ⟨carries_takes (hread.of_error hrun) (reached_of_error hrun), nofun⟩

/-- Writes never wait, and one that fails prints nothing. -/
theorem carriesCall_write (hs : t.Sound others) (hw : t.desk.Wired) (q : CallRequest) :
    t.CarriesCall .write q := by
  have hwrite := carries_writeCall hs.framed hw q
  have hserves : Serves others untouched (writeCall q) _ := serves_writeCall q
  have hrefusal := hserves t hs
  have htakes : t.takes .write q = [] := if_neg nofun
  rw [CarriesCall, htakes]
  apply ensures_intro
  · intro n t' hrun
    have hsome : (answer? (serve .write q t)).isSome = true := by
      rw [hrun]
      rfl
    simp only [prints, hsome, true_and, and_true]
    exact hwrite.of_ok hrun
  · intro stop t' hrun
    obtain ⟨-, e, rfl⟩ := hrefusal.of_error hrun
    have hnone : (answer? (serve .write q t)).isSome = false := by
      rw [hrun]
      rfl
    simp only [prints, hnone, Bool.false_eq_true, and_false, if_false]
    exact ⟨hwrite.of_error hrun, nofun⟩

private theorem carries_serve (hs : t.Sound others) (hw : t.desk.Wired) (call : CallNumber)
    (q : CallRequest) : t.CarriesCall call q := by
  cases call with
  | halt =>
    exact carriesCall_of_sameProcesses nofun nofun
      ((desk_halt hs).mono (fun _ _ h => hw.carries_of_eq h)
      fun _ _ h => h ▸ hw.closeAll)
  | exit =>
    refine carriesCall_of_sameProcesses nofun nofun
      ((ensures_exit hs (some q.arg1)).mono (fun _ _ h => h.elim) ?_)
    rintro stop t' ⟨-, -, hexits⟩
    exact hexits.desk ▸ hw.closeAll
  | exec => exact carriesCall_of_desk hw nofun nofun (desk_exec hs q)
  | join => exact carriesCall_of_desk hw nofun nofun (desk_join q t)
  | create => exact carriesCall_of_sameProcesses nofun nofun (carries_openNamed hw true q)
  | openFile => exact carriesCall_of_sameProcesses nofun nofun (carries_openNamed hw false q)
  | read => exact carriesCall_read hs hw q
  | write => exact carriesCall_write hs hw q
  | close => exact carriesCall_of_sameProcesses nofun nofun (carries_closeCall hw q)
  | unlink => exact carriesCall_of_sameProcesses nofun nofun (carries_unlinkCall hw q)

def traffic (t : Turn) : List Traffic :=
  let q := t.self.registers.request
  match CallNumber.decode q.number with
  | .ok call => [.moved t.self.pid (t.takes call q) (t.prints call q)]
  | .error _ => []

def Passes (t : Turn) (passed : List Traffic) (t' : Turn) : Prop :=
  Carries (passed.flatMap Traffic.taken) (passed.flatMap Traffic.printed) t.desk t'.desk

private theorem passes_syscall (hs : t.Sound others) (hw : t.desk.Wired) : Ensures syscall t
    (fun _ t' => t.Passes t.traffic t')
    (fun stop t' => t.Passes t.traffic t' ∧ (stop = .waiting → t.Passes t.traffic t)) := by
  unfold syscall traffic
  rw [ensures_bind, ensures_get]
  dsimp only
  cases hdecode : CallNumber.decode t.self.registers.request.number with
  | error e =>
    apply (ensures_report_exit hs _).mono
    · exact fun _ _ h => h.elim
    · rintro stop t' ⟨-, rfl, hexits⟩
      rw [Passes, hexits.desk]
      exact ⟨hw.closeAll, nofun⟩
  | ok call =>
    have hserve := carries_serve hs hw call t.self.registers.request
    have hpasses : ∀ t', Carries (t.takes call t.self.registers.request)
        (t.prints call t.self.registers.request) t.desk t'.desk →
        t.Passes [.moved t.self.pid (t.takes call t.self.registers.request)
          (t.prints call t.self.registers.request)] t' := by
      intro t' h
      simpa [Passes, Traffic.taken, Traffic.printed] using h
    dsimp only
    rw [ensures_bind, ensures_attempt]
    apply hserve.mono
    · intro n t' h
      exact hpasses _ h
    · rintro stop t' ⟨h, hwaiting⟩
      cases stop with
      | refused e => exact hpasses _ h
      | waiting =>
        obtain ⟨htakes, hprints⟩ := hwaiting rfl
        refine ⟨hpasses _ h, fun _ => hpasses t ?_⟩
        rw [htakes, hprints]
        exact .refl hw
      | ended code =>
        refine ⟨hpasses _ h, ?_⟩
        rintro ⟨⟩
      | fault f =>
        refine ⟨hpasses _ h, ?_⟩
        rintro ⟨⟩

end Turn

namespace Move

open Turn Desk

variable {t : Turn} {others : List Process}

def traffic (m : Move) (t : Turn) : List Traffic :=
  match m with
  | call => if t.kernel.machine.poweredOff then [] else t.traffic
  | _ => []

theorem data_traffic (m : Move) (t : Turn) : (m.traffic t).flatMap Traffic.data = [] := by
  cases m with
  | call =>
    simp only [traffic, Turn.traffic]
    cases t.kernel.machine.poweredOff with
    | true => rfl
    | false =>
      cases CallNumber.decode t.self.registers.request.number with
      | ok call => rfl
      | error e => rfl
  | _ => rfl

theorem passes_run (hs : t.Sound others) (hw : t.desk.Wired) (m : Move) : Ensures m.run t
    (fun _ t' => t.Passes (m.traffic t) t')
    (fun stop t' => t.Passes (m.traffic t) t' ∧ (stop = .waiting → t.Passes (m.traffic t) t)) := by
  have hexited : ∀ {stop : Stop Errno} {t' : Turn}, Exits none t t' →
      t.Passes [] t' ∧ (stop = .waiting → t.Passes [] t) := by
    intro stop t' hexits
    rw [Passes, hexits.desk]
    exact ⟨hw.closeAll, fun _ => .refl hw⟩
  cases m with
  | compute registers => exact Carries.refl hw
  | call =>
    simp only [run, traffic]
    rw [ensures_bind, ensures_get]
    cases hoff : t.kernel.machine.poweredOff with
    | true => exact ⟨.refl hw, fun _ => .refl hw⟩
    | false => exact passes_syscall hs hw
  | load address length =>
    simp only [run, ensures_bind, ensures_pure]
    apply (ensures_loadBytes hs address length).mono
    · rintro _ t' ⟨-, hnotes⟩
      exact hw.carries_of_eq hnotes.desk
    · rintro stop t' ⟨-, -, hexits⟩
      exact hexited hexits
  | store address data =>
    apply (ensures_storeBytes hs address data).mono
    · rintro _ t' ⟨-, hnotes⟩
      exact hw.carries_of_eq hnotes.desk
    · rintro stop t' ⟨-, -, hexits⟩
      exact hexited hexits
  | raise cause =>
    exact (ensures_exception hs cause).mono (fun _ _ h => h.elim) fun _ _ h => hexited h.2.2
  | leave => exact (ensures_exit hs none).mono (fun _ _ h => h.elim) fun _ _ h => hexited h.2.2
  | die f => exact ⟨.refl hw, fun _ => .refl hw⟩

end Move

end PagedKernel

import PagedKernel.Proofs.Kernel.Serial
import PagedKernel.User.Script

/-!
# Actions as moves

Whatever a program does comes down to moves, made one after another: a string is loaded byte by
byte, and a word is pushed by a move of the stack pointer and a store.
-/

namespace PagedKernel

namespace Turn

open World

variable {α β : Type} {allowed : Move → Prop} {others : List Process} {t t' : Turn} {m : Move}

/-- From one turn on, the computation is a run of the world: the process is still there if it
returns, and is gone if it stops. One that has to wait may have done nothing. -/
def PlaysFrom (allowed : Move → Prop) (others : List Process) (x : Call α) (t : Turn) : Prop :=
  Ensures x t (fun _ t' => Run allowed (t.world others) (t'.world others))
    (fun stop t' => stop ≠ .waiting → Run allowed (t.world others) ⟨t'.bury stop, others⟩)

def Plays (allowed : Move → Prop) (others : List Process) (x : Call α) : Prop :=
  ∀ t : Turn, t.Sound others → PlaysFrom allowed others x t

private theorem Plays.pure (a : α) : Plays allowed others (pure a : Call α) := fun _ _ => .refl

private theorem Plays.get : Plays allowed others (get : Call Turn) := fun _ _ => .refl

private theorem PlaysFrom.bind {x : Call α} {f : α → Call β} (ht : t.Sound others)
    (hx : PlaysFrom allowed others x t)
    (hf : ∀ a t', x t = .ok a t' → t'.Sound others → PlaysFrom allowed others (f a) t') :
    PlaysFrom allowed others (x >>= f) t := by
  refine ensures_bind.2 (ensures_intro ?_ ?_)
  · intro a t' h
    have hrun := Ensures.of_ok hx h
    apply (hf a t' h (Run.sound hrun ht)).mono
    · intro b u hrun'
      exact hrun.trans hrun'
    · intro stop u hstop hne
      exact hrun.trans (hstop hne)
  · intro stop t' h
    exact Ensures.of_error hx h

theorem Plays.bind {x : Call α} {f : α → Call β} (hx : Plays allowed others x)
    (hf : ∀ a, Plays allowed others (f a)) : Plays allowed others (x >>= f) :=
  fun t ht => (hx t ht).bind ht fun a t' _ ht' => hf a t' ht'

private theorem Plays.of_discard {x : Call α} (h : Plays allowed others (do let _ ← x)) :
    Plays allowed others x := fun t ht => ensures_bind.1 (h t ht)

private theorem playsFrom_move (hm : allowed m) (t : Turn) : PlaysFrom allowed others m.run t := by
  apply ensures_intro
  · intro _ t' hrun
    have hacts : Acts (t.world others) [] t.self others m _ := .goesOn rfl hrun
    exact .single (.acted hm hacts)
  · intro stop t' hrun hne
    have hacts : Acts (t.world others) [] t.self others m _ := .stops rfl hrun hne
    exact .single (.acted hm hacts)

private theorem plays_move (hm : allowed m) :
    Plays allowed others m.run := fun t _ => playsFrom_move hm t

private theorem plays_stackPointer :
    Plays allowed others stackPointer := Plays.get.bind fun _ => .pure _

section

variable (hallowed : ∀ m : Move, m.Tame → allowed m)
include hallowed

theorem plays_registers (f : Registers → Registers) :
    Plays allowed others (modifySelf fun p => { p with registers := f p.registers }) :=
  fun t _ => playsFrom_move (m := .compute (f t.self.registers)) (hallowed _ nofun) t

private theorem plays_loadBytes (address length : Nat) :
    Plays allowed others (loadBytes address length) :=
  .of_discard (plays_move (m := .load address length) (hallowed _ nofun))

private theorem plays_storeBytes (address : Nat) (data : Bytes) :
    Plays allowed others (storeBytes address data) :=
  plays_move (m := .store address data) (hallowed _ nofun)

theorem plays_exit : Plays allowed others (exit none : Call Unit) :=
  plays_move (m := .leave) (hallowed _ nofun)

theorem plays_exception (cause : Exception) : Plays allowed others (exception cause) :=
  plays_move (m := .raise cause) (hallowed _ nofun)

private theorem plays_raise (cause : Exception) (address : Nat) :
    Plays allowed others (raise cause address : Call α) := by
  apply (plays_registers hallowed fun r => r.set .badVaddr (Int32.ofNat address)).bind
  intro _ t ht
  apply (plays_exception hallowed cause t ht).bind ht
  intro _ t' hok
  exact ((ensures_exception ht cause).of_ok hok).elim

private theorem plays_loadUntilZero (address fuel : Nat) :
    Plays allowed others (loadUntilZero address fuel) := by
  induction fuel generalizing address with
  | zero => exact .pure _
  | succ fuel ih =>
    apply (plays_loadBytes hallowed address 1).bind
    intro data
    cases data with
    | nil => exact .pure _
    | cons b rest =>
      dsimp only
      split
      · exact .pure _
      · exact (ih _).bind fun _ => .pure _

private theorem plays_loadString (address : UInt32) : Plays allowed others (loadString address) := by
  apply Plays.get.bind
  intro t
  exact (plays_loadUntilZero hallowed _ _).bind fun _ => .pure _

private theorem plays_loadWord (address : UInt32) : Plays allowed others (loadWord address) :=
  (plays_loadBytes hallowed _ _).bind fun _ => .pure _

private theorem plays_loadStrings (address : UInt32) (count : Nat) :
    Plays allowed others (loadStrings address count) := by
  induction count generalizing address with
  | zero => exact .pure _
  | succ count ih =>
    apply (plays_loadWord hallowed address).bind
    intro pointer
    apply (plays_loadString hallowed pointer).bind
    intro s
    exact (ih _).bind fun _ => .pure _

private theorem plays_reserve (length : Nat) : Plays allowed others (reserve length) := by
  apply plays_stackPointer.bind
  intro sp
  exact (plays_registers hallowed fun r => r.set .sp _).bind fun _ => .pure _

private theorem plays_pushBytes (data : Bytes) : Plays allowed others (pushBytes data) := by
  apply (plays_reserve hallowed _).bind
  intro address
  exact (plays_storeBytes hallowed _ _).bind fun _ => .pure _

/-- A system call of a program states the call and makes it, unless the machine is off. Too many
arguments break a rule. -/
theorem plays_trap (number : Int32) (args : List Int32)
    (hmany : 4 < args.length → allowed (.die .tooManyArguments)) :
    Plays allowed others (trap number args) := by
  intro t ht
  have hcall : ∀ t : Turn, PlaysFrom allowed others Move.call.run t :=
    playsFrom_move (hallowed _ nofun)
  simp only [PlaysFrom, Move.run, ensures_bind, ensures_get] at hcall
  unfold trap
  split
  · next h => exact playsFrom_move (m := .die .tooManyArguments) (hmany h) t
  · refine ensures_bind.2 (ensures_get.2 ?_)
    dsimp only
    split
    · next hoff =>
      have hended := hcall t
      rw [if_pos hoff] at hended
      exact hended
    · next hon =>
      apply (plays_registers hallowed (·.withRequest _) t ht).bind ht
      intro _ stated hstated hsound
      have hsyscall := hcall stated
      cases hstated
      rw [if_neg hon] at hsyscall
      exact PlaysFrom.bind hsound hsyscall fun _ _ _ _ => .refl

end

private theorem plays_feed (data : Bytes) : Plays allowed others (modifyKernel fun k =>
    { k with machine.devices.console := k.machine.devices.console.feed data }) :=
  fun _ _ => .single (.fed data)

end Turn

namespace Action

def Tame : Action → Prop
  | die => False
  | syscall _ args _ => args.length ≤ 4
  | _ => True

def Permitted (allowed : Move → Prop) (a : Action) : Prop := ∀ m : Move, (a.Tame → m.Tame) → allowed m

private theorem Permitted.tame {allowed : Move → Prop} {a : Action} (h : a.Permitted allowed) :
    ∀ m : Move, m.Tame → allowed m := fun m hm => h m fun _ => hm

end Action

namespace Turn

variable {allowed : Move → Prop} {others : List Process}

/-- Whatever a program does is a run of the world. -/
theorem plays_perform (vars : Kept) (argc : Int32) (argv : UInt32) {a : Action}
    (ha : a.Permitted allowed) : Plays allowed others (perform vars argc argv a) := by
  have hallowed := ha.tame
  cases a with
  | pushString text => exact (plays_pushBytes hallowed _).bind fun _ => .pure _
  | pushBytes data => exact (plays_pushBytes hallowed _).bind fun _ => .pure _
  | pushWords words => exact (plays_pushBytes hallowed _).bind fun _ => .pure _
  | reserve length => exact (plays_reserve hallowed _).bind fun _ => .pure _
  | readWord address => exact (plays_loadWord hallowed _).bind fun _ => .pure _
  | writeWord address value => exact (plays_storeBytes hallowed _ _).bind fun _ => .pure _
  | readBytes address length => exact (plays_loadBytes hallowed _ _).bind fun _ => .pure _
  | writeBytes address data => exact (plays_storeBytes hallowed _ _).bind fun _ => .pure _
  | readString address => exact (plays_loadString hallowed _).bind fun _ => .pure _
  | arguments => exact (plays_loadStrings hallowed _ _).bind fun _ => .pure _
  | start => exact plays_stackPointer.bind fun _ => .pure _
  | registers => exact Plays.get.bind fun _ => .pure _
  | raise cause address => exact plays_raise hallowed _ _
  | syscall number args later =>
    refine (plays_trap hallowed _ _ ?_).bind fun _ => .pure _
    intro hmany
    rw [List.length_map] at hmany
    exact ha _ fun htame => absurd htame (Nat.not_le.2 hmany)
  | run pid => exact .pure _
  | probe => exact Plays.get.bind fun _ => .pure _
  | die => exact fun t _ => playsFrom_move (m := .die .programDied) (ha _ False.elim) t
  | feed data => exact (plays_feed data).bind fun _ => .pure _
  | output => exact Plays.get.bind fun _ => .pure _
  | contents name => exact Plays.get.bind fun _ => .pure _

end Turn

end PagedKernel

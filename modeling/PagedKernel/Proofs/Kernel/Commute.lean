import PagedKernel.Proofs.Kernel.SameChange
import PagedKernel.Proofs.Kernel.KeepingFiles

/-!
# The order of calls on files

Two processes that call about different files may do so in either order. Each call comes to the same,
and so does what is left behind, but for the numbers of the files that are made.
-/

namespace PagedKernel

/-- Which of two running processes comes first does not matter. -/
theorem Kernel.Sound.swap {k : Kernel} {p q : Process} {rest : List Process}
    (h : k.Sound (p :: q :: rest)) : k.Sound (q :: p :: rest) :=
  h.perm ((List.Perm.swap q p rest).append_right k.ready) rfl rfl rfl

namespace Turn

open UserMemory

variable {k : Kernel} {p q : Process} {rest : List Process} {t t' u u' : Turn} {m o : Footprint}
variable {touched touched' : Nat → Prop}

/-- While one process was served, another one has kept what it has. -/
theorem Stays.paired (h : Stays touched ⟨k, p⟩ t) (hs : k.Sound (p :: q :: rest))
    (hcovers : o.Covers k.machine.devices t.kernel.machine.devices) :
    Paired (Desk.SameChange m o k.machine.devices t.kernel.machine.devices) ⟨k, q⟩ ⟨t.kernel, q⟩ where
  config := h.congr (·.kernel.machine.config) fun _ _ => rfl
  memory := by
    have hturn : Sound ⟨k, p⟩ (q :: rest) := hs
    have hspares := h.keeps.spares hturn
    have hq : Sound ⟨k, q⟩ (p :: rest) := hs.swap
    have hq' : Sound ⟨t.kernel, q⟩ (t.self :: rest) := Kernel.Sound.swap hspares.sound
    exact ⟨rfl, hspares.byte? (List.mem_append_left _ (List.mem_cons_self ..)), hq.framed,
      hq'.framed, hq.nodup, hq'.nodup⟩
  desk := ⟨rfl, Devices.sameChange_start hcovers⟩

private theorem Stays.kernel_eq (h : Stays touched t t') : t'.kernel = { t.kernel with
    machine := { t.kernel.machine with
      memory := t'.kernel.machine.memory, devices := t'.kernel.machine.devices } } :=
  congrArg Turn.kernel h.frame

private theorem Stays.kernel_after (h : Stays touched ⟨k, p⟩ t) (h' : Stays touched' ⟨t.kernel, q⟩ t') :
    t'.kernel = { k with machine := { k.machine with
      memory := t'.kernel.machine.memory, devices := t'.kernel.machine.devices } } := by
  have hkernel := h'.kernel_eq
  rw [h.kernel_eq] at hkernel
  exact hkernel

end Turn

/-- What two processes have come to, each called once: in `t` the one was served alone, and in `t'`
the other one after it. In `u` the other one was served alone, and in `u'` the one after it. -/
structure BothWays (m o : Footprint) (k : Kernel) (p q : Process) (t t' u u' : Turn) : Prop where
  first : Turn.Stays (fun _ => True) ⟨k, p⟩ t
  next : Turn.Stays (fun _ => True) ⟨t.kernel, q⟩ t'
  second : Turn.Stays (fun _ => True) ⟨k, q⟩ u
  next' : Turn.Stays (fun _ => True) ⟨u.kernel, p⟩ u'
  pair : Turn.Paired (Desk.Moved m o k.machine.devices u.kernel.machine.devices) t u'
  pair' : Turn.Paired (Desk.Moved o m k.machine.devices t.kernel.machine.devices) u t'

namespace BothWays

open Turn

variable {m o : Footprint} {k : Kernel} {p q : Process} {rest : List Process} {t t' u u' : Turn}

theorem symm (h : BothWays m o k p q t t' u u') : BothWays o m k q p u u' t t' :=
  ⟨h.second, h.next', h.first, h.next, h.pair', h.pair⟩

private theorem table (h : BothWays m o k p q t t' u u') : u'.self.table = t.self.table := by
  refine PageTable.eq_of_faceless h.pair.memory.faceless ?_
  exact h.next'.keeps.mapped.trans h.first.keeps.mapped.symm

private theorem self (h : BothWays m o k p q t t' u u') :
    u'.self = { t.self with
      descriptors :=
        t.self.descriptors.renumber (k.machine.devices.shift u.kernel.machine.devices) } := by
  have hself : t.self = { p with table := t.self.table, descriptors := t.self.descriptors } :=
    congrArg Turn.self h.first.frame
  have hself' : u'.self = { p with table := u'.self.table, descriptors := u'.self.descriptors } :=
    congrArg Turn.self h.next'.frame
  have hdescriptors : u'.self.descriptors = _ := h.pair.desk.descriptors
  rw [hself', h.table, hdescriptors, hself]
  rfl

private theorem frame? (h : BothWays m o k p q t t' u u') (hs : k.Sound (p :: q :: rest))
    (hv : p.table.AllValid) {f : Nat} (hf : f ∈ p.table.mapped) :
    u'.kernel.machine.memory.frame? f = t'.kernel.machine.memory.frame? f := by
  have hmapped : f ∈ t.self.table.mapped := by rwa [h.first.keeps.mapped]
  have hvalid : t.self.table.AllValid := hv.congr h.first.edited.mapping
  have hother : f ∉ q.table.mapped := fun hq =>
    Sound.apart (t := ⟨k, q⟩) hs.swap (List.mem_append_left _ (List.mem_cons_self ..)) hf hq
  have hkept : t'.kernel.machine.memory.frame? f = t.kernel.machine.memory.frame? f :=
    h.next.edited.foreign f hother
  exact (h.pair.memory.frame? h.table hvalid hmapped).trans hkept.symm

private theorem memory (h : BothWays m o k p q t t' u u') (hs : k.Sound (p :: q :: rest))
    (hp : p.table.AllValid) (hq : q.table.AllValid) :
    u'.kernel.machine.memory = t'.kernel.machine.memory := by
  apply Memory.ext_frame?
  intro f
  by_cases hmine : f ∈ p.table.mapped
  · exact h.frame? hs hp hmine
  · by_cases htheirs : f ∈ q.table.mapped
    · exact (h.symm.frame? hs.swap hq htheirs).symm
    · have hleft : t'.kernel.machine.memory.frame? f = k.machine.memory.frame? f :=
        (h.next.edited.foreign f htheirs).trans (h.first.edited.foreign f hmine)
      have hright : u'.kernel.machine.memory.frame? f = k.machine.memory.frame? f :=
        (h.next'.edited.foreign f hmine).trans (h.second.edited.foreign f htheirs)
      rw [hleft, hright]

private theorem kernel (h : BothWays m o k p q t t' u u') (hs : k.Sound (p :: q :: rest))
    (hp : p.table.AllValid) (hq : q.table.AllValid) :
    u'.kernel = { t'.kernel with
      machine := { t'.kernel.machine with devices := u'.kernel.machine.devices } } := by
  rw [h.second.kernel_after h.next', h.memory hs hp hq, h.first.kernel_after h.next]

private theorem handles_eq (h : BothWays m o k p q t t' u u') (base : Nat)
    (hp : p.descriptors.FreeExact)
    (hq : q.descriptors.FreeExact) (hbase : k.machine.openHandles =
      base + p.descriptors.fileCount + q.descriptors.fileCount) :
    t'.kernel.machine.openHandles =
      base + t.self.descriptors.fileCount + t'.self.descriptors.fileCount := by
  have hfirst := h.first.filesKept.balanced hp (base + q.descriptors.fileCount)
    (by simp only [Desk.Balanced, Turn.desk, Machine.openHandles] at hbase ⊢; omega)
  exact h.next.filesKept.balanced hq _
    (by simp only [Desk.Balanced, Turn.desk] at hfirst ⊢; omega)

private theorem handles (h : BothWays m o k p q t t' u u') (base : Nat) (hp : p.descriptors.FreeExact)
    (hq : q.descriptors.FreeExact) (hbase : k.machine.openHandles =
      base + p.descriptors.fileCount + q.descriptors.fileCount) :
    u'.kernel.machine.openHandles = t'.kernel.machine.openHandles := by
  have hleft := h.handles_eq base hp hq hbase
  have hright := h.symm.handles_eq base hq hp (by omega)
  rw [h.self, DescriptorTable.fileCount_renumber] at hright
  rw [h.symm.self, DescriptorTable.fileCount_renumber] at hleft
  omega

private theorem renumbered (h : BothWays m o k p q t t' u u') (hp : Desk.Grounded (Turn.desk ⟨k, p⟩))
    (hq : Desk.Grounded (Turn.desk ⟨k, q⟩)) (hapart : m.Apart o)
    (hmade : ∀ id, m.files id ∨ o.files id → id < k.machine.devices.files.files.length)
    (hhandles : u'.kernel.machine.openHandles = t'.kernel.machine.openHandles) :
    Devices.Renumbered (Devices.reorder k.machine.devices t.kernel.machine.devices
      u.kernel.machine.devices) t'.kernel.machine.devices u'.kernel.machine.devices :=
  h.pair.desk.devices.renumbered h.pair'.desk.devices hapart hmade
    (h.first.filesKept.grounded hp).names (h.second.filesKept.grounded hq).names hhandles

private theorem self_reorder (h : BothWays m o k p q t t' u u')
    (hp : Desk.Grounded (Turn.desk ⟨k, p⟩)) :
    u'.self = { t.self with
      descriptors := t.self.descriptors.renumber (Devices.reorder k.machine.devices
        t.kernel.machine.devices u.kernel.machine.devices) } := by
  have hbelow : t.self.descriptors.Below t.kernel.machine.devices.files.files.length :=
    (h.first.filesKept.grounded hp).below
  rw [h.self, Devices.renumber_shift (d := k.machine.devices) hbelow h.first.filesKept.count]

private theorem self_reorder' (h : BothWays m o k p q t t' u u')
    (hq : Desk.Grounded (Turn.desk ⟨k, q⟩)) :
    u.self = { t'.self with
      descriptors := t'.self.descriptors.renumber (Devices.reorder k.machine.devices
        t.kernel.machine.devices u.kernel.machine.devices) } := by
  have hbelow : u.self.descriptors.Below u.kernel.machine.devices.files.files.length :=
    (h.second.filesKept.grounded hq).below
  rw [h.symm.self, Devices.renumber_shift_reorder (d := k.machine.devices) hbelow
    h.second.filesKept.count]

end BothWays

namespace Turn

variable {k : Kernel} {p q : Process} {rest : List Process} {a b : CallNumber} {x y : CallRequest}
variable {t u : Turn} {o : Footprint} {touched : Nat → Prop}

/-- A call has the same result after a call of another process about other files. -/
theorem exists_attempt_after {result : Except Errno Nat} (hs : k.Sound (p :: q :: rest))
    (hfirst : Stays touched ⟨k, p⟩ t)
    (hcovers : o.Covers k.machine.devices t.kernel.machine.devices) (hb : b ∈ CallNumber.onFiles)
    (hq : Desk.Grounded (desk ⟨k, q⟩)) (hapart : (footprint ⟨k, q⟩ b y).Apart o)
    (hy : ¬ UsesConsole ⟨k, q⟩ b y) (hrun : attempt (serve b y) ⟨k, q⟩ = .ok result u) :
    ∃ t', attempt (serve b y) ⟨t.kernel, q⟩ = .ok result t' ∧
      Stays (fun _ => True) ⟨t.kernel, q⟩ t' ∧
      Paired (Desk.Moved (footprint ⟨k, q⟩ b y) o k.machine.devices t.kernel.machine.devices)
        u t' := by
  have hturn : Sound ⟨k, p⟩ (q :: rest) := hs
  have hnext : Sound ⟨t.kernel, q⟩ (t.self :: rest) :=
    Kernel.Sound.swap (hfirst.keeps.sound hturn)
  have hagree := agree_serve_sameChange (t := ⟨k, q⟩) hb (hfirst.paired hs hcovers) hs.swap hq hapart hy
  obtain ⟨t', hafter, hpair⟩ := hagree.attempt.of_ok hrun
  exact ⟨t', hafter, (ensures_attempt_serve hb hnext).of_ok hafter, hpair⟩

/-- Each of the two calls has its result, whichever comes first. -/
theorem exists_bothWays (hs : k.Sound (p :: q :: rest)) (ha : a ∈ CallNumber.onFiles)
    (hb : b ∈ CallNumber.onFiles) (hp : Desk.Grounded (desk ⟨k, p⟩))
    (hq : Desk.Grounded (desk ⟨k, q⟩))
    (hapart : (footprint ⟨k, p⟩ a x).Apart (footprint ⟨k, q⟩ b y))
    (hx : ¬ UsesConsole ⟨k, p⟩ a x) (hy : ¬ UsesConsole ⟨k, q⟩ b y) :
    ∃ result result' t t' u u',
      attempt (serve a x) ⟨k, p⟩ = .ok result t ∧
      attempt (serve b y) ⟨t.kernel, q⟩ = .ok result' t' ∧
      attempt (serve b y) ⟨k, q⟩ = .ok result' u ∧
      attempt (serve a x) ⟨u.kernel, p⟩ = .ok result u' ∧
      BothWays (footprint ⟨k, p⟩ a x) (footprint ⟨k, q⟩ b y) k p q t t' u u' := by
  obtain ⟨result, t, hrun, hfirst, hcovers⟩ :=
    exists_attempt_serve (t := ⟨k, p⟩) ha hs hp hx
  obtain ⟨result', u, hrun', hsecond, hcovers'⟩ :=
    exists_attempt_serve (t := ⟨k, q⟩) hb hs.swap hq hy
  obtain ⟨t', hafter, hnext, hpair'⟩ :=
    exists_attempt_after hs hfirst hcovers hb hq hapart.symm hy hrun'
  obtain ⟨u', hafter', hnext', hpair⟩ :=
    exists_attempt_after hs.swap hsecond hcovers' ha hp hapart hx hrun
  exact ⟨result, result', t, t', u, u', hrun, hafter, hrun', hafter',
    hfirst, hnext, hsecond, hnext', hpair, hpair'⟩

end Turn

namespace World

open Turn

variable {allowed : Move → Prop} {w : World} {p q : Process} {a b : CallNumber}

private theorem exists_perm_pair (hp : p ∈ w.running) (hq : q ∈ w.running) (hne : p ≠ q) :
    ∃ rest, w.running.Perm (p :: q :: rest) := by
  obtain ⟨before, after, hrunning⟩ := List.append_of_mem hp
  have hperm : w.running.Perm (p :: (before ++ after)) := hrunning ▸ List.perm_middle
  obtain hsame | hother := List.mem_cons.1 (hperm.mem_iff.1 hq)
  · exact absurd hsame.symm hne
  · obtain ⟨first, last, hothers⟩ := List.append_of_mem hother
    rw [hothers] at hperm
    exact ⟨first ++ last, hperm.trans (List.perm_middle.cons p)⟩

/-- Calls of two processes on different files have the same results in either order. All that they
leave is the same: the files and how many are open, the descriptors with their positions, and the
memory. Only the numbers that stand for the files that the two make depend on the order. -/
theorem ReachableKeepingFiles.calls_commute (hw : ReachableKeepingFiles allowed w)
    (hp : p ∈ w.running) (hq : q ∈ w.running)
    (hne : p ≠ q) (ha : a ∈ CallNumber.onFiles) (hb : b ∈ CallNumber.onFiles) (x y : CallRequest)
    (hapart : (footprint ⟨w.kernel, p⟩ a x).Apart (footprint ⟨w.kernel, q⟩ b y))
    (hx : ¬ UsesConsole ⟨w.kernel, p⟩ a x) (hy : ¬ UsesConsole ⟨w.kernel, q⟩ b y) :
    ∃ (result result' : Except Errno Nat) (t t' u u' : Turn) (σ : Equiv.Perm FileId),
      attempt (serve a x) ⟨w.kernel, p⟩ = .ok result t ∧
      attempt (serve b y) ⟨t.kernel, q⟩ = .ok result' t' ∧
      attempt (serve b y) ⟨w.kernel, q⟩ = .ok result' u ∧
      attempt (serve a x) ⟨u.kernel, p⟩ = .ok result u' ∧
      (∀ id < w.kernel.machine.devices.files.files.length, σ id = id) ∧
      t'.kernel.machine.devices.Renumbered σ u'.kernel.machine.devices ∧
      (∀ name, u'.kernel.machine.devices.files.contents? name =
        t'.kernel.machine.devices.files.contents? name) ∧
      u'.self = { t.self with descriptors := t.self.descriptors.renumber σ } ∧
      u.self = { t'.self with descriptors := t'.self.descriptors.renumber σ } ∧
      u'.kernel = { t'.kernel with
        machine := { t'.kernel.machine with devices := u'.kernel.machine.devices } } := by
  obtain ⟨rest, hperm⟩ := exists_perm_pair hp hq hne
  have hs : w.kernel.Sound (p :: q :: rest) :=
    hw.reachable.sound.perm (hperm.append_right w.kernel.ready) rfl rfl rfl
  have hp' : p ∈ w.processes := List.mem_append_left _ hp
  have hq' : q ∈ w.processes := List.mem_append_left _ hq
  have hground := hw.filed.grounded hp'
  have hground' := hw.filed.grounded hq'
  obtain ⟨hvalid, hexact⟩ := hw.reachable.consistentWith.intact p hp'
  obtain ⟨hvalid', hexact'⟩ := hw.reachable.consistentWith.intact q hq'
  obtain ⟨result, result', t, t', u, u', hrun, hafter, hrun', hafter', h⟩ :=
    exists_bothWays hs ha hb hground hground' hapart hx hy
  have hhandles : u'.kernel.machine.openHandles = t'.kernel.machine.openHandles := by
    have hopen := hw.filed.handles
    rw [processes, openFiles_perm (hperm.append_right w.kernel.ready), List.cons_append,
      List.cons_append, openFiles_cons, openFiles_cons] at hopen
    refine h.handles (w.kernel.machine.openHandles -
      (p.descriptors.fileCount + q.descriptors.fileCount)) hexact hexact' ?_
    omega
  have hmade : ∀ id,
      (footprint ⟨w.kernel, p⟩ a x).files id ∨ (footprint ⟨w.kernel, q⟩ b y).files id →
      id < w.kernel.machine.devices.files.files.length := by
    rintro id (hid | hid)
    · exact footprint_lt hground hid
    · exact footprint_lt hground' hid
  have hrenumbered := h.renumbered hground hground' hapart hmade hhandles
  exact ⟨result, result', t, t', u, u', _, hrun, hafter, hrun', hafter',
    fun id hid => Devices.reorder_of_lt hid, hrenumbered, hrenumbered.contents,
    h.self_reorder hground, h.self_reorder' hground', h.kernel hs hvalid hvalid'⟩

def sampleDisk : Devices := { files := ({} : FileSystem).insert "" Loader.sampleImage }

def samplePair : World :=
  (story ⟨tried "" [] (tried "" [] (.boot { physPages := 10, stackPages := 1 } sampleDisk)), []⟩
    (.start 1 :: Cue.issue ⟨5, 8192, 0, 0, 0⟩ ++
      .start 2 :: Cue.issue ⟨9, 8192, 0, 0, 0⟩ ++ Cue.issue ⟨4, 8192, 0, 0, 0⟩)).2

private theorem reachableKeepingFiles_samplePair : ReachableKeepingFiles Move.Tame samplePair := by
  have hdisk : sampleDisk.files.Grounded := FileSystem.grounded_empty.insert "" Loader.sampleImage
  apply reachableKeepingFiles_story (((ReachableKeepingFiles.boot _ hdisk).tried "" []).tried "" [])
  simp [Cue.issue, Move.Tame]

theorem calls_commute_sample : ∃ p q, samplePair.running = [q, p] ∧ p ≠ q ∧
    Footprint.Apart (footprint ⟨samplePair.kernel, p⟩ .write ⟨7, 2, 8192, 3, 0⟩)
      (footprint ⟨samplePair.kernel, q⟩ .write ⟨7, 2, 8192, 5, 0⟩) ∧
    ¬ UsesConsole ⟨samplePair.kernel, p⟩ .write ⟨7, 2, 8192, 3, 0⟩ ∧
    ¬ UsesConsole ⟨samplePair.kernel, q⟩ .write ⟨7, 2, 8192, 5, 0⟩ ∧
    ∃ result result' t t' u u',
      attempt (serve .write ⟨7, 2, 8192, 3, 0⟩) ⟨samplePair.kernel, p⟩ = .ok result t ∧
      attempt (serve .write ⟨7, 2, 8192, 5, 0⟩) ⟨t.kernel, q⟩ = .ok result' t' ∧
      attempt (serve .write ⟨7, 2, 8192, 5, 0⟩) ⟨samplePair.kernel, q⟩ = .ok result' u ∧
      attempt (serve .write ⟨7, 2, 8192, 3, 0⟩) ⟨u.kernel, p⟩ = .ok result u' ∧
      ∀ name, u'.kernel.machine.devices.files.contents? name =
        t'.kernel.machine.devices.files.contents? name := by
  have hlength : samplePair.running.length = 2 := by decide +kernel
  have hids : samplePair.running.map (fun p => (p.descriptors.find? 2).map (·.2.source.id?)) =
      [some (some 1), some (some 0)] := by decide +kernel
  obtain ⟨q, p, hrunning⟩ := List.length_eq_two.1 hlength
  rw [hrunning, List.map_cons, List.map_cons, List.map_nil, List.cons.injEq,
    List.cons.injEq] at hids
  obtain ⟨hq, hp, -⟩ := hids
  have hne : p ≠ q := by
    rintro rfl
    rw [hp] at hq
    cases hq
  -- Data is moved to the file under descriptor 2, and to no other one.
  have hdata : ∀ {p : Process} {id : FileId} (size : Int32),
      (p.descriptors.find? 2).map (·.2.source.id?) = some (some id) →
      ¬ UsesConsole ⟨samplePair.kernel, p⟩ .write ⟨7, 2, 8192, size, 0⟩ ∧
        ∀ other, (footprint ⟨samplePair.kernel, p⟩ .write ⟨7, 2, 8192, size, 0⟩).files other →
          other = id := by
    intro p id size hid
    obtain ⟨found, hfound, hid⟩ := Option.map_eq_some_iff.1 hid
    have hsame : ∀ slot file, p.descriptors.find? 2 = some (slot, file) → file = found.2 := by
      intro slot file hfile
      rw [hfound] at hfile
      cases hfile
      rfl
    constructor
    · rintro ⟨-, slot, file, hfile, hconsole⟩
      rw [hsame slot file hfile, Source.ofConsole_of_id? hid] at hconsole
      cases hconsole
    · rintro other ⟨-, slot, file, hfile, hother⟩
      rw [hsame slot file hfile, hid] at hother
      exact (Option.some.inj hother).symm
  obtain ⟨hx, hfile⟩ := hdata 3 hp
  obtain ⟨hy, hfile'⟩ := hdata 5 hq
  have hapart : Footprint.Apart (footprint ⟨samplePair.kernel, p⟩ .write ⟨7, 2, 8192, 3, 0⟩)
      (footprint ⟨samplePair.kernel, q⟩ .write ⟨7, 2, 8192, 5, 0⟩) := by
    refine ⟨fun name h => absurd h.1 (by decide), fun id h h' => ?_⟩
    cases (hfile id h).symm.trans (hfile' id h')
  obtain ⟨result, result', t, t', u, u', σ, hrun, hafter, hrun', hafter', -, -, hcontents, -⟩ :=
    reachableKeepingFiles_samplePair.calls_commute (p := p) (q := q) (hrunning ▸ by simp)
      (hrunning ▸ by simp) hne
      (by decide) (by decide) ⟨7, 2, 8192, 3, 0⟩ ⟨7, 2, 8192, 5, 0⟩ hapart hx hy
  exact ⟨p, q, hrunning, hne, hapart, hx, hy, result, result', t, t', u, u', hrun, hafter, hrun',
    hafter', hcontents⟩

end World

end PagedKernel

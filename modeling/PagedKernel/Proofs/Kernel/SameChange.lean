import PagedKernel.Proofs.Files.Renumber
import PagedKernel.Proofs.Kernel.FreeDescriptors
import PagedKernel.Proofs.Kernel.Pairing

/-!
# A call before and after work on other files

A call on files is served for a process, and it is served for it after others have worked on files
that are none of the call's. It comes to the same both times, and it reaches no more than the names
and the files that it is about.
-/

namespace PagedKernel

def Source.ofConsole : Source → Bool
  | .file .. => false
  | .input _ | .output _ => true

theorem Source.ofConsole_of_id? {source : Source} {id : FileId} (h : source.id? = some id) :
    source.ofConsole = false := by
  cases source with
  | file name id position => rfl
  | input isOpen => cases h
  | output isOpen => cases h

namespace Turn

open UserMemory

variable {α : Type} {rel rel' : Desk → Desk → Prop} {t t' u : Turn} {others : List Process}
variable {m o : Footprint} {d d' : Devices} {call : CallNumber} {q : CallRequest}

/-- Two turns of a process in which it sees the same in its memory, with desks that are related. -/
structure Paired (rel : Desk → Desk → Prop) (t t' : Turn) : Prop where
  config : t'.kernel.machine.config = t.kernel.machine.config
  memory : UserMemory.Twin t.memory t'.memory
  desk : rel t.desk t'.desk

instance : Pairing (Paired rel) where
  memory h := h.memory
  most h := by rw [h.config]
  withMemory h hm := ⟨h.config, hm, h.desk⟩

theorem Paired.mono (h : Paired rel t t') (hrel : rel' t.desk t'.desk) : Paired rel' t t' :=
  ⟨h.config, h.memory, hrel⟩

private theorem agree_onDesk {x : EStateM (Stop Errno) Desk α} (h : Paired rel t t')
    (hx : Agree rel' (x t.desk) (x t'.desk)) :
    Agree (Paired rel') (onDesk x t) (onDesk x t') :=
  hx.zoom fun _ _ hs => ⟨h.config, h.memory, hs⟩

private theorem parallel_atDesk {x : EStateM (Stop Errno) Desk α} (hx : Parallel rel x) :
    Parallel (Paired rel) (onDesk x) :=
  fun _ _ h => agree_onDesk h (hx _ _ h.desk)

/-- What a call on files is about: the file with the name that the process passes, or the file under
the descriptor from or to which data is moved. -/
def footprint (t : Turn) (call : CallNumber) (q : CallRequest) : Footprint where
  names name := call ∈ [.create, .openFile, .unlink] ∧ ∃ u, stringArgument q.arg1 t = .ok name u
  files id := call ∈ [.read, .write] ∧ ∃ slot file,
    t.self.descriptors.find? q.arg1.toInt = some (slot, file) ∧ file.source.id? = some id

def UsesConsole (t : Turn) (call : CallNumber) (q : CallRequest) : Prop :=
  call ∈ [.read, .write] ∧ ∃ slot file,
    t.self.descriptors.find? q.arg1.toInt = some (slot, file) ∧ file.source.ofConsole = true

theorem footprint_lt (ht : t.desk.Grounded) {id : FileId} (h : (t.footprint call q).files id) :
    id < t.kernel.machine.devices.files.files.length := by
  obtain ⟨-, slot, file, hfind, hid⟩ := h
  obtain ⟨-, -, hslot⟩ := DescriptorTable.find?_eq_some_iff.1 hfind
  exact ht.below file (DescriptorTable.mem_slots hslot) id hid

private theorem serves_onFiles (hcall : call ∈ CallNumber.onFiles) (q : CallRequest) :
    Serves others (fun _ => True) (serve call q) (· < wordLimit) := by
  simp only [CallNumber.onFiles, List.mem_cons, List.not_mem_nil, or_false] at hcall
  rcases hcall with rfl | rfl | rfl | rfl | rfl | rfl
  · exact serves_openNamed true q
  · exact serves_openNamed false q
  · refine Obeys.mono (serves_readCall q) (fun t t' h => ?_) fun _ h => h
    exact ⟨h.frame, h.filesKept, h.edited.mono fun _ _ => trivial⟩
  · exact serves_writeCall q
  · exact serves_closeCall q
  · exact serves_unlinkCall q

/-- What is done with the file of a name comes to the same, as far as that was made before. -/
theorem agree_named {r : Int32} {f : String → Call α}
    (h : Paired (Desk.SameChange m o d d') t t') (ht : t.desk.Grounded)
    (hf : ∀ name u u', stringArgument r t = .ok name u → u.desk.Grounded →
      Paired (Desk.SameChange m o d d') u u' →
      Agree (Paired (Desk.Moved m o d d')) (f name u) (f name u')) :
    Agree (Paired (Desk.Moved m o d d')) ((stringArgument r >>= f) t)
      ((stringArgument r >>= f) t') := by
  have hdesk := desk_stringArgument r t
  have hname : Agree (fun u u' => Paired (Desk.SameChange m o d d') u u' ∧ u.desk.Grounded)
      (stringArgument r t) (stringArgument r t') := by
    apply (parallel_stringArgument r t t' h).ensures hdesk (desk_stringArgument r t')
    · intro name u u' hu hsame _
      exact ⟨hu, hsame ▸ ht⟩
    · intro stop u u' hu hsame _
      exact ⟨hu, hsame ▸ ht⟩
  apply hname.bind_of_ok
  · rintro name u u' hfound ⟨hu, hground⟩
    exact hf name u u' hfound hground hu
  · rintro u u' ⟨hu, hground⟩
    exact hu.mono (hu.desk.moved hground)

private theorem agree_remove {s s' : Desk} {name : String} (h : Desk.SameChange m o d d' s s')
    (hs : s.Grounded) (hm : m.names name) (ho : ¬ o.names name) :
    let remove : EStateM (Stop Errno) Desk Nat := do
      let s ← get
      match s.devices.files.remove? name with
      | none => refuse .noSuchEntry
      | some files =>
        set { s with devices.files := files }
        return 0
    Agree (Desk.Moved m o d d') (remove s) (remove s') := by
  have hmoved := h.moved hs
  simp only [bind, EStateM.bind, get, getThe, MonadStateOf.get, EStateM.get, FileSystem.remove?,
    h.devices.across.name name ho]
  cases s.devices.files.names.find? name with
  | none => exact .error hmoved
  | some id => exact .ok ⟨hmoved.descriptors, hmoved.devices.remove hm⟩

private theorem agree_moved (hcall : call ∈ CallNumber.onFiles)
    (h : Agree (Paired rel) (serve call q t) (serve call q t'))
    (hrel : ∀ s s', rel s s' → Desk.SameChange m o d d' s s') (hs : t.Sound others)
    (ht : t.desk.Grounded) :
    Agree (Paired (Desk.Moved m o d d')) (serve call q t) (serve call q t') := by
  have hany : Ensures (serve call q) t' (fun _ _ => True) (fun _ _ => True) :=
    ensures_intro (fun _ _ _ => trivial) fun _ _ _ => trivial
  apply h.ensures (serves_onFiles hcall q t hs) hany
  · intro result u u' hu hstays _
    exact hu.mono ((hrel _ _ hu.desk).moved (hstays.1.filesKept.grounded ht))
  · intro stop u u' hu hstays _
    exact hu.mono ((hrel _ _ hu.desk).moved (hstays.1.filesKept.grounded ht))

private theorem Paired.at_file (h : Paired (Desk.SameChange (t.footprint call q) o d d') t t')
    (hcall : call ∈ [.read, .write]) (ht : t.desk.Grounded) (hapart : (t.footprint call q).Apart o)
    (hconsole : ¬ t.UsesConsole call q) :
    Paired (Desk.SameChangeAt q.arg1.toInt (t.footprint call q) o d d') t t' := by
  refine h.mono ⟨h.desk, fun slot file hfind => ?_⟩
  rcases hsource : file.source with ⟨name, id, position⟩ | isOpen | isOpen
  · cases id with
    | none => trivial
    | some id =>
      have hid : (t.footprint call q).files id :=
        ⟨hcall, slot, file, hfind, congrArg Source.id? hsource⟩
      have hlt : id < t.kernel.machine.devices.files.files.length := footprint_lt ht hid
      exact ⟨hid, hapart.files id hid, h.desk.devices.count ▸ hlt⟩
  · exact hconsole ⟨hcall, slot, file, hfind, congrArg Source.ofConsole hsource⟩
  · exact hconsole ⟨hcall, slot, file, hfind, congrArg Source.ofConsole hsource⟩

/-- A call on files comes to the same before and after work on other names and other files. -/
theorem agree_serve_sameChange (hcall : call ∈ CallNumber.onFiles)
    (h : Paired (Desk.SameChange (t.footprint call q) o d d') t t') (hs : t.Sound others)
    (ht : t.desk.Grounded) (hapart : (t.footprint call q).Apart o)
    (hconsole : ¬ t.UsesConsole call q) :
    Agree (Paired (Desk.Moved (t.footprint call q) o d d')) (serve call q t) (serve call q t') := by
  have hnamed : ∀ name u, call ∈ [.create, .openFile, .unlink] →
      stringArgument q.arg1 t = .ok name u →
      (t.footprint call q).names name ∧ ¬ o.names name :=
    fun name u hcall hname => ⟨⟨hcall, u, hname⟩, hapart.names name ⟨hcall, u, hname⟩⟩
  have hfile : Parallel (Paired (Desk.SameChangeAt q.arg1.toInt (t.footprint call q) o d d'))
      (onDesk (Desk.file q.arg1.toInt)) :=
    parallel_atDesk (Desk.parallel_file (fun _ _ h => h.descriptors) _)
  simp only [CallNumber.onFiles, List.mem_cons, List.not_mem_nil, or_false] at hcall
  rcases hcall with rfl | rfl | rfl | rfl | rfl | rfl
  · apply agree_named h ht
    intro name u u' hname hground hu
    obtain ⟨hm, ho⟩ := hnamed name u (by decide) hname
    exact agree_onDesk hu (Desk.agree_openFile hu.desk hground hm ho true)
  · apply agree_named h ht
    intro name u u' hname hground hu
    obtain ⟨hm, ho⟩ := hnamed name u (by decide) hname
    exact agree_onDesk hu (Desk.agree_openFile hu.desk hground hm ho false)
  · have hread := parallel_readCall q hfile fun hfd n =>
      parallel_atDesk (Desk.parallel_onFile (Channel.parallel_read n) hfd)
    exact agree_moved (by decide) (hread t t' (h.at_file (by decide) ht hapart hconsole))
      (fun _ _ h => h.toSameChange) hs ht
  · have hwrite := parallel_writeCall q hfile fun hfd data =>
      parallel_atDesk (Desk.parallel_onFile (Channel.parallel_write data) hfd)
    exact agree_moved (by decide) (hwrite t t' (h.at_file (by decide) ht hapart hconsole))
      (fun _ _ h => h.toSameChange) hs ht
  · refine agree_moved (by decide) ?_ (fun _ _ h => h) hs ht
    exact parallel_closeCall q (parallel_atDesk (Desk.parallel_close _)) t t' h
  · apply agree_named h ht
    intro name u u' hname hground hu
    obtain ⟨hm, ho⟩ := hnamed name u (by decide) hname
    exact agree_onDesk hu (agree_remove hu.desk hground hm ho)

theorem ensures_attempt_serve (hcall : call ∈ CallNumber.onFiles) (hs : t.Sound others) :
    Ensures (attempt (serve call q)) t (fun _ t' => Stays (fun _ => True) t t')
      (fun _ _ => False) := by
  rw [ensures_attempt]
  apply (serves_onFiles hcall q t hs).mono
  · exact fun _ _ h => h.1
  · rintro _ t' ⟨h, error, rfl⟩
    exact h

/-- It reaches nothing on the devices but what it is about. -/
theorem exists_attempt_serve (hcall : call ∈ CallNumber.onFiles) (hs : t.Sound others)
    (ht : t.desk.Grounded) (hconsole : ¬ t.UsesConsole call q) : ∃ result t',
    attempt (serve call q) t = .ok result t' ∧ Stays (fun _ => True) t t' ∧
      (t.footprint call q).Covers t.kernel.machine.devices t'.kernel.machine.devices := by
  have hstays := ensures_attempt_serve (q := q) hcall hs
  -- The call does as much as it does itself, after no work at all.
  have hself : Paired (Desk.SameChange (t.footprint call q) .none t.desk.devices t.desk.devices) t t :=
    ⟨rfl, ⟨rfl, fun _ => rfl, hs.framed, hs.framed, hs.nodup, hs.nodup⟩, rfl,
      Devices.sameChange_start (.refl _ _)⟩
  have hagree := (agree_serve_sameChange hcall hself hs ht ⟨nofun, nofun⟩ hconsole).attempt
  rcases hrun : attempt (serve call q) t with ⟨result, t'⟩ | ⟨stop, t'⟩
  · obtain ⟨_, -, hmoved⟩ := hagree.of_ok hrun
    exact ⟨result, t', rfl, hstays.of_ok hrun, hmoved.desk.devices.own⟩
  · exact (hstays.of_error hrun).elim

end Turn

end PagedKernel

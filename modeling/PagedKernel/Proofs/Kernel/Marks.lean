import PagedKernel.Proofs.Kernel.Lives

/-!
# What the marks of a page tell

Program text is as it was loaded, and the marks of a page are exact: it is marked as written when a
byte was put there, the bytes of the arguments among them, and as used when an access went through
to it. Every process of a kernel has come to its pages in this way.
-/

namespace PagedKernel.World

open UserMemory

variable {allowed : Move → Prop} {w w' : World} {before after : List Process} {p q : Process}
variable {m : Move} {mapped loaded : UserMemory} {log : List Passage} {page a : Nat} {e : Entry}

private theorem exists_life_of_spawn {k k₀ : Kernel} {name : String} {args : List String} {pid : Pid}
    (hspawn : Kernel.spawn name args k₀ = .ok pid k) (hw : w.kernel.Sound w.running)
    (hq : q ∈ w.processes) (hnew : q ∈ k.ready) (hold : q ∉ k₀.ready)
    (hmemory : w.kernel.machine.memory = k.machine.memory) :
    ∃ mapped loaded log, Life mapped loaded w q log := by
  obtain ⟨p, r, machine, hload, hready, hmachine⟩ := Kernel.spawn_eq_ok hspawn
  rw [hready] at hnew
  obtain rfl : q = p := List.mem_singleton.1 ((List.mem_append.1 hnew).resolve_left hold)
  obtain ⟨mapped, log, hloads⟩ := Loader.exists_loads hload
  refine ⟨mapped, _, log, .born hw hq hloads rfl ?_⟩
  intro f _
  rw [hmemory, hmachine]

/-- A move leaves every process its life: the one that moves goes on with its own, a process that was
just taken up begins one, and to all others the move is something beside them. -/
theorem Acts.exists_life (hs : w.kernel.Sound w.running) (hacts : w.Acts before p after m w')
    (hlives : ∀ q ∈ w.processes, ∃ mapped loaded log, Life mapped loaded w q log)
    (hq : q ∈ w'.processes) : ∃ mapped loaded log, Life mapped loaded w' q log := by
  have hrunning := hacts.running_eq
  have hothers : q ∈ before ++ after ++ w.kernel.ready →
      ∃ mapped loaded log, Life mapped loaded w' q log := by
    intro hother
    obtain ⟨mapped, loaded, log, hlife⟩ := hlives q ((mem_processes_iff hrunning).2 (.inr hother))
    exact ⟨mapped, loaded, log, hlife.othersStep (.acted hother hacts)⟩
  have hs' := (hacts.moveOutcome hs).sound hs
  have hturn := sound_turn hs hrunning
  have hadds := Turn.ensures_run_adds hturn m
  cases hacts with
  | waits _ hrun => exact hlives q hq
  | @goesOn t _ hrun =>
    rcases (mem_processes_iff (w := ⟨t.kernel, _⟩) rfl).1 hq with rfl | hother
    · obtain ⟨mapped, loaded, log, hlife⟩ := hlives p ((mem_processes_iff hrunning).2 (.inl rfl))
      obtain ⟨log', hmakes⟩ := Turn.traced_run m ⟨w.kernel, p⟩
      exact ⟨mapped, loaded, _, hlife.moved hrunning hmakes hrun⟩
    · rcases List.mem_append.1 hother with hran | hready
      · exact hothers (List.mem_append_left _ hran)
      · by_cases hold : q ∈ w.kernel.ready
        · exact hothers (List.mem_append_right _ hold)
        · cases hadds.of_ok hrun with
          | none hsame => exact absurd (hsame ▸ hready) hold
          | one hspawn hmore hmemory =>
            exact exists_life_of_spawn hspawn hs' hq (hmore ▸ hready) hold hmemory
  | @stops t stop _ hrun hstop =>
    have hspares := ((Move.ensures_run hturn m).of_error hrun).1
    apply hothers
    rwa [processes, (hspares.sound.bury stop).ready, hadds.of_error hrun] at hq

private theorem Step.exists_life (hs : w.kernel.Sound w.running) (hstep : Step allowed w w')
    (hlives : ∀ q ∈ w.processes, ∃ mapped loaded log, Life mapped loaded w q log)
    (hq : q ∈ w'.processes) : ∃ mapped loaded log, Life mapped loaded w' q log := by
  have hs' := hstep.sound hs
  have hothers : q ∈ w.processes → OthersStep q w w' →
      ∃ mapped loaded log, Life mapped loaded w' q log := by
    intro hold h
    obtain ⟨mapped, loaded, log, hlife⟩ := hlives q hold
    exact ⟨mapped, loaded, log, hlife.othersStep h⟩
  cases hstep with
  | spawned hspawn =>
    by_cases hold : q ∈ w.processes
    · exact hothers hold (.spawned hold hspawn)
    · have hnew := (List.mem_append.1 hq).resolve_left fun h => hold (List.mem_append_left _ h)
      exact exists_life_of_spawn hspawn hs' hq hnew (fun h => hold (List.mem_append_right _ h)) rfl
  | notSpawned hspawn =>
    have hold : q ∈ w.processes := by
      rwa [processes, ((Kernel.ensures_spawn hs _ _).of_error hspawn).2.1.ready] at hq
    exact hothers hold (.notSpawned hold hspawn)
  | started hready =>
    obtain ⟨found, hfind, heq⟩ := Option.map_eq_some_iff.1 hready
    cases heq
    rcases List.mem_cons.1 hq with rfl | hother
    · have hmem := List.mem_append_right w.running (List.mem_of_find?_eq_some hfind)
      obtain ⟨mapped, loaded, log, hlife⟩ := hlives _ hmem
      exact ⟨mapped, loaded, log, hlife.started hready⟩
    · have hold : q ∈ w.processes :=
        List.mem_append.2 ((List.mem_append.1 hother).imp_right List.mem_of_mem_filter)
      exact hothers hold (.started hother hready)
  | acted hallowed hacts => exact hacts.exists_life hs hlives hq
  | changed devices =>
    have hold : q ∈ w.processes := hq
    exact hothers hold (.changed hold devices)

/-- Every process was loaded, and its pages have been reached by passages only. -/
theorem Reachable.exists_life (h : Reachable allowed w) :
    ∀ q ∈ w.processes, ∃ mapped loaded log, Life mapped loaded w q log := by
  induction h with
  | boot config devices => exact nofun
  | step hw hstep ih => exact fun q hq => hstep.exists_life hw.sound ih hq

private theorem Lived.nodup (h : Lived mapped loaded w p log) : mapped.table.mapped.Nodup := by
  rw [← PageTable.mapped_congr h.passed.mapping]
  exact (List.nodup_flatMap.1 h.sound.ledger.held_nodup).1 _ h.mem

private theorem Lived.entry (h : Lived mapped loaded w p log) (he : p.table.entries[page]? = some e) :
    ∃ e₀, mapped.table.entries[page]? = some e₀ ∧ e = e₀.noted log page ∧
      e₀.flags.used = false ∧ e₀.flags.dirty = false := by
  have hnoted := h.passed.entry page
  rw [memory, he] at hnoted
  obtain ⟨e₀, he₀, hnote⟩ := Option.map_eq_some_iff.1 hnoted.symm
  obtain ⟨hused, hdirty⟩ := h.unused e₀ (List.mem_iff_getElem?.2 ⟨page, he₀⟩)
  exact ⟨e₀, he₀, hnote.symm, hused, hdirty⟩

private theorem byte?_of_unwritten {m : UserMemory} (h : Passed log mapped m)
    (hn : mapped.table.mapped.Nodup) (hnone : ∀ q ∈ log, ¬ (q.access = .write ∧ q.page = page))
    (ha : a / pageSize = page) : m.byte? a = mapped.byte? a := by
  rw [h.byte hn]
  cases hstored : stored? log a with
  | none => rfl
  | some b =>
    obtain ⟨q, hq, hput⟩ := exists_put_of_stored? hstored
    obtain ⟨hwrite, hpage⟩ := (h.through q hq).page_of_put? hput
    exact absurd ⟨hwrite, hpage.trans ha⟩ (hnone q hq)

/-- Nothing goes through to a page that may not be written. -/
theorem Lived.not_written (h : Lived mapped loaded w p log)
    (he : p.table.entries[page]? = some e) (hr : e.flags.readOnly = true) :
    ∀ q ∈ log, ¬ (q.access = .write ∧ q.page = page) := by
  rintro q hq ⟨hwrite, rfl⟩
  obtain ⟨e₀, he₀, rfl, -, -⟩ := h.entry he
  have hpermitted := (h.passed.through q hq).permitted
  rw [hwrite, PageTable.permits_iff] at hpermitted
  obtain ⟨-, e₁, he₁, -, hwritable⟩ := hpermitted
  have hsame : e₁ = e₀ := Option.some.inj (he₁.symm.trans he₀)
  have hreadOnly : e₀.flags.readOnly = true := hr
  rw [hsame] at hwritable
  simp [PageTable.Entry.permits, hreadOnly] at hwritable

/-- Which pages are marked tells which passages there were. -/
theorem Lived.marks (h : Lived mapped loaded w p log) (he : p.table.entries[page]? = some e) :
    (e.flags.used = true ↔ ∃ q ∈ log, q.page = page) ∧
    (e.flags.dirty = true ↔ ∃ q ∈ log, q.access = .write ∧ q.page = page) := by
  obtain ⟨e₀, -, rfl, hused, hdirty⟩ := h.entry he
  simp [Entry.noted, hused, hdirty]

/-- A page that nothing was put to since it was mapped is as it was loaded. -/
theorem Lived.byte?_loaded (h : Lived mapped loaded w p log)
    (hnone : ∀ q ∈ log, ¬ (q.access = .write ∧ q.page = page)) (ha : a / pageSize = page) :
    w.byte? p a = loaded.byte? a := by
  obtain ⟨log₀, hearlier, hfirst⟩ := h.first
  have hnow : (w.memory p).byte? a = mapped.byte? a := byte?_of_unwritten h.passed h.nodup hnone ha
  have hthen : loaded.byte? a = mapped.byte? a :=
    byte?_of_unwritten hfirst h.nodup (fun q hq => hnone q (hearlier.subset hq)) ha
  exact hnow.trans hthen.symm

private theorem refuses_of_readOnly {t : PageTable} (he : t.entries[a / pageSize]? = some e)
    (hreadOnly : e.flags.readOnly = true) : ∃ cause, t.translateNat a .write = .error cause := by
  apply PageTable.translateNat_of_not_permits
  rw [Bool.eq_false_iff, Ne, PageTable.permits_iff]
  rintro ⟨-, e₁, he₁, -, hwritable⟩
  obtain rfl : e₁ = e := Option.some.inj (he₁.symm.trans he)
  simp [PageTable.Entry.permits, hreadOnly] at hwritable

private theorem reached_moveOut_of_refused {m : UserMemory} {cause : Exception} (length : Nat)
    (hrefused : m.table.translateNat a .read = .error cause) :
    reached (moveOut a length) m = m := by
  change (⟨(copyOut m.memory m.table (Span.ofRange a length)).table, m.memory⟩ : UserMemory) = m
  rcases Nat.eq_zero_or_pos length with rfl | hpos
  · rfl
  · rw [ofRange_head hpos]
    simp only [copyOut, hrefused]

/-- A copy to an address that is refused puts nothing and leaves no mark. -/
theorem reached_moveIn_of_refused {m : UserMemory} {cause : Exception} (data : Bytes)
    (hrefused : m.table.translateNat a .write = .error cause) :
    reached (moveIn a data.length data) m = m := by
  change (copyIn m (Span.ofRange a data.length) data).target = m
  rcases Nat.eq_zero_or_pos data.length with hzero | hpos
  · rw [hzero]
    rfl
  · rw [ofRange_head hpos]
    simp only [copyIn, hrefused]

/-- Over the life of a process, from the pages that were mapped for it: each byte is the one that a
write put there last, or the one that was there when the page was mapped, and every access that went
through was let through by the table. A page is marked as used when an access went through to it, and
as dirty when a byte was written there. A page that may not be written refuses it; its bytes, and
those of any page that is not dirty, are as they were loaded. A refused access changes nothing, and
neither does a check of a range. -/
theorem Life.marks_exact (h : Life mapped loaded w p log) :
    (∀ a, w.byte? p a = (stored? log a).or (mapped.byte? a)) ∧
    (∀ q ∈ log, q.Through p.table) ∧
    (∀ page e, p.table.entries[page]? = some e →
      (e.flags.used = true ↔ ∃ q ∈ log, q.page = page) ∧
      (e.flags.dirty = true ↔ ∃ q ∈ log, q.access = .write ∧ q.page = page) ∧
      (e.flags.readOnly = true → ∀ a, a / pageSize = page →
        ∃ cause, p.table.translateNat a .write = .error cause) ∧
      (e.flags.readOnly = true ∨ e.flags.dirty = false → ∀ a, a / pageSize = page →
        w.byte? p a = loaded.byte? a)) ∧
    (∀ a length cause, p.table.translateNat a .read = .error cause →
      reached (moveOut a length) (w.memory p) = w.memory p) ∧
    (∀ a data cause, p.table.translateNat a .write = .error cause →
      reached (moveIn a data.length data) (w.memory p) = w.memory p) ∧
    (∀ a length access, reached (checkRange a length access) (w.memory p) = w.memory p) ∧
    ∀ m : Move, ∃ log', Turn.Makes m.run ⟨w.kernel, p⟩ log' := by
  have hlived := h.lived
  have hmapping : p.table.mapping = mapped.table.mapping := hlived.passed.mapping
  refine ⟨hlived.passed.byte hlived.nodup, ?_, ?_, ?_, ?_, ?_, ?_⟩
  · intro q hq
    exact (hlived.passed.through q hq).congr hmapping.symm
  · intro page e he
    obtain ⟨hused, hdirty⟩ := hlived.marks he
    refine ⟨hused, hdirty, ?_, ?_⟩
    · rintro hreadOnly a rfl
      exact refuses_of_readOnly he hreadOnly
    · rintro (hreadOnly | hclean) a ha
      · exact hlived.byte?_loaded (hlived.not_written he hreadOnly) ha
      · refine hlived.byte?_loaded (fun q hq hwritten => ?_) ha
        rw [hdirty.2 ⟨q, hq, hwritten⟩] at hclean
        cases hclean
  · intro a length cause hrefused
    exact reached_moveOut_of_refused (m := w.memory p) length hrefused
  · intro a data cause hrefused
    exact reached_moveIn_of_refused (m := w.memory p) data hrefused
  · exact fun a length access => reached_checkRange a length access _
  · exact fun m => Turn.traced_run m _

theorem life_marks_exact_sample : ∃ (mapped loaded : UserMemory) (p : Process) (log : List Passage),
    Life mapped loaded sampleWorld p log ∧ (∃ q ∈ log, q.access = .write) ∧
    (∀ a, sampleWorld.byte? p a = (stored? log a).or (mapped.byte? a)) ∧
    (∀ q ∈ log, q.Through p.table) ∧
    ∀ page e, p.table.entries[page]? = some e →
      (e.flags.used = true ↔ ∃ q ∈ log, q.page = page) ∧
      (e.flags.dirty = true ↔ ∃ q ∈ log, q.access = .write ∧ q.page = page) ∧
      (e.flags.readOnly = true → ∀ a, a / pageSize = page →
        ∃ cause, p.table.translateNat a .write = .error cause) ∧
      (e.flags.readOnly = true ∨ e.flags.dirty = false → ∀ a, a / pageSize = page →
        sampleWorld.byte? p a = loaded.byte? a) := by
  have hreachable : Reachable (fun _ => True) sampleWorld := reachable_sampleWorld fun _ => trivial
  have hlength : sampleWorld.kernel.ready.length = 1 := by decide +kernel
  have hdirty : ∀ p ∈ sampleWorld.kernel.ready, ∃ e ∈ p.table.entries, e.flags.dirty = true := by
    decide +kernel
  obtain ⟨p, hready⟩ := List.length_eq_one_iff.1 hlength
  have hp : p ∈ sampleWorld.kernel.ready := hready ▸ List.mem_singleton_self p
  obtain ⟨mapped, loaded, log, hlife⟩ :=
    hreachable.exists_life p (List.mem_append_right _ hp)
  obtain ⟨hbyte, hthrough, hentry, -⟩ := hlife.marks_exact
  obtain ⟨e, he, hmarked⟩ := hdirty p hp
  obtain ⟨page, hpage⟩ := List.mem_iff_getElem?.1 he
  obtain ⟨q, hq, hwrite, -⟩ := (hentry page e hpage).2.1.1 hmarked
  exact ⟨mapped, loaded, p, log, hlife, ⟨q, hq, hwrite⟩, hbyte, hthrough, hentry⟩

end PagedKernel.World

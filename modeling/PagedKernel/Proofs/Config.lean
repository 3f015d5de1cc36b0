import PagedKernel.Config
import PagedKernel.Proofs.Text.Grammar

/-!
# What a configuration text says

A line is of no account, or gives a value for a key, or is refused. A text is refused for any of its
lines, and otherwise the last value that is given for a key holds.
-/

namespace PagedKernel.Config

open Text

variable {c c' : Config} {key key' : Key} {n : Nat}

def Key.name : Key → String
  | physPages => "Processor.numPhysPages"
  | stackPages => "Process.stackPages"
  | maxOpenFiles => "Process.maxOpenFiles"
  | maxStringLength => "Process.maxStringLength"

private theorem Key.ofName?_eq_some_iff {name : String} :
    ofName? name = some key ↔ name = key.name := by
  constructor
  · intro h
    unfold ofName? at h
    split_ifs at h with hphys hstack hfiles hstring <;> cases h
    exacts [hphys, hstack, hfiles, hstring]
  · rintro rfl
    cases key <;> rfl

def Key.setTo : Key → Nat → Nat
  | maxOpenFiles, n => max n 2
  | physPages, n | stackPages, n | maxStringLength, n => n

def value (c : Config) : Key → Nat
  | .physPages => c.physPages
  | .stackPages => c.stackPages
  | .maxOpenFiles => c.maxOpenFiles
  | .maxStringLength => c.maxStringLength

private theorem ext_value (h : ∀ key, c.value key = c'.value key) : c = c' := by
  obtain ⟨physPages, stackPages, maxOpenFiles, maxStringLength⟩ := c
  obtain rfl : physPages = _ := h .physPages
  obtain rfl : stackPages = _ := h .stackPages
  obtain rfl : maxOpenFiles = _ := h .maxOpenFiles
  obtain rfl : maxStringLength = _ := h .maxStringLength
  rfl

private theorem value_assign (c : Config) (key : Key) (n : Nat) (other : Key) :
    (c.assign key n).value other = if key = other then key.setTo n else c.value other := by
  cases key <;> cases other <;> rfl

private theorem setTo_value (h : 2 ≤ c.maxOpenFiles) (key : Key) :
    key.setTo (c.value key) = c.value key := by
  cases key with
  | maxOpenFiles => exact Nat.max_eq_left h
  | physPages | stackPages | maxStringLength => rfl

/-- What a line holds before its comment, without the white space around it. -/
def Body (row body : List Char) : Prop := ∃ kept, UpTo '#' row kept ∧ Trimmed kept body

/-- The line has a name before its first equals sign and a value behind it. -/
def Gives (row name value : List Char) : Prop :=
  ∃ before after, Body row (before ++ '=' :: after) ∧ '=' ∉ before ∧ Trimmed before name ∧
    Trimmed after value

/-- The line is one that is accepted. -/
def Sound (row : List Char) : Prop :=
  Body row [] ∨ ∃ name value, Gives row name value ∧
    ∀ key : Key, name = key.name.toList → ∃ n, Spells value n

/-- The line says nothing: it is blank, or a comment, or about something else. -/
def Idle (row : List Char) : Prop :=
  Body row [] ∨ ∃ name value, Gives row name value ∧ ∀ key : Key, name ≠ key.name.toList

def Assigns (row : List Char) (key : Key) (n : Nat) : Prop :=
  ∃ value, Gives row key.name.toList value ∧ Spells value n

def read (row : List Char) : Line := Line.ofContent (content row)

/-- What is read from a line, by what it says. -/
inductive Reads (row : List Char) : Line → Prop
  | blank (h : Body row []) : Reads row .blank
  | unknown {name value : List Char} (h : Gives row name value)
      (hname : ∀ key : Key, name ≠ key.name.toList) : Reads row (.unknown (String.ofList name))
  | assignment {key : Key} {n : Nat} (h : Assigns row key n) : Reads row (.assignment key n)
  | misspelt {key : Key} {value : List Char} (h : Gives row key.name.toList value)
      (hvalue : ∀ n, ¬ Spells value n) : Reads row .malformed
  | nothingGiven {body : List Char} (h : Body row body) (hne : body ≠ []) (hequals : '=' ∉ body) :
      Reads row .malformed

variable {row row' body name value : List Char} {line : Line} {rows rows' : List (List Char)}

private theorem body_iff : Body row body ↔ content row = body := by
  constructor
  · rintro ⟨kept, hkept, hbody⟩
    rw [content, hkept.takeWhile_eq, hbody.trim_eq]
  · rintro rfl
    exact ⟨_, upTo_takeWhile '#' row, trimmed_trim _⟩

private theorem Gives.unique {name' value' : List Char} (h : Gives row name value)
    (h' : Gives row name' value') : name = name' ∧ value = value' := by
  obtain ⟨before, after, hbody, hbefore, hname, hvalue⟩ := h
  obtain ⟨before', after', hbody', hbefore', hname', hvalue'⟩ := h'
  have hsame : before ++ '=' :: after = before' ++ '=' :: after' := by
    rw [← body_iff.1 hbody, body_iff.1 hbody']
  obtain rfl : before = before' := by
    rw [← takeWhile_ne_append hbefore after, hsame, takeWhile_ne_append hbefore']
  obtain rfl : after = after' := by simpa using hsame
  exact ⟨hname.trim_eq.symm.trans hname'.trim_eq, hvalue.trim_eq.symm.trans hvalue'.trim_eq⟩

private theorem Gives.read_eq (h : Gives row name value) : read row =
    (Key.ofName? (String.ofList name)).elim (.unknown (String.ofList name)) fun key =>
      (counter? value).elim .malformed fun n => .assignment key n := by
  obtain ⟨before, after, hbody, hbefore, hname, hvalue⟩ := h
  rw [read, body_iff.1 hbody, Line.ofContent, if_neg (by simp)]
  simp only [takeWhile_ne_append hbefore, dropWhile_ne_append hbefore, hname.trim_eq,
    hvalue.trim_eq]
  cases Key.ofName? (String.ofList name) with
  | none => rfl
  | some key => cases counter? value <;> rfl

private theorem exists_gives (h : '=' ∈ content row) : ∃ name value, Gives row name value := by
  obtain ⟨before, after, hbody, hbefore⟩ := List.eq_append_cons_of_mem h
  exact ⟨_, _, before, after, body_iff.2 hbody, hbefore, trimmed_trim _, trimmed_trim _⟩

private theorem ofName?_ofList :
    Key.ofName? (String.ofList name) = some key ↔ name = key.name.toList := by
  rw [Key.ofName?_eq_some_iff]
  constructor
  · intro h
    rw [← h, String.toList_ofList]
  · rintro rfl
    exact String.ofList_toList

private theorem Reads.read_eq (h : Reads row line) : read row = line := by
  cases h with
  | blank h =>
    rw [read, body_iff.1 h]
    rfl
  | unknown h hname =>
    rw [h.read_eq]
    cases hkey : Key.ofName? (String.ofList _) with
    | none => rfl
    | some key => exact absurd (ofName?_ofList.1 hkey) (hname key)
  | assignment h =>
    obtain ⟨value, hgives, hspells⟩ := h
    rw [hgives.read_eq, ofName?_ofList.2 rfl, Option.elim_some, spells_iff.1 hspells,
      Option.elim_some]
  | @misspelt key value h hvalue =>
    rw [h.read_eq, ofName?_ofList.2 rfl]
    cases hcounter : counter? value with
    | none => rfl
    | some n => exact absurd (spells_iff.2 hcounter) (hvalue n)
  | nothingGiven h hne hequals =>
    rw [read, body_iff.1 h, Line.ofContent, dropWhile_ne_eq_nil hequals, if_neg]
    rwa [List.isEmpty_iff]

private theorem exists_reads (row : List Char) : ∃ line, Reads row line := by
  by_cases hblank : content row = []
  · exact ⟨_, .blank (body_iff.2 hblank)⟩
  by_cases hequals : '=' ∈ content row
  · obtain ⟨name, value, hgives⟩ := exists_gives hequals
    by_cases hkey : ∃ key : Key, name = key.name.toList
    · obtain ⟨key, rfl⟩ := hkey
      by_cases hspells : ∃ n, Spells value n
      · obtain ⟨n, hn⟩ := hspells
        exact ⟨_, .assignment ⟨value, hgives, hn⟩⟩
      · exact ⟨_, .misspelt hgives (not_exists.1 hspells)⟩
    · exact ⟨_, .unknown hgives (not_exists.1 hkey)⟩
  · exact ⟨_, .nothingGiven (body_iff.2 rfl) hblank hequals⟩

private theorem reads_iff : Reads row line ↔ read row = line := by
  constructor
  · exact Reads.read_eq
  · rintro rfl
    obtain ⟨line, h⟩ := exists_reads row
    rwa [h.read_eq]

private theorem assigns_iff : Assigns row key n ↔ read row = .assignment key n := by
  rw [← reads_iff]
  constructor
  · exact .assignment
  · rintro ⟨⟩
    assumption

private theorem idle_iff : Idle row ↔ read row = .blank ∨ ∃ name, read row = .unknown name := by
  simp only [← reads_iff]
  constructor
  · rintro (h | ⟨name, value, h, hname⟩)
    · exact .inl (.blank h)
    · exact .inr ⟨_, .unknown h hname⟩
  · rintro (⟨⟨⟩⟩ | ⟨name, ⟨⟩⟩)
    · exact .inl ‹_›
    · exact .inr ⟨_, _, ‹_›, ‹_›⟩

private theorem sound_iff : Sound row ↔ read row ≠ .malformed := by
  constructor
  · rintro (h | ⟨name, value, h, hvalue⟩)
    · rw [(Reads.blank h).read_eq]
      exact nofun
    · by_cases hkey : ∃ key : Key, name = key.name.toList
      · obtain ⟨key, rfl⟩ := hkey
        obtain ⟨n, hn⟩ := hvalue key rfl
        rw [(Reads.assignment ⟨value, h, hn⟩).read_eq]
        exact nofun
      · rw [(Reads.unknown h (not_exists.1 hkey)).read_eq]
        exact nofun
  · intro hne
    obtain ⟨line, h⟩ := exists_reads row
    rw [h.read_eq] at hne
    cases h with
    | blank h => exact .inl h
    | unknown h hname => exact .inr ⟨_, _, h, fun key hkey => absurd hkey (hname key)⟩
    | assignment h =>
      obtain ⟨value, hgives, hspells⟩ := h
      exact .inr ⟨_, _, hgives, fun _ _ => ⟨_, hspells⟩⟩
    | misspelt | nothingGiven => exact absurd rfl hne

def Line.run (c : Config) : Line → Config
  | assignment key n => c.assign key n
  | blank | unknown _ | malformed => c

/-- A text is refused for any of its lines, and otherwise every line does what it says. -/
theorem applyLines_eq (c : Config) (ls : List Line) : applyLines c ls =
    if .malformed ∈ ls then .error .invalidArgument else .ok (ls.foldl Line.run c) := by
  induction ls generalizing c with
  | nil => rfl
  | cons line ls ih =>
    cases line with
    | malformed => rw [if_pos (List.mem_cons_self ..), applyLines]
    | blank | unknown | assignment =>
      rw [applyLines, ih]
      simp only [List.mem_cons, List.foldl_cons, Line.run, reduceCtorEq, false_or]

private theorem lines_eq_singleton (h : '\n' ∉ row) : lines row = [row] := by
  induction row with
  | nil => rfl
  | cons c row ih =>
    rw [List.mem_cons, not_or] at h
    rw [lines, if_neg (Ne.symm h.1), ih h.2]

private theorem lines_ne_nil (cs : List Char) : lines cs ≠ [] := by
  cases cs with
  | nil => exact List.cons_ne_nil _ _
  | cons c cs =>
    rw [lines]
    split
    · exact List.cons_ne_nil _ _
    · split <;> exact List.cons_ne_nil _ _

private theorem lines_append (cs cs' : List Char) :
    lines (cs ++ '\n' :: cs') = lines cs ++ lines cs' := by
  induction cs with
  | nil => rfl
  | cons c cs ih =>
    rw [List.cons_append, lines, lines, ih]
    split
    · rfl
    · obtain ⟨row, rest, hcs⟩ := List.exists_cons_of_ne_nil (lines_ne_nil cs)
      rw [hcs]
      rfl

private theorem read_return (row : List Char) : read (row ++ ['\r']) = read row := by
  obtain ⟨kept, hkept, hbody⟩ := body_iff.2 (rfl : content row = content row)
  rw [read, read]
  refine congrArg Line.ofContent (body_iff.1 ?_)
  cases hkept with
  | whole h =>
    obtain ⟨⟨before, after, hrow, hbefore, hafter⟩, hfirst, hlast⟩ := hbody
    refine ⟨_, .whole (by simpa using h), ⟨before, after ++ ['\r'], ?_, hbefore, ?_⟩, hfirst, hlast⟩
    · rw [← List.append_assoc, ← hrow]
    · exact List.forall_mem_append.2 ⟨hafter, List.forall_mem_singleton.2 rfl⟩
  | cut h rest =>
    rw [List.append_assoc]
    exact ⟨kept, .cut h (rest ++ ['\r']), hbody⟩

private theorem applyLines_rows {cs : List Char} (h : Rows cs rows) (c : Config) :
    applyLines c ((lines cs).map read) = applyLines c (rows.map read) := by
  have hstep : ∀ (line : Line) {ls ls' : List Line}, (∀ c, applyLines c ls = applyLines c ls') →
      ∀ c, applyLines c (line :: ls) = applyLines c (line :: ls') := by
    intro line ls ls' hls c
    cases line <;> simp only [applyLines, hls]
  induction h generalizing c with
  | nil => rfl
  | last hne hrow => rw [lines_eq_singleton hrow]
  | feed hrow hreturn hrest ih =>
    rw [lines_append, lines_eq_singleton hrow]
    exact hstep _ ih c
  | @returnFeed row rest rows hrow hrest ih =>
    have hmore : '\n' ∉ row ++ ['\r'] := by simpa using hrow
    rw [← List.singleton_append (l := '\n' :: rest), ← List.append_assoc, lines_append,
      lines_eq_singleton hmore, List.singleton_append, List.map_cons, List.map_cons, read_return]
    exact hstep _ ih c

private theorem ofText_eq {text : String} (h : Rows text.toList rows) :
    ofText text = applyLines {} (rows.map read) := applyLines_rows h {}

private theorem applyLines_eq_ok_iff : applyLines c (rows.map read) = .ok c' ↔
    (∀ row ∈ rows, Sound row) ∧ (rows.map read).foldl Line.run c = c' := by
  have hsound : (∀ row ∈ rows, Sound row) ↔ .malformed ∉ rows.map read := by
    simp only [sound_iff, List.mem_map, not_exists, not_and, ne_eq]
  rw [hsound, applyLines_eq]
  split
  · next h => exact ⟨nofun, fun hc => absurd h hc.1⟩
  · next h => rw [Except.ok.injEq, and_iff_right h]

private theorem applyLines_append {ls : List Line} (h : applyLines c ls = .ok c') (ls' : List Line) :
    applyLines c (ls ++ ls') = applyLines c' ls' := by
  induction ls generalizing c with
  | nil =>
    cases h
    rfl
  | cons line ls ih =>
    cases line with
    | malformed => cases h
    | blank | unknown => exact ih (c := c) h
    | assignment key n => exact ih (c := c.assign key n) h

private theorem error_of_applyLines {ls : List Line} {e : Errno} (h : applyLines c ls = .error e) :
    e = .invalidArgument := by
  rw [applyLines_eq] at h
  split at h
  · cases h
    rfl
  · cases h

/-- What a key is set to by lines: the last number that one of them assigns, or what it was set to
before. -/
inductive Settles (c : Config) (key : Key) : List (List Char) → Nat → Prop
  | never {rows : List (List Char)} (h : ∀ row ∈ rows, ∀ n, ¬ Assigns row key n) :
      Settles c key rows (c.value key)
  | last (before : List (List Char)) {row : List Char} {after : List (List Char)} {n : Nat}
      (hrow : Assigns row key n) (hafter : ∀ row ∈ after, ∀ n, ¬ Assigns row key n) :
      Settles c key (before ++ row :: after) (key.setTo n)

private theorem value_run (c : Config) (key : Key) (hrow : ∀ n, ¬ Assigns row key n) :
    (Line.run c (read row)).value key = c.value key := by
  cases hread : read row with
  | blank | unknown | malformed => rfl
  | assignment other n =>
    rw [Line.run, value_assign, if_neg]
    rintro rfl
    exact hrow n (assigns_iff.2 hread)

private theorem settles_foldl (c : Config) (key : Key) (rows : List (List Char)) :
    Settles c key rows (((rows.map read).foldl Line.run c).value key) := by
  induction rows generalizing c with
  | nil => exact .never nofun
  | cons row rows ih =>
    rw [List.map_cons, List.foldl_cons]
    have hrest := ih (Line.run c (read row))
    generalize ((rows.map read).foldl Line.run (Line.run c (read row))).value key = n at hrest ⊢
    -- The lines behind this one decide, unless none of them assigns the key.
    cases hrest with
    | last before hlast hafter => exact .last (row :: before) hlast hafter
    | never hnever =>
      by_cases hrow : ∃ n, Assigns row key n
      · obtain ⟨n, hn⟩ := hrow
        rw [assigns_iff.1 hn, Line.run, value_assign, if_pos rfl]
        exact .last [] hn hnever
      · rw [value_run c key (not_exists.1 hrow)]
        exact .never (List.forall_mem_cons.2 ⟨not_exists.1 hrow, hnever⟩)

/-- Lines that say nothing come and go, and neighbours that give different names change places. -/
inductive Rearranges : List (List Char) → List (List Char) → Prop
  | refl (rows : List (List Char)) : Rearranges rows rows
  | drop (before : List (List Char)) {row : List Char} (h : Idle row)
      (after : List (List Char)) : Rearranges (before ++ row :: after) (before ++ after)
  | swap (before : List (List Char)) {row row' name name' value value' : List Char}
      (h : Gives row name value) (h' : Gives row' name' value') (hne : name ≠ name')
      (after : List (List Char)) :
      Rearranges (before ++ row :: row' :: after) (before ++ row' :: row :: after)
  | symm {rows rows' : List (List Char)} (h : Rearranges rows rows') : Rearranges rows' rows
  | trans {rows rows' rows'' : List (List Char)} (h : Rearranges rows rows')
      (h' : Rearranges rows' rows'') : Rearranges rows rows''

private theorem assign_comm (hne : key ≠ key') (n n' : Nat) :
    (c.assign key n).assign key' n' = (c.assign key' n').assign key n := by
  cases key <;> cases key' <;> first | rfl | exact absurd rfl hne

private theorem Gives.name_eq (h : Gives row name value) (ha : read row = .assignment key n) :
    name = key.name.toList := by
  obtain ⟨_, hgives, -⟩ := assigns_iff.2 ha
  exact (h.unique hgives).1

private theorem run_comm {name' value' : List Char} (h : Gives row name value)
    (h' : Gives row' name' value') (hne : name ≠ name') (c : Config) :
    Line.run (Line.run c (read row)) (read row') =
      Line.run (Line.run c (read row')) (read row) := by
  cases hrow : read row with
  | blank | unknown | malformed => rfl
  | assignment key n =>
    cases hrow' : read row' with
    | blank | unknown | malformed => rfl
    | assignment key' n' =>
      refine assign_comm ?_ n n'
      rintro rfl
      exact hne ((h.name_eq hrow).trans (h'.name_eq hrow').symm)

private theorem Rearranges.applyLines_eq (h : Rearranges rows rows') (c : Config) :
    applyLines c (rows.map read) = applyLines c (rows'.map read) := by
  induction h with
  | refl => rfl
  | symm _ ih => exact ih.symm
  | trans _ _ ih ih' => exact ih.trans ih'
  | drop before h after =>
    simp only [Config.applyLines_eq, List.map_append, List.map_cons, List.mem_append,
      List.mem_cons, List.foldl_append, List.foldl_cons]
    rcases idle_iff.1 h with hread | ⟨name, hread⟩
    · simp only [hread, Line.run, reduceCtorEq, false_or]
    · simp only [hread, Line.run, reduceCtorEq, false_or]
  | @swap before row row' _ _ _ _ h h' hne after =>
    have hmem : Line.malformed ∈ (before ++ row :: row' :: after).map read ↔
        Line.malformed ∈ (before ++ row' :: row :: after).map read :=
      (((List.Perm.swap row' row after).append_left before).map read).mem_iff
    rw [Config.applyLines_eq, Config.applyLines_eq]
    simp only [hmem]
    simp only [List.map_append, List.map_cons, List.foldl_append, List.foldl_cons,
      run_comm h h' hne]

/-- The lines give nothing but the values of a configuration, and all of them. -/
structure GivenBy (c : Config) (rows : List (List Char)) : Prop where
  each : ∀ row ∈ rows, ∃ key, Assigns row key (c.value key)
  every : ∀ key, ∃ row ∈ rows, Assigns row key (c.value key)

private theorem Assigns.unique {n' : Nat} (h : Assigns row key n) (h' : Assigns row key' n') :
    key = key' ∧ n = n' := by
  rw [assigns_iff] at h h'
  rw [h] at h'
  cases h'
  exact ⟨rfl, rfl⟩

private theorem GivenBy.foldl_eq (h : c.GivenBy rows) (hfiles : 2 ≤ c.maxOpenFiles) (c' : Config) :
    (rows.map read).foldl Line.run c' = c := by
  apply ext_value
  intro key
  have hsettles := settles_foldl c' key rows
  generalize ((rows.map read).foldl Line.run c').value key = n at hsettles ⊢
  cases hsettles with
  | never hnever =>
    obtain ⟨row, hrow, hassigns⟩ := h.every key
    exact absurd hassigns (hnever row hrow _)
  | last before hrow hafter =>
    obtain ⟨other, hother⟩ := h.each _ (List.mem_append_right _ (List.mem_cons_self ..))
    obtain ⟨rfl, rfl⟩ := hrow.unique hother
    exact setTo_value hfiles key

private theorem GivenBy.sound (h : c.GivenBy rows) : ∀ row ∈ rows, Sound row := by
  intro row hrow
  obtain ⟨key, hassigns⟩ := h.each row hrow
  rw [sound_iff, assigns_iff.1 hassigns]
  exact nofun

private theorem GivenBy.applyLines_eq (h : c.GivenBy rows) (hfiles : 2 ≤ c.maxOpenFiles) (c' : Config) :
    applyLines c' (rows.map read) = .ok c :=
  applyLines_eq_ok_iff.2 ⟨h.sound, h.foldl_eq hfiles c'⟩

def Key.setting (key : Key) (n : Nat) : List Char :=
  key.name.toList ++ [' ', '=', ' '] ++ Nat.toDigits 10 n

private theorem isDigit_of_mem_toDigits {c : Char} (hc : c ∈ Nat.toDigits 10 n) : c.isDigit = true :=
  Nat.isDigit_of_mem_toDigits (by decide) (by decide) hc

private theorem ne_of_mem_setting {c : Char} (key : Key) (hc : c ∈ key.setting n) :
    c ≠ '\n' ∧ c ≠ '\r' ∧ c ≠ '#' := by
  have hname : (key.name.toList ++ [' ', '=', ' ']).all fun c =>
      decide (c ≠ '\n' ∧ c ≠ '\r' ∧ c ≠ '#') := by
    cases key <;> rfl
  rcases List.mem_append.1 hc with hfront | hdigits
  · exact of_decide_eq_true (List.all_eq_true.1 hname c hfront)
  · have hdigit := isDigit_of_mem_toDigits hdigits
    refine ⟨?_, ?_, ?_⟩ <;> (rintro rfl; revert hdigit; decide)

private theorem assigns_setting (key : Key) (hn : n < counterRange) :
    Assigns (key.setting n) key n := by
  have hplain : '#' ∉ key.setting n := fun h => (ne_of_mem_setting key h).2.2 rfl
  have hlast : (Nat.toDigits 10 n).getLast?.any isBlank = false :=
    any_isBlank_of_isDigit fun c hc => isDigit_of_mem_toDigits (List.mem_of_mem_getLast? hc)
  have hbody : Trimmed (key.setting n) (key.setting n) := by
    refine ⟨⟨[], [], (List.append_nil _).symm, nofun, nofun⟩, ?_, ?_⟩
    · have hhead : (key.setting n).head? = some 'P' := by cases key <;> rfl
      rw [hhead]
      rfl
    · rwa [Key.setting, List.getLast?_append,
        Option.or_of_isSome (List.getLast?_isSome.2 Nat.toDigits_ne_nil)]
  have hsplit : key.setting n =
      (key.name.toList ++ [' ']) ++ '=' :: (' ' :: Nat.toDigits 10 n) := by
    simp [Key.setting]
  have hname : Trimmed (key.name.toList ++ [' ']) key.name.toList := by
    refine ⟨⟨[], [' '], rfl, nofun, List.forall_mem_singleton.2 rfl⟩, ?_, ?_⟩ <;>
      cases key <;> rfl
  have hvalue : Trimmed (' ' :: Nat.toDigits 10 n) (Nat.toDigits 10 n) := by
    refine ⟨⟨[' '], [], (List.append_nil _).symm, List.forall_mem_singleton.2 rfl, nofun⟩, ?_, hlast⟩
    exact any_isBlank_of_isDigit fun c hc => isDigit_of_mem_toDigits (List.mem_of_mem_head? hc)
  have hequals : '=' ∉ key.name.toList ++ [' '] := by cases key <;> decide
  exact ⟨_, ⟨_, _, ⟨_, .whole hplain, hsplit ▸ hbody⟩, hequals, hname, hvalue⟩, Nat.toDigits 10 n,
    .inl rfl, Nat.toDigits_ne_nil, fun _ => isDigit_of_mem_toDigits,
    Nat.ofDigitChars_toDigits (by decide) (by decide), hn⟩

def Key.all : List Key := [physPages, stackPages, maxOpenFiles, maxStringLength]

def settings (c : Config) : List (List Char) := Key.all.map fun key => key.setting (c.value key)

def text (c : Config) : String := String.ofList (c.settings.flatMap fun row => row ++ ['\n'])

private theorem givenBy_settings (h : ∀ key, c.value key < counterRange) : c.GivenBy c.settings where
  each row hrow := by
    obtain ⟨key, -, rfl⟩ := List.mem_map.1 hrow
    exact ⟨key, assigns_setting key (h key)⟩
  every key := by
    have hkey : key ∈ Key.all := by cases key <;> decide
    exact ⟨_, List.mem_map_of_mem hkey, assigns_setting key (h key)⟩

private theorem rows_flatMap (h : ∀ row ∈ rows, '\n' ∉ row ∧ row.getLast? ≠ some '\r') :
    Rows (rows.flatMap fun row => row ++ ['\n']) rows := by
  induction rows with
  | nil => exact .nil
  | cons row rows ih =>
    obtain ⟨⟨hrow, hreturn⟩, hrest⟩ := List.forall_mem_cons.1 h
    rw [List.flatMap_cons, List.append_assoc]
    exact .feed hrow hreturn (ih hrest)

private theorem rows_text (c : Config) : Rows c.text.toList c.settings := by
  rw [text, String.toList_ofList]
  apply rows_flatMap
  intro row hrow
  obtain ⟨key, -, rfl⟩ := List.mem_map.1 hrow
  refine ⟨fun h => (ne_of_mem_setting key h).1 rfl, fun h => ?_⟩
  exact (ne_of_mem_setting key (List.mem_of_getLast? h)).2.1 rfl

/-- A text is accepted if each of its lines is, and refused in one way. Each key holds the last
number that is assigned to it, or the default. Lines that say nothing do not matter, and neither does
the order of lines that give different names. Lines behind an accepted text that give the values of
a configuration make the result that configuration. -/
theorem last_assignment_holds (text : String) :
    (∃ rows, Rows text.toList rows) ∧
    ∀ rows, Rows text.toList rows →
      ((∃ c, ofText text = .ok c) ↔ ∀ row ∈ rows, Sound row) ∧
      (∀ e, ofText text = .error e → e = .invalidArgument) ∧
      (∀ c, ofText text = .ok c → ∀ key, Settles {} key rows (c.value key)) ∧
      (∀ text' rows', Rows text'.toList rows' → Rearranges rows rows' →
        ofText text' = ofText text) ∧
      ∀ c c' : Config, ofText text = .ok c → 2 ≤ c'.maxOpenFiles →
        (∀ text' added, Rows text'.toList (rows ++ added) → c'.GivenBy added →
          ofText text' = .ok c') ∧
        ((∀ key, c'.value key < counterRange) →
          c'.settings.length = 4 ∧ ofText (text ++ "\n" ++ c'.text) = .ok c') := by
  refine ⟨exists_rows _, fun rows hrows => ⟨?_, fun e => error_of_applyLines, ?_, ?_, ?_⟩⟩
  · rw [ofText_eq hrows]
    simp only [applyLines_eq_ok_iff]
    exact ⟨fun ⟨_, hsound, _⟩ => hsound, fun hsound => ⟨_, hsound, rfl⟩⟩
  · intro c hc key
    rw [ofText_eq hrows, applyLines_eq_ok_iff] at hc
    rw [← hc.2]
    exact settles_foldl {} key rows
  · intro text' rows' hrows' harranged
    rw [ofText_eq hrows, ofText_eq hrows', harranged.applyLines_eq]
  · intro c c' hc hfiles
    constructor
    · intro text' added hadded hgiven
      rw [ofText_eq hrows] at hc
      rw [ofText_eq hadded, List.map_append, applyLines_append hc, hgiven.applyLines_eq hfiles]
    · intro hfit
      refine ⟨rfl, ?_⟩
      have hlist : (text ++ "\n" ++ c'.text).toList = text.toList ++ '\n' :: c'.text.toList := by
        simp
      rw [ofText] at hc ⊢
      rw [hlist, lines_append, List.map_append, applyLines_append hc]
      exact (applyLines_rows (rows_text c') c).trans
        ((givenBy_settings hfit).applyLines_eq hfiles c)

/-- What is behind a comment sign is no value, and nothing has to be a number for another key. -/
example : ofText "Process.stackPages = 4 # = 5\r\nElse = a = b\n# x\n\nProcess.stackPages=+07" =
    .ok { stackPages := 7 } := by
  decide

end PagedKernel.Config

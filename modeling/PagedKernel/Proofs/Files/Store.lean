import PagedKernel.Proofs.Files.Past

/-!
# Names, files and handles

A file system and the handles on it do what the past tells of them. Behind each call the names lead
to the files that they should, the files hold what was written to them, and every handle stands where
it was left.
-/

namespace PagedKernel

/-- A file system with all handles that were ever opened on it. -/
structure Store where
  devices : Devices := {}
  handles : List OpenFile := []

namespace Store

def onHandle {α : Type} (s : Store) (h : Nat) (x : EStateM Errno Channel α)
    (reply : Except Errno α → StoreReply) : StoreReply × Store :=
  match s.handles[h]? with
  | none => (.noHandle, s)
  | some file =>
    match x ⟨file, s.devices⟩ with
    | .ok a c => (reply (.ok a), ⟨c.devices, s.handles.set h c.file⟩)
    | .error e c => (reply (.error e), ⟨c.devices, s.handles.set h c.file⟩)

def serve (s : Store) : StoreCall → StoreReply × Store
  | .insert name data => (.done, { s with devices.files := s.devices.files.insert name data })
  | .openFile name create =>
    match s.devices.open? name create with
    | some (file, devices) => (.opened (some s.handles.length), ⟨devices, s.handles ++ [file]⟩)
    | none => (.opened none, s)
  | .remove name =>
    match s.devices.files.remove? name with
    | some files => (.found true, { s with devices.files := files })
    | none => (.found false, s)
  | .contents name => (.whole (s.devices.files.contents? name), s)
  | .openHandles => (.count (.ok s.devices.files.openHandles), s)
  | .read h length => s.onHandle h (Channel.read length) .data
  | .readAt h position length => s.onHandle h (Channel.readAt position length) .data
  | .write h data => s.onHandle h (Channel.write data) .count
  | .length h => s.onHandle h (return (← get).length) .count
  | .close h => s.onHandle h (modify Channel.close) fun _ => .done

end Store

namespace Past

variable {past : Past} {call : StoreCall} {reply : StoreReply} {name : String} {h f : Nat}

/-- Names lead to the files that the past tells of, and the files hold what it tells. -/
structure Arrays (past : Past) (fs : FileSystem) : Prop where
  count : past.made.length = fs.files.length
  bytes : ∀ {id f}, past.made[id]? = some f → fs.bytes id = past.bytes f
  name : ∀ name, past.led? name = (fs.names.find? name).bind fun id => past.made[id]?
  grounded : fs.Grounded

variable {fs : FileSystem} {entry : StoreCall × StoreReply}

private theorem Arrays.led?_eq_some {id : FileId} (ha : Arrays past fs)
    (hfind : fs.names.find? name = some id) :
    ∃ f, past.led? name = some f ∧ past.made[id]? = some f := by
  have hlt : id < past.made.length := ha.count ▸ ha.grounded name id hfind
  refine ⟨past.made[id], ?_, List.getElem?_eq_getElem hlt⟩
  rw [ha.name, hfind, Option.bind_some, List.getElem?_eq_getElem hlt]

private theorem Arrays.led?_eq_none (ha : Arrays past fs) (hfind : fs.names.find? name = none) :
    past.led? name = none := by
  rw [ha.name, hfind, Option.bind_none]

private theorem Arrays.contents (ha : Arrays past fs) (name : String) :
    (past.led? name).map (fun f => past.bytes f) = fs.contents? name := by
  rw [FileSystem.contents?]
  cases hfind : fs.names.find? name with
  | none => rw [ha.led?_eq_none hfind, Option.map_none, Option.map_none]
  | some id =>
    obtain ⟨f, hled, hid⟩ := ha.led?_eq_some hfind
    rw [hled, Option.map_some, Option.map_some, ha.bytes hid]

private theorem Arrays.insert (ha : Arrays past fs) {data : Bytes}
    (hmade : made (entry :: past) = past.made ++ [past.length])
    (hled : ∀ other, led? other (entry :: past) =
      if name = other then some past.length else past.led? other)
    (hbytes : ∀ f, Past.bytes f (entry :: past) =
      if past.length = f then data else past.bytes f) :
    Arrays (entry :: past) (fs.insert name data) where
  count := by simp [hmade, ha.count, FileSystem.insert]
  bytes := by
    intro id f hid
    rw [hbytes]
    simp only [hmade, FileSystem.bytes, FileSystem.insert, List.getElem?_append, ha.count] at hid ⊢
    split at hid
    · next hlt =>
      rw [if_pos hlt, if_neg (Nat.ne_of_gt (made_lt (List.mem_of_getElem? hid)))]
      exact ha.bytes hid
    · next hge =>
      obtain ⟨hzero, rfl⟩ : id - fs.files.length = 0 ∧ past.length = f := by
        simpa [List.getElem?_singleton] using hid
      rw [if_neg hge, if_pos rfl, hzero]
      rfl
  name := by
    intro other
    rw [hled, ha.name other, hmade]
    simp only [FileSystem.insert, Assoc.find?_insert]
    split
    · rw [Option.bind_some, ← ha.count, List.getElem?_concat_length]
    · cases hfind : fs.names.find? other with
      | none => rfl
      | some id =>
        rw [Option.bind_some, Option.bind_some,
          List.getElem?_append_left (by rw [ha.count]; exact ha.grounded other id hfind)]
  grounded := ha.grounded.insert name data

private theorem Arrays.create (ha : Arrays past fs) (hled : past.led? name = none) :
    Arrays ((.openFile name true, reply) :: past) (fs.insert name []) := by
  apply ha.insert
  · rw [made, if_pos hled]
  · intro other
    rw [led?, if_pos rfl]
    split
    · next heq => rw [← heq, hled, Option.none_or]
    · rfl
  · intro f
    change past.bytes f = _
    split
    · next heq => exact bytes_of_length_le (Nat.le_of_eq heq)
    · rfl

private theorem Arrays.remove (ha : Arrays past fs) (name : String) (found : Bool) :
    Arrays ((.remove name, .found found) :: past) { fs with names := fs.names.erase name } where
  count := ha.count
  bytes hid := ha.bytes hid
  name := by
    intro other
    rw [led?, ha.name other, Assoc.find?_erase]
    split
    · rfl
    · rfl
  grounded := by
    intro other id hid
    simp only [Assoc.find?_erase] at hid
    split at hid
    · cases hid
    · exact ha.grounded other id hid

private theorem Arrays.write {id : FileId} (ha : Arrays past fs) (hid : past.made[id]? = some f)
    (hbound : past.bound? h = some f) (hle : past.moved h ≤ (past.bytes f).length) (data : Bytes)
    (count : Nat) :
    Arrays ((.write h data, .count (.ok count)) :: past)
      (fs.setBytes id ((fs.bytes id).overwrite (past.moved h) data)) where
  count := ha.count.trans (fs.length_setBytes ..).symm
  bytes := by
    intro other g hother
    change past.made[other]? = some g at hother
    have hlt : id < fs.files.length := ha.count ▸ (List.getElem?_eq_some_iff.1 hid).1
    rw [FileSystem.bytes_setBytes, Past.bytes, hbound]
    by_cases heq : id = other
    · subst heq
      obtain rfl : f = g := Option.some.inj (hid.symm.trans hother)
      rw [if_pos ⟨rfl, hlt⟩, if_pos rfl, ha.bytes hid, Bytes.overwrite_of_le hle]
    · -- No file is made twice, so what is held elsewhere is another file.
      have hne : some f ≠ some g := by
        rintro ⟨⟩
        have hlt := (List.getElem?_eq_some_iff.1 hid).1
        exact heq ((List.getElem?_inj hlt (nodup_made past)).1 (hid.trans hother.symm))
      rw [if_neg hne, if_neg (fun h => heq h.1), ha.bytes hother]
  name := ha.name
  grounded name other hother := by
    rw [FileSystem.length_setBytes]
    exact ha.grounded name other hother

private theorem Arrays.keep (ha : Arrays past fs) (hmade : made (entry :: past) = past.made)
    (hled : ∀ name, led? name (entry :: past) = past.led? name)
    (hbytes : ∀ f, Past.bytes f (entry :: past) = past.bytes f) (openHandles : Nat) :
    Arrays (entry :: past) { fs with openHandles } where
  count := hmade ▸ ha.count
  bytes hid := by
    rw [hmade] at hid
    rw [hbytes]
    exact ha.bytes hid
  name name := by
    rw [hled, hmade]
    exact ha.name name
  grounded := ha.grounded

/-- An open handle stands where the past tells in its file, and a closed one is bound to nothing. -/
inductive Describes (past : Past) (h : Nat) : OpenFile → Prop
  | working {name : String} {id : FileId} {f : Nat} (hworks : past.Works h f)
      (hid : past.made[id]? = some f) :
      Describes past h ⟨.file name (some id) (past.moved h), {}⟩
  | closed {name : String} {position : Nat} (hclosed : past.closed h = true) :
      Describes past h ⟨.file name none position, {}⟩

variable {file : OpenFile} {handles : List OpenFile}

private theorem Describes.keep (hd : past.Describes h file)
    (hbound : bound? h (entry :: past) = past.bound? h)
    (hmoved : moved h (entry :: past) = past.moved h)
    (hclosed : Past.closed h (entry :: past) = past.closed h) :
    Describes (entry :: past) h file := by
  cases hd with
  | working hworks hid =>
    rw [← hmoved]
    exact .working ⟨hbound.trans hworks.1, hclosed.trans hworks.2⟩
      (getElem?_made_cons hid entry)
  | closed h => exact .closed (hclosed.trans h)

/-- The handles are those that were opened, each as the past describes it. -/
structure HandlesMatch (past : Past) (handles : List OpenFile) : Prop where
  opens : handles.length = past.opens
  handle : ∀ {h file}, handles[h]? = some file → past.Describes h file

private theorem HandlesMatch.keep (hh : HandlesMatch past handles)
    (hopens : Past.opens (entry :: past) = past.opens)
    (hbound : ∀ h, bound? h (entry :: past) = past.bound? h)
    (hmoved : ∀ h, moved h (entry :: past) = past.moved h)
    (hclosed : ∀ h, Past.closed h (entry :: past) = past.closed h) :
    HandlesMatch (entry :: past) handles where
  opens := hh.opens.trans hopens.symm
  handle hget := (hh.handle hget).keep (hbound _) (hmoved _) (hclosed _)

private theorem HandlesMatch.set (hh : HandlesMatch past handles)
    (hopens : Past.opens (entry :: past) = past.opens)
    (hfile : Describes (entry :: past) h file)
    (hbound : ∀ other, other ≠ h → bound? other (entry :: past) = past.bound? other)
    (hmoved : ∀ other, other ≠ h → moved other (entry :: past) = past.moved other)
    (hclosed : ∀ other, other ≠ h → Past.closed other (entry :: past) = past.closed other) :
    HandlesMatch (entry :: past) (handles.set h file) where
  opens := (List.length_set ..).trans (hh.opens.trans hopens.symm)
  handle {other file'} hget := by
    by_cases heq : h = other
    · subst heq
      rw [List.getElem?_set_self'] at hget
      obtain ⟨_, _, rfl⟩ := Option.map_eq_some_iff.1 hget
      exact hfile
    · rw [List.getElem?_set_ne heq] at hget
      exact (hh.handle hget).keep (hbound _ (Ne.symm heq)) (hmoved _ (Ne.symm heq))
        (hclosed _ (Ne.symm heq))

private theorem HandlesMatch.move {name : String} {id : FileId} {count : Nat}
    (hh : HandlesMatch past handles)
    (hworks : Works (entry :: past) h f) (hid : past.made[id]? = some f)
    (hopens : Past.opens (entry :: past) = past.opens)
    (hbound : ∀ other, bound? other (entry :: past) = past.bound? other)
    (hmoved : ∀ other, moved other (entry :: past) =
      if h = other then past.moved other + count else past.moved other)
    (hclosed : ∀ other, Past.closed other (entry :: past) = past.closed other) :
    HandlesMatch (entry :: past) (handles.set h ⟨.file name (some id) (past.moved h + count), {}⟩) := by
  refine hh.set hopens ?_ (fun _ _ => hbound _) (fun other hne => ?_) (fun _ _ => hclosed _)
  · have hself : past.moved h + count = moved h (entry :: past) := by rw [hmoved, if_pos rfl]
    rw [hself]
    exact .working hworks (getElem?_made_cons hid entry)
  · rw [hmoved, if_neg (Ne.symm hne)]

private theorem HandlesMatch.opened {create : Bool} {id : FileId} (hh : HandlesMatch past handles)
    (hright : past.Right)
    (hled : led? name ((.openFile name create, .opened (some past.opens)) :: past) = some f)
    (hid : (made ((.openFile name create, .opened (some past.opens)) :: past))[id]? = some f) :
    HandlesMatch ((.openFile name create, .opened (some past.opens)) :: past)
      (handles ++ [⟨.file name (some id) 0, {}⟩]) where
  opens := by
    rw [List.length_append, hh.opens]
    rfl
  handle {h file} hget := by
    rw [List.getElem?_append] at hget
    split at hget
    · next hlt =>
      apply (hh.handle hget).keep ?_ rfl rfl
      rw [bound?, if_neg]
      rw [hh.opens] at hlt
      exact Nat.ne_of_gt hlt
    · next hge =>
      rw [hh.opens] at hget hge
      obtain ⟨hzero, rfl⟩ : h - past.opens = 0 ∧ ⟨.file name (some id) 0, {}⟩ = file := by
        simpa [List.getElem?_singleton] using hget
      obtain rfl : h = past.opens := by omega
      obtain ⟨-, hmoved, hclosed⟩ := hright.fresh (Nat.le_refl _)
      have hworks : Works ((.openFile name create, .opened (some past.opens)) :: past)
          past.opens f := by
        refine ⟨?_, hclosed⟩
        rw [bound?, if_pos rfl, hled]
      have hd : Describes ((.openFile name create, .opened (some past.opens)) :: past) past.opens
          ⟨.file name (some id) (past.moved past.opens), {}⟩ := .working hworks hid
      rwa [hmoved] at hd

private theorem openCount_opened (hclosed : past.closed past.opens = false) (name : String)
    (create : Bool) :
    openCount ((.openFile name create, .opened (some past.opens)) :: past) =
      past.openCount + 1 := by
  change ((Finset.range (past.opens + 1)).filter fun h => past.closed h = false).card = _
  rw [Finset.range_add_one, Finset.filter_insert, if_pos hclosed, Finset.card_insert_of_notMem]
  · rfl
  · simp

private theorem openCount_closed (hh : h < past.opens) (hclosed : past.closed h = false) :
    openCount ((.close h, .done) :: past) = past.openCount - 1 := by
  have hmem : h ∈ (Finset.range past.opens).filter fun h => past.closed h = false :=
    Finset.mem_filter.2 ⟨Finset.mem_range.2 hh, hclosed⟩
  rw [openCount, openCount, ← Finset.card_erase_of_mem hmem]
  congr 1
  ext other
  simp only [closed, Finset.mem_filter, Finset.mem_erase, Finset.mem_range, opens,
    Bool.or_eq_false_iff, decide_eq_false_iff_not, ne_eq, eq_comm (a := h)]
  exact and_left_comm

structure Tells (past : Past) (s : Store) : Prop where
  arrays : past.Arrays s.devices.files
  handlesMatch : past.HandlesMatch s.handles
  openHandles : s.devices.files.openHandles = past.openCount

/-- All that is read off a past. -/
structure View where
  made : List Nat
  led? : String → Option Nat
  bytes : Nat → Bytes
  opens : Nat
  bound? : Nat → Option Nat
  moved : Nat → Nat
  closed : Nat → Bool

def view (past : Past) : View :=
  ⟨past.made, fun name => past.led? name, fun f => past.bytes f, past.opens,
    fun h => past.bound? h, fun h => past.moved h, fun h => past.closed h⟩

variable {s : Store} {α : Type}

private theorem Tells.idle (ht : past.Tells s) (h : view (entry :: past) = past.view) :
    Tells (entry :: past) s where
  arrays := ht.arrays.keep (congrArg View.made h) (congrFun (congrArg View.led? h))
    (congrFun (congrArg View.bytes h)) _
  handlesMatch := ht.handlesMatch.keep (congrArg View.opens h) (congrFun (congrArg View.bound? h))
    (congrFun (congrArg View.moved h)) (congrFun (congrArg View.closed h))
  openHandles := by
    have hopens : opens (entry :: past) = past.opens := congrArg View.opens h
    have hclosed : ∀ h, closed h (entry :: past) = past.closed h :=
      congrFun (congrArg View.closed h)
    rw [ht.openHandles, openCount, openCount, hopens]
    simp only [hclosed]

def Serves (past : Past) (call : StoreCall) (result : StoreReply × Store) : Prop :=
  past.Answers call result.1 ∧ Tells ((call, result.1) :: past) result.2

private theorem Tells.serve_open (ht : past.Tells s) (hright : past.Right) (name : String)
    (create : Bool) : past.Serves (.openFile name create) (s.serve (.openFile name create)) := by
  obtain ⟨harrays, hhands, hcount⟩ := ht
  have hclosed : past.closed past.opens = false := (hright.fresh (Nat.le_refl _)).2.2
  simp only [Store.serve, Devices.open?, FileSystem.open?]
  cases hfind : s.devices.files.names.find? name with
  | some id =>
    obtain ⟨f, hled, hid⟩ := harrays.led?_eq_some hfind
    have hsome : (past.led? name).isSome ∨ create = false := .inl (hled ▸ rfl)
    simp only [Option.map_some, hhands.opens]
    refine ⟨.opened (.inl (hled ▸ rfl)), ?_, ?_, ?_⟩
    · exact harrays.keep (made_openFile hsome) (led?_openFile hsome) (fun _ => rfl) _
    · exact hhands.opened hright ((led?_openFile hsome name).trans hled)
        (getElem?_made_cons hid _)
    · rw [openCount_opened hclosed, ← hcount]
  | none =>
    have hled := harrays.led?_eq_none hfind
    cases create with
    | false =>
      refine ⟨.notOpened hled, Tells.idle ⟨harrays, hhands, hcount⟩ ?_⟩
      rw [view, view, funext (led?_openFile (.inr rfl))]
      rfl
    | true =>
      simp only [if_true, Option.map_some, hhands.opens]
      have hcreate : Arrays ((.openFile name true, .opened (some past.opens)) :: past) _ :=
        harrays.create hled
      refine ⟨.opened (.inr rfl), ?_, ?_, ?_⟩
      · exact ⟨hcreate.count, hcreate.bytes, hcreate.name, hcreate.grounded⟩
      · apply hhands.opened hright (f := past.length)
        · rw [led?, if_pos rfl, hled, if_pos rfl, Option.none_or]
        · rw [made, if_pos hled, ← harrays.count, List.getElem?_concat_length]
      · rw [openCount_opened hclosed, ← hcount]

private theorem Tells.onHandle (ht : past.Tells s) (hcall : call.handle? = some h)
    {x : EStateM Errno Channel α} {replyOf : Except Errno α → StoreReply}
    (hfile : ∀ file, past.Describes h file → s.handles[h]? = some file →
      past.Serves call (match x ⟨file, s.devices⟩ with
        | .ok a c => (replyOf (.ok a), ⟨c.devices, s.handles.set h c.file⟩)
        | .error e c => (replyOf (.error e), ⟨c.devices, s.handles.set h c.file⟩))) :
    past.Serves call (s.onHandle h x replyOf) := by
  unfold Store.onHandle
  split
  · next hnone =>
    have hle : past.opens ≤ h := ht.handlesMatch.opens ▸ List.getElem?_eq_none_iff.1 hnone
    refine ⟨.noHandle hcall hle, ht.idle ?_⟩
    cases call with
    | insert | openFile | remove | contents | openHandles => cases hcall
    | read | readAt | write | length | close => rfl
  · next file hget => exact hfile file (ht.handlesMatch.handle hget) hget

private theorem Tells.idle_set (ht : past.Tells s) (hget : s.handles[h]? = some file)
    (hview : view (entry :: past) = past.view) :
    Tells (entry :: past) ⟨s.devices, s.handles.set h file⟩ := by
  obtain ⟨hlt, hfile⟩ := List.getElem?_eq_some_iff.1 hget
  rw [← hfile, List.set_getElem_self]
  exact ht.idle hview

private theorem Tells.serve_read (ht : past.Tells s) (h length : Nat) :
    past.Serves (.read h length) (s.serve (.read h length)) := by
  apply ht.onHandle rfl
  intro file hd hget
  cases hd with
  | closed hclosed => exact ⟨.readClosed hclosed length, ht.idle_set hget rfl⟩
  | @working name id f hworks hid =>
    let data : Bytes := (s.devices.files.bytes id).slice (past.moved h) length
    change past.Serves (.read h length) (.data (.ok data),
      ⟨s.devices, s.handles.set h ⟨.file name (some id) (past.moved h + data.length), {}⟩⟩)
    refine ⟨?_, ?_, ?_, ht.openHandles⟩
    · have hread := Answers.read hworks length
      rw [← ht.arrays.bytes hid] at hread
      exact hread
    · exact ht.arrays.keep rfl (fun _ => rfl) (fun _ => rfl) _
    · exact ht.handlesMatch.move hworks hid rfl (fun _ => rfl) (fun _ => rfl) (fun _ => rfl)

private theorem Tells.serve_readAt (ht : past.Tells s) (h position length : Nat) :
    past.Serves (.readAt h position length) (s.serve (.readAt h position length)) := by
  apply ht.onHandle rfl
  intro file hd hget
  cases hd with
  | closed hclosed => exact ⟨.readAtClosed hclosed position length, ht.idle_set hget rfl⟩
  | working hworks hid =>
    refine ⟨?_, ht.idle_set hget rfl⟩
    have hread := Answers.readAt hworks position length
    rw [← ht.arrays.bytes hid] at hread
    exact hread

private theorem Tells.serve_length (ht : past.Tells s) (h : Nat) :
    past.Serves (.length h) (s.serve (.length h)) := by
  apply ht.onHandle rfl
  intro file hd hget
  cases hd with
  | closed hclosed => exact ⟨.lengthClosed hclosed, ht.idle_set hget rfl⟩
  | working hworks hid =>
    refine ⟨?_, ht.idle_set hget rfl⟩
    have hlength := Answers.length hworks
    rw [← ht.arrays.bytes hid] at hlength
    exact hlength

private theorem Tells.serve_write (ht : past.Tells s) (hright : past.Right) (h : Nat) (data : Bytes) :
    past.Serves (.write h data) (s.serve (.write h data)) := by
  apply ht.onHandle rfl
  intro file hd hget
  cases hd with
  | closed hclosed => exact ⟨.writeClosed hclosed data, ht.idle_set hget rfl⟩
  | @working name id f hworks hid =>
    let contents : Bytes := (s.devices.files.bytes id).overwrite (past.moved h) data
    have hwrite : Channel.write data ⟨⟨.file name (some id) (past.moved h), {}⟩, s.devices⟩ =
        .ok data.length ⟨⟨.file name (some id) (past.moved h + data.length), {}⟩,
          { s.devices with files := s.devices.files.setBytes id contents }⟩ := by
      have hsent : data.take (OpenFile.within data.length none) = data := List.take_length
      have heq := Channel.write_eq (c := ⟨⟨.file name (some id) (past.moved h), {}⟩, s.devices⟩)
        nofun rfl data
      simp only [hsent] at heq
      exact heq
    rw [hwrite]
    change past.Serves (.write h data) (.count (.ok data.length),
      ⟨{ s.devices with files := s.devices.files.setBytes id contents },
        s.handles.set h ⟨.file name (some id) (past.moved h + data.length), {}⟩⟩)
    refine ⟨.write hworks data, ?_, ?_, ht.openHandles⟩
    · exact ht.arrays.write hid hworks.1 (hright.within hworks.1) data data.length
    · exact ht.handlesMatch.move hworks hid rfl (fun _ => rfl) (fun _ => rfl) (fun _ => rfl)

private theorem Tells.serve_close (ht : past.Tells s) (h : Nat) :
    past.Serves (.close h) (s.serve (.close h)) := by
  apply ht.onHandle rfl
  intro file hd hget
  have hlt : h < past.opens := ht.handlesMatch.opens ▸ (List.getElem?_eq_some_iff.1 hget).1
  cases hd with
  | @closed name position hclosed =>
    change past.Serves (.close h)
      (.done, ⟨s.devices, s.handles.set h ⟨.file name none position, {}⟩⟩)
    have hsame : ∀ other, closed other ((.close h, .done) :: past) = past.closed other := by
      intro other
      rw [closed, Bool.or_eq_right_iff_imp, decide_eq_true_iff]
      rintro rfl
      exact hclosed
    refine ⟨.close hlt, ht.idle_set hget ?_⟩
    rw [view, view, funext hsame]
    rfl
  | @working name id f hworks hid =>
    change past.Serves (.close h)
      (.done, ⟨{ s.devices with files := s.devices.files.closed },
        s.handles.set h ⟨.file name none (past.moved h), {}⟩⟩)
    refine ⟨.close hlt, ht.arrays.keep rfl (fun _ => rfl) (fun _ => rfl) _, ?_, ?_⟩
    · refine ht.handlesMatch.set rfl (.closed ?_) (fun _ _ => rfl) (fun _ _ => rfl) ?_
      · rw [Past.closed, decide_eq_true rfl, Bool.true_or]
      · intro other hne
        rw [Past.closed, decide_eq_false (Ne.symm hne), Bool.false_or]
    · rw [openCount_closed hlt hworks.2, ← ht.openHandles]
      rfl

private theorem Tells.serve_remove (ht : past.Tells s) (name : String) :
    past.Serves (.remove name) (s.serve (.remove name)) := by
  have hremove : past.Answers (.remove name) (.found (past.led? name).isSome) := .remove name
  simp only [Store.serve, FileSystem.remove?]
  cases hfind : s.devices.files.names.find? name with
  | none =>
    have hled := ht.arrays.led?_eq_none hfind
    rw [hled] at hremove
    change past.Serves (.remove name) (.found false, s)
    refine ⟨hremove, ht.idle ?_⟩
    have hsame : ∀ other, led? other ((.remove name, .found false) :: past) =
        past.led? other := by
      intro other
      rw [led?]
      split
      · next heq => rw [← heq, hled]
      · rfl
    rw [view, view, funext hsame]
    rfl
  | some id =>
    obtain ⟨f, hled, -⟩ := ht.arrays.led?_eq_some hfind
    rw [hled] at hremove
    exact ⟨hremove, ht.arrays.remove name true,
      ht.handlesMatch.keep rfl (fun _ => rfl) (fun _ => rfl) (fun _ => rfl), ht.openHandles⟩

/-- Each call is answered as the past tells, and what comes of it is told by the longer past. -/
theorem Tells.serve (ht : past.Tells s) (hright : past.Right) (call : StoreCall) :
    past.Serves call (s.serve call) := by
  cases call with
  | insert name data =>
    refine ⟨.insert name data, ?_, ?_, ht.openHandles⟩
    · exact ht.arrays.insert rfl (fun _ => rfl) (fun _ => rfl)
    · exact ht.handlesMatch.keep rfl (fun _ => rfl) (fun _ => rfl) (fun _ => rfl)
  | openFile name create => exact ht.serve_open hright name create
  | remove name => exact ht.serve_remove name
  | contents name =>
    refine ⟨?_, ht.idle rfl⟩
    rw [Store.serve, ← ht.arrays.contents]
    exact .contents name
  | openHandles =>
    refine ⟨?_, ht.idle rfl⟩
    rw [Store.serve, ht.openHandles]
    exact .openHandles
  | read h length => exact ht.serve_read h length
  | readAt h position length => exact ht.serve_readAt h position length
  | write h data => exact ht.serve_write hright h data
  | length h => exact ht.serve_length h
  | close h => exact ht.serve_close h

private theorem Tells.placed (ht : past.Tells s) (hright : past.Right) (hfile : file ∈ s.handles) :
    file.source.Placed s.devices.files := by
  obtain ⟨h, hget⟩ := List.mem_iff_getElem?.1 hfile
  cases ht.handlesMatch.handle hget with
  | closed => exact trivial
  | working hworks hid =>
    refine ⟨ht.arrays.count ▸ (List.getElem?_eq_some_iff.1 hid).1, ?_⟩
    rw [ht.arrays.bytes hid]
    exact hright.within hworks.1

private theorem tells_nil : Tells [] {} where
  arrays := ⟨rfl, nofun, fun _ => rfl, FileSystem.grounded_empty⟩
  handlesMatch := ⟨rfl, nofun⟩
  openHandles := rfl

end Past

namespace Store

def record (run : Past × Store) (call : StoreCall) : Past × Store :=
  let (reply, s) := run.2.serve call
  ((call, reply) :: run.1, s)

def recordAll (run : Past × Store) (calls : List StoreCall) : Past × Store :=
  calls.foldl record run

private theorem tells_recordAll (run : Past × Store) (hright : run.1.Right) (ht : run.1.Tells run.2)
    (calls : List StoreCall) :
    (recordAll run calls).1.Right ∧ (recordAll run calls).1.Tells (recordAll run calls).2 := by
  induction calls generalizing run with
  | nil => exact ⟨hright, ht⟩
  | cons call calls ih =>
    obtain ⟨ha, hnext⟩ := ht.serve hright call
    exact ih (record run call) (hright.cons ha) hnext

/-- What is on record stays there, behind what is done later. -/
theorem exists_append_recordAll (run : Past × Store) (calls : List StoreCall) :
    ∃ more : Past, (recordAll run calls).1 = more ++ run.1 ∧
      more.map Prod.fst = calls.reverse := by
  induction calls generalizing run with
  | nil => exact ⟨[], rfl, rfl⟩
  | cons call calls ih =>
    obtain ⟨more, hmore, hcalls⟩ := ih (record run call)
    refine ⟨more ++ [(call, (run.2.serve call).1)], ?_, ?_⟩
    · rw [List.append_assoc]
      exact hmore
    · rw [List.map_append, hcalls, List.reverse_cons]
      rfl

private theorem bound?_recordAll {h f : Nat} (run : Past × Store) (hright : run.1.Right)
    (ht : run.1.Tells run.2) (hbound : run.1.bound? h = some f) (calls : List StoreCall) :
    (recordAll run calls).1.bound? h = some f := by
  induction calls generalizing run with
  | nil => exact hbound
  | cons call calls ih =>
    obtain ⟨ha, hnext⟩ := ht.serve hright call
    exact ih (record run call) (hright.cons ha) hnext (hright.bound?_cons ha hbound)

/-- Whatever is done to an empty file system and the handles on it, each call has one right answer,
by what was done before, and that is the answer it gets. As many files are open as handles were
opened and not closed, however often one is closed. No handle is past the end of its file. A handle
stays with the file that it was opened on, whatever becomes of the name. A name that leads elsewhere
never leads back to a file, and a file is changed only by writing through a handle on it. -/
theorem names_apart_from_contents (calls more : List StoreCall) :
    let past : Past := (recordAll ([], {}) calls).1
    let s : Store := (recordAll ([], {}) calls).2
    let later : Past := (recordAll ([], {}) (calls ++ more)).1
    past.map Prod.fst = calls.reverse ∧
    (∀ call reply, past.Answers call reply ↔ reply = (s.serve call).1) ∧
    s.devices.files.openHandles = past.openCount ∧
    (∀ file ∈ s.handles, file.source.Placed s.devices.files) ∧
    (∀ h f, past.bound? h = some f →
      f < past.length ∧ past.moved h ≤ (past.bytes f).length ∧ later.bound? h = some f) ∧
    (∀ name f, f < past.length → past.led? name ≠ some f → later.led? name ≠ some f) ∧
    ∀ f call reply, f < past.length → Past.bytes f ((call, reply) :: past) ≠ past.bytes f →
      ∃ h data, call = .write h data ∧ past.bound? h = some f := by
  intro past s later
  obtain ⟨hright, ht⟩ : past.Right ∧ past.Tells s := tells_recordAll ([], {}) .nil Past.tells_nil calls
  have hlater : later = (recordAll (past, s) more).1 :=
    congrArg Prod.fst (List.foldl_append ..)
  refine ⟨?_, fun call reply => ⟨?_, ?_⟩, ht.openHandles, fun file => ht.placed hright, ?_, ?_, ?_⟩
  · obtain ⟨done, hdone, hcalls⟩ := exists_append_recordAll ([], {}) calls
    rw [List.append_nil] at hdone
    change List.map _ (recordAll ([], {}) calls).1 = _
    rw [hdone, hcalls]
  · exact fun ha => hright.unique ha (ht.serve hright call).1
  · rintro rfl
    exact (ht.serve hright call).1
  · intro h f hbound
    refine ⟨Past.bound?_lt hbound, hright.within hbound, ?_⟩
    rw [hlater]
    exact bound?_recordAll (past, s) hright ht hbound more
  · intro name f hf hled
    obtain ⟨done, hdone, -⟩ := exists_append_recordAll (past, s) more
    rw [hlater, hdone]
    exact Past.led?_ne_append hf hled done
  · exact fun f call reply => Past.written_of_bytes_ne

/-- A handle outlives the name of its file, and what is made under that name is another file. -/
example : (recordAll ([], {}) [.insert "a" [1, 2], .openFile "a" false, .remove "a",
      .openFile "a" true, .write 0 [9], .contents "a", .readAt 0 0 8, .close 0, .close 0,
      .openHandles]).1.map Prod.snd =
    [.count (.ok 1), .done, .done, .data (.ok [9, 2]), .whole (some []), .count (.ok 1),
      .opened (some 1), .found true, .opened (some 0), .done] := by
  decide

end Store

end PagedKernel

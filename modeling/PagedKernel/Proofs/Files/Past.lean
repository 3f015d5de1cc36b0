import Mathlib.Data.Finset.Card
import PagedKernel.Proofs.Files.Stream

/-!
# What was done with files

What was done to a file system, and what it answered, determines every later answer. The past tells
which file a name leads to, which file a handle was opened on, how far the handle has moved, and what
was written to each file through all handles on it. Names come and go, and a handle stays with its
file.
-/

namespace PagedKernel

/-- What can be done to a file system and to the handles on its files. Handles are numbered in the
order in which they were opened. -/
inductive StoreCall where
  | insert (name : String) (data : Bytes)
  | openFile (name : String) (create : Bool)
  | remove (name : String)
  | contents (name : String)
  | openHandles
  | read (handle length : Nat)
  | readAt (handle position length : Nat)
  | write (handle : Nat) (data : Bytes)
  | length (handle : Nat)
  | close (handle : Nat)
deriving DecidableEq, Repr

def StoreCall.handle? : StoreCall → Option Nat
  | read h _ | readAt h _ _ | write h _ | length h | close h => some h
  | insert _ _ | openFile _ _ | remove _ | contents _ | openHandles => none

inductive StoreReply where
  | done
  | opened (handle : Option Nat)
  | found (whether : Bool)
  | whole (contents : Option Bytes)
  | data (result : Except Errno Bytes)
  | count (result : Except Errno Nat)
  | noHandle
deriving DecidableEq

abbrev Past : Type := List (StoreCall × StoreReply)

namespace Past

/-- The file that a name leads to. A file is known by the number of calls before the one that made
it. -/
def led? (name : String) : Past → Option Nat
  | [] => none
  | (.insert other _, _) :: past =>
    if other = name then some past.length else led? name past
  | (.openFile other create, _) :: past =>
    if other = name then (led? name past).or (if create then some past.length else none)
    else led? name past
  | (.remove other, _) :: past => if other = name then none else led? name past
  | _ :: past => led? name past

/-- The file that a handle was opened on: the one that the name led to then. -/
def bound? (h : Nat) : Past → Option Nat
  | [] => none
  | (.openFile name create, .opened (some other)) :: past =>
    if other = h then led? name ((.openFile name create, .opened (some other)) :: past)
    else bound? h past
  | _ :: past => bound? h past

def moved (h : Nat) : Past → Nat
  | [] => 0
  | (.read other _, .data (.ok data)) :: past =>
    if other = h then moved h past + data.length else moved h past
  | (.write other _, .count (.ok count)) :: past =>
    if other = h then moved h past + count else moved h past
  | _ :: past => moved h past

/-- What a file holds: the data that it was made with, and over it all that was written through the
handles on it, each piece where its handle stood. -/
def bytes (file : Nat) : Past → Bytes
  | [] => []
  | (.insert _ data, _) :: past => if past.length = file then data else bytes file past
  | (.write h data, .count (.ok _)) :: past =>
    if bound? h past = some file then
      (bytes file past).take (moved h past) ++ data ++
        (bytes file past).drop (moved h past + data.length)
    else bytes file past
  | _ :: past => bytes file past

def opens : Past → Nat
  | [] => 0
  | (.openFile _ _, .opened (some _)) :: past => opens past + 1
  | _ :: past => opens past

def closed (h : Nat) : Past → Bool
  | [] => false
  | (.close other, .done) :: past => other = h || closed h past
  | _ :: past => closed h past

def openCount (past : Past) : Nat :=
  ((Finset.range past.opens).filter fun h => past.closed h = false).card

def Works (past : Past) (h file : Nat) : Prop :=
  past.bound? h = some file ∧ past.closed h = false

/-- What is answered behind a past. -/
inductive Answers (past : Past) : StoreCall → StoreReply → Prop
  | insert (name : String) (data : Bytes) : Answers past (.insert name data) .done
  | opened {name : String} {create : Bool} (h : (past.led? name).isSome ∨ create = true) :
      Answers past (.openFile name create) (.opened (some past.opens))
  | notOpened {name : String} (h : past.led? name = none) :
      Answers past (.openFile name false) (.opened none)
  | remove (name : String) : Answers past (.remove name) (.found (past.led? name).isSome)
  | contents (name : String) :
      Answers past (.contents name) (.whole ((past.led? name).map fun file => past.bytes file))
  | openHandles : Answers past .openHandles (.count (.ok past.openCount))
  | noHandle {call : StoreCall} {h : Nat} (hcall : call.handle? = some h) (hh : past.opens ≤ h) :
      Answers past call .noHandle
  | read {h file : Nat} (hh : past.Works h file) (length : Nat) :
      Answers past (.read h length)
        (.data (.ok ((past.bytes file).slice (past.moved h) length)))
  | readAt {h file : Nat} (hh : past.Works h file) (position length : Nat) :
      Answers past (.readAt h position length)
        (.data (.ok ((past.bytes file).slice position length)))
  | write {h file : Nat} (hh : past.Works h file) (data : Bytes) :
      Answers past (.write h data) (.count (.ok data.length))
  | length {h file : Nat} (hh : past.Works h file) :
      Answers past (.length h) (.count (.ok (past.bytes file).length))
  | close {h : Nat} (hh : h < past.opens) : Answers past (.close h) .done
  | readClosed {h : Nat} (hh : past.closed h = true) (length : Nat) :
      Answers past (.read h length) (.data (.error .badFileDescriptor))
  | readAtClosed {h : Nat} (hh : past.closed h = true) (position length : Nat) :
      Answers past (.readAt h position length) (.data (.error .badFileDescriptor))
  | writeClosed {h : Nat} (hh : past.closed h = true) (data : Bytes) :
      Answers past (.write h data) (.count (.error .badFileDescriptor))
  | lengthClosed {h : Nat} (hh : past.closed h = true) : Answers past (.length h) (.count (.ok 0))

/-- All was answered as what had been before tells. -/
inductive Right : Past → Prop
  | nil : Right []
  | cons {past : Past} {call : StoreCall} {reply : StoreReply} (h : Right past)
      (ha : past.Answers call reply) : Right ((call, reply) :: past)

variable {past : Past} {call : StoreCall} {reply : StoreReply} {name : String} {h f : Nat}

private theorem led?_lt (hled : past.led? name = some f) : f < past.length := by
  induction past with
  | nil => cases hled
  | cons entry past ih =>
    obtain ⟨call, reply⟩ := entry
    rw [List.length_cons]
    cases call with
    | insert other data =>
      rw [led?] at hled
      split at hled
      · cases hled
        exact Nat.lt_succ_self _
      · exact Nat.lt_succ_of_lt (ih hled)
    | openFile other create =>
      rw [led?] at hled
      split at hled
      · rcases Option.or_eq_some_iff.1 hled with hold | ⟨-, hnew⟩
        · exact Nat.lt_succ_of_lt (ih hold)
        · split at hnew
          · cases hnew
            exact Nat.lt_succ_self _
          · cases hnew
      · exact Nat.lt_succ_of_lt (ih hled)
    | remove other =>
      rw [led?] at hled
      split at hled
      · cases hled
      · exact Nat.lt_succ_of_lt (ih hled)
    | contents | openHandles | read | readAt | write | length | close =>
      exact Nat.lt_succ_of_lt (ih hled)

theorem bound?_lt (hbound : past.bound? h = some f) : f < past.length := by
  induction past with
  | nil => cases hbound
  | cons entry past ih =>
    rw [bound?.eq_def] at hbound
    split at hbound
    · next hnil => cases hnil
    · next hcons =>
      cases hcons
      split at hbound
      · exact led?_lt hbound
      · exact Nat.lt_succ_of_lt (ih hbound)
    · next hcons =>
      cases hcons
      exact Nat.lt_succ_of_lt (ih hbound)

theorem bytes_of_length_le (hf : past.length ≤ f) : past.bytes f = [] := by
  induction past with
  | nil => rfl
  | cons entry past ih =>
    rw [List.length_cons] at hf
    rw [bytes.eq_def]
    split
    · rfl
    · next hcons =>
      cases hcons
      rw [if_neg (by omega)]
      exact ih (by omega)
    · next hcons =>
      cases hcons
      rw [if_neg]
      · exact ih (by omega)
      · intro hbound
        have := bound?_lt hbound
        omega
    · next hcons =>
      cases hcons
      exact ih (by omega)

private theorem Works.ne {other : Nat} (hworks : past.Works other f) (hbound : past.bound? h = none) :
    other ≠ h := by
  rintro rfl
  rw [hworks.1] at hbound
  cases hbound

theorem Right.fresh (hright : past.Right) (hh : past.opens ≤ h) :
    past.bound? h = none ∧ past.moved h = 0 ∧ past.closed h = false := by
  induction hright with
  | nil => exact ⟨rfl, rfl, rfl⟩
  | @cons past call reply hright ha ih =>
    cases ha with
    | insert | notOpened | remove | contents | openHandles | readAt | length | readClosed
    | readAtClosed | writeClosed | lengthClosed => exact ih hh
    | noHandle hcall =>
      cases call with
      | insert | openFile | remove | contents | openHandles => cases hcall
      | read | readAt | write | length | close => exact ih hh
    | opened _ =>
      have hlt : past.opens < h := hh
      obtain ⟨hbound, hrest⟩ := ih (Nat.le_of_lt hlt)
      refine ⟨?_, hrest⟩
      rw [bound?, if_neg (Nat.ne_of_lt hlt)]
      exact hbound
    | read hworks _ | write hworks _ =>
      obtain ⟨hbound, hmoved, hclosed⟩ := ih hh
      refine ⟨hbound, ?_, hclosed⟩
      rw [moved, if_neg (hworks.ne hbound)]
      exact hmoved
    | close hother =>
      obtain ⟨hbound, hmoved, hclosed⟩ := ih hh
      refine ⟨hbound, hmoved, ?_⟩
      rw [closed, hclosed, Bool.or_false, decide_eq_false_iff_not]
      rintro rfl
      exact absurd hother (Nat.not_lt.2 hh)

/-- No handle is past the end of its file, so nothing is written behind a gap. -/
theorem Right.within (hright : past.Right) (hbound : past.bound? h = some f) :
    past.moved h ≤ (past.bytes f).length := by
  induction hright generalizing h with
  | nil => cases hbound
  | @cons past call reply hright ha ih =>
    cases ha with
    | notOpened | remove | contents | openHandles | readAt | length | readClosed
    | readAtClosed | writeClosed | lengthClosed | close => exact ih hbound
    | noHandle hcall =>
      cases call with
      | insert | openFile | remove | contents | openHandles => cases hcall
      | read | readAt | write | length | close => exact ih hbound
    | insert name data =>
      have hlt : f < past.length := by
        change past.bound? h = some f at hbound
        exact bound?_lt hbound
      rw [bytes, if_neg (Nat.ne_of_gt hlt)]
      exact ih hbound
    | @opened name create hled =>
      rw [bound?] at hbound
      split at hbound
      · next heq =>
        change past.moved h ≤ _
        rw [(hright.fresh (Nat.le_of_eq heq)).2.1]
        exact Nat.zero_le _
      · exact ih hbound
    | @read other file hworks length =>
      have hmoved := ih hbound
      rw [moved]
      change _ ≤ (past.bytes f).length
      split
      · next heq =>
        subst heq
        obtain rfl : file = f := Option.some.inj (hworks.1.symm.trans hbound)
        rw [Bytes.length_slice]
        omega
      · exact hmoved
    | @write other file hworks data =>
      have hmoved := ih hbound
      change past.bound? h = some f at hbound
      rw [moved, bytes]
      split
      · next heq =>
        subst heq
        rw [if_pos hbound, ← Bytes.overwrite_of_le hmoved, Bytes.length_overwrite]
        exact Nat.le_max_right ..
      · split
        · next hother =>
          -- Another handle writes to the same file, which only grows by that.
          rw [← Bytes.overwrite_of_le (ih hother), Bytes.length_overwrite]
          exact Nat.le_trans hmoved (Nat.le_max_left ..)
        · exact hmoved

theorem Right.bound?_cons (hright : past.Right) (ha : past.Answers call reply)
    (hbound : past.bound? h = some f) : Past.bound? h ((call, reply) :: past) = some f := by
  cases ha with
  | insert | notOpened | remove | contents | openHandles | readAt | length | readClosed
  | readAtClosed | writeClosed | lengthClosed | read | write | close => exact hbound
  | noHandle _ => cases call <;> exact hbound
  | opened _ =>
    rw [bound?, if_neg]
    · exact hbound
    · intro heq
      rw [(hright.fresh (Nat.le_of_eq heq)).1] at hbound
      cases hbound

/-- A name that no longer leads to a file never leads to it again. -/
theorem led?_ne_append (hf : f < past.length) (hled : past.led? name ≠ some f) (more : Past) :
    Past.led? name (more ++ past) ≠ some f := by
  induction more with
  | nil => exact hled
  | cons entry more ih =>
    obtain ⟨call, reply⟩ := entry
    -- A file that is made from now on gets a number of its own.
    have hnew : (more ++ past).length ≠ f := by
      rw [List.length_append]
      omega
    rw [List.cons_append]
    cases call with
    | insert other data =>
      rw [led?]
      split
      · exact fun h => hnew (Option.some.inj h)
      · exact ih
    | openFile other create =>
      rw [led?]
      split
      · rw [Ne, Option.or_eq_some_iff]
        rintro (hold | ⟨-, hmade⟩)
        · exact ih hold
        · split at hmade
          · exact hnew (Option.some.inj hmade)
          · cases hmade
      · exact ih
    | remove other =>
      rw [led?]
      split
      · exact nofun
      · exact ih
    | contents | openHandles | read | readAt | write | length | close => exact ih

/-- What a file holds changes only by what is written through a handle on it. -/
theorem written_of_bytes_ne (hf : f < past.length)
    (hne : Past.bytes f ((call, reply) :: past) ≠ past.bytes f) :
    ∃ h data, call = .write h data ∧ past.bound? h = some f := by
  rw [bytes.eq_def] at hne
  split at hne
  · next hnil => cases hnil
  · next hcons =>
    cases hcons
    rw [if_neg (Nat.ne_of_gt hf)] at hne
    exact absurd rfl hne
  · next h data _ _ hcons =>
    cases hcons
    split at hne
    · next hbound => exact ⟨h, data, rfl, hbound⟩
    · exact absurd rfl hne
  · next hcons =>
    cases hcons
    exact absurd rfl hne

private theorem Right.eq_noHandle (hright : past.Right) (ha : past.Answers call reply)
    (hcall : call.handle? = some h) (hh : past.opens ≤ h) : reply = .noHandle := by
  obtain ⟨hbound, -, hclosed⟩ := hright.fresh hh
  cases ha with
  | insert | opened | notOpened | remove | contents | openHandles => cases hcall
  | noHandle => rfl
  | read hworks | readAt hworks | write hworks | length hworks =>
    cases hcall
    exact absurd rfl (hworks.ne hbound)
  | readClosed hc | readAtClosed hc | writeClosed hc | lengthClosed hc =>
    cases hcall
    rw [hclosed] at hc
    cases hc
  | close hlt =>
    cases hcall
    exact absurd hlt (Nat.not_lt.2 hh)

theorem Right.unique {reply' : StoreReply} (hright : past.Right) (ha : past.Answers call reply)
    (ha' : past.Answers call reply') : reply = reply' := by
  by_cases hnew : ∃ h, call.handle? = some h ∧ past.opens ≤ h
  · obtain ⟨h, hcall, hh⟩ := hnew
    rw [hright.eq_noHandle ha hcall hh, hright.eq_noHandle ha' hcall hh]
  · -- Both answers are about one name or about one handle, which is open on one file or closed.
    cases ha <;> cases ha' <;> grind [Works]

def made : Past → List Nat
  | [] => []
  | (.insert _ _, _) :: past => made past ++ [past.length]
  | (.openFile name true, _) :: past =>
    if led? name past = none then made past ++ [past.length] else made past
  | _ :: past => made past

private theorem made_cons (entry : StoreCall × StoreReply) (past : Past) :
    made (entry :: past) = past.made ∨ made (entry :: past) = past.made ++ [past.length] := by
  rw [made.eq_def]
  split
  · next hnil => cases hnil
  · next hcons =>
    cases hcons
    exact .inr rfl
  · next hcons =>
    cases hcons
    split
    · exact .inr rfl
    · exact .inl rfl
  · next hcons =>
    cases hcons
    exact .inl rfl

theorem getElem?_made_cons {id : FileId} (hid : past.made[id]? = some f)
    (entry : StoreCall × StoreReply) : (made (entry :: past))[id]? = some f := by
  rcases made_cons entry past with h | h <;> rw [h]
  · exact hid
  · rw [List.getElem?_append_left (List.getElem?_eq_some_iff.1 hid).1]
    exact hid

theorem made_lt (hf : f ∈ past.made) : f < past.length := by
  induction past with
  | nil => cases hf
  | cons entry past ih =>
    rw [List.length_cons]
    rcases made_cons entry past with h | h <;> rw [h] at hf
    · exact Nat.lt_succ_of_lt (ih hf)
    · rcases List.mem_append.1 hf with hold | hnew
      · exact Nat.lt_succ_of_lt (ih hold)
      · rw [List.mem_singleton.1 hnew]
        exact Nat.lt_succ_self _

theorem nodup_made (past : Past) : past.made.Nodup := by
  induction past with
  | nil => exact List.nodup_nil
  | cons entry past ih =>
    rcases made_cons entry past with h | h <;> rw [h]
    · exact ih
    · refine List.nodup_append.2 ⟨ih, List.pairwise_singleton .., ?_⟩
      intro f hf g hg
      rw [List.mem_singleton.1 hg]
      exact Nat.ne_of_lt (made_lt hf)

theorem made_openFile {create : Bool} (hled : (past.led? name).isSome ∨ create = false) :
    made ((.openFile name create, reply) :: past) = past.made := by
  cases create with
  | false => rfl
  | true =>
    rw [made, if_neg]
    intro hnone
    simp [hnone] at hled

theorem led?_openFile {create : Bool} (hled : (past.led? name).isSome ∨ create = false)
    (other : String) : led? other ((.openFile name create, reply) :: past) = past.led? other := by
  rw [led?]
  split
  · next heq =>
    subst heq
    rcases hled with hled | rfl
    · exact Option.or_of_isSome hled
    · exact Option.or_none
  · rfl

end Past

end PagedKernel

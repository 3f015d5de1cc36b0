import PagedKernel.Text.Utf8

/-!
# Texts and their encodings

A text is encoded without loss, and decoding its encoding gives it back. Only a zero character has a
zero byte in its encoding.
-/

namespace PagedKernel.Text

variable {data : Bytes} {s s' : String}

private theorem toList_loop (bs : ByteArray) (i : Nat) (r : Bytes) :
    ByteArray.toList.loop bs i r = r.reverse ++ bs.data.toList.drop i := by
  have hlength : bs.data.toList.length = bs.size := rfl
  induction h : bs.size - i generalizing i r with
  | zero =>
    have hle : bs.size ≤ i := Nat.le_of_sub_eq_zero h
    rw [ByteArray.toList.loop, if_neg (Nat.not_lt.2 hle), List.drop_of_length_le (by omega),
      List.append_nil]
  | succ n ih =>
    have hlt : i < bs.size := by omega
    have hget : bs.get! i = bs.data.toList[i] := by
      change bs.data[i]! = _
      rw [getElem!_pos bs.data i hlt, Array.getElem_toList]
    have hdrop : bs.data.toList.drop i = bs.data.toList[i] :: bs.data.toList.drop (i + 1) :=
      List.drop_eq_getElem_cons hlt
    rw [ByteArray.toList.loop, if_pos hlt, ih (i + 1) _ (by omega), hget, hdrop,
      List.reverse_cons, List.append_assoc, List.singleton_append]

private theorem utf8_eq (s : String) :
    utf8 s = s.toByteArray.data.toList := toList_loop s.toByteArray 0 []

private theorem toByteArray_of_ofUtf8? (h : ofUtf8? data = some s) :
    s.toByteArray = ⟨data.toArray⟩ := by
  unfold ofUtf8? String.fromUTF8? at h
  split at h
  · cases h
    rfl
  · cases h

theorem utf8_of_ofUtf8? (h : ofUtf8? data = some s) : utf8 s = data := by
  rw [utf8_eq, toByteArray_of_ofUtf8? h]

theorem ofUtf8?_utf8 (s : String) : ofUtf8? (utf8 s) = some s := by
  unfold ofUtf8? String.fromUTF8?
  rw [utf8_eq, Array.toArray_toList, dif_pos s.isValidUTF8]
  rfl

theorem utf8_injective (h : utf8 s = utf8 s') : s = s' := by
  have hs := ofUtf8?_utf8 s
  rw [h, ofUtf8?_utf8, Option.some.injEq] at hs
  exact hs.symm

theorem notMem_zero_of_utf8 (h : 0 ∉ utf8 s) : '\x00' ∉ s.toList := by
  intro hmem
  apply h
  have hs : utf8 s = s.toList.utf8Encode.data.toList := by
    rw [utf8_eq, String.utf8Encode_toList]
  obtain ⟨before, after, hsplit⟩ := List.append_of_mem hmem
  rw [hs, hsplit]
  simp only [List.utf8Encode, List.flatMap_append, List.flatMap_cons, List.data_toByteArray,
    List.mem_append]
  right
  left
  decide

theorem zero_notMem_repr (n : Int) : '\x00' ∉ n.repr.toList := by
  have hnat : ∀ m : Nat, '\x00' ∉ m.repr.toList := by
    intro m hm
    have hdigit := Nat.isDigit_of_mem_toDigits (b := 10) (n := m) (c := '\x00') (by decide)
      (by decide) (by simpa using hm)
    revert hdigit
    decide
  cases n with
  | ofNat m => exact hnat m
  | negSucc m =>
    change '\x00' ∉ ("-" ++ Nat.repr (m + 1)).toList
    rw [String.toList_append, List.mem_append]
    rintro (h | h)
    · revert h
      decide
    · exact hnat _ h

end PagedKernel.Text

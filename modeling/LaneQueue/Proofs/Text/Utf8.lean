import LaneQueue.Text.Bytes
/-!
# Texts and their bytes

Every text has one byte string and a byte string has one text at most: `Bytes.ofText` and
`Bytes.text?` are inverse to each other. The bytes of a text are those of its characters one after
the other.
-/
namespace LaneQueue

/-! ## The bytes of a character -/

/-- An ASCII character is one byte. -/
theorem utf8EncodeChar_of_lt {c : Char} (h : c.toNat < 128) :
    String.utf8EncodeChar c = [UInt8.ofNat c.toNat] := by
  unfold String.utf8EncodeChar
  exact if_pos (Nat.le_of_lt_succ h)

/-- All bytes of any other character are beyond ASCII. -/
theorem le_of_mem_utf8EncodeChar {c : Char} (h : 128 ≤ c.toNat) {b : UInt8}
    (hb : b ∈ String.utf8EncodeChar c) : 128 ≤ b.toNat := by
  unfold String.utf8EncodeChar at hb
  have hc : ¬ c.val.toNat ≤ 0x7f := Nat.not_le.2 h
  rw [if_neg hc] at hb
  split at hb
  · simp only [List.mem_cons, List.not_mem_nil, or_false] at hb
    rcases hb with rfl | rfl <;> simp <;> omega
  · split at hb
    · simp only [List.mem_cons, List.not_mem_nil, or_false] at hb
      rcases hb with rfl | rfl | rfl <;> simp <;> omega
    · simp only [List.mem_cons, List.not_mem_nil, or_false] at hb
      rcases hb with rfl | rfl | rfl | rfl <;> simp <;> omega

/-! ## The bytes of a text -/

namespace Bytes

theorem toList_loop (b : ByteArray) (i : Nat) (acc : List UInt8) :
    ByteArray.toList.loop b i acc = acc.reverse ++ b.data.toList.drop i := by
  fun_induction ByteArray.toList.loop b i acc with
  | case1 i acc hi ih =>
    have hi' : i < b.data.toList.length := by simpa using hi
    rw [ih, List.drop_eq_getElem_cons hi']
    simp [ByteArray.get!, hi]
  | case2 i acc hi =>
    have hi' : b.data.toList.length ≤ i := by simpa using hi
    rw [List.drop_eq_nil_of_le hi', List.append_nil]

theorem ofText_eq (s : String) : ofText s = s.toByteArray.data.toList := by
  simp [ofText, ByteArray.toList, toList_loop]

/-- The bytes of a text are those of its characters. -/
theorem ofText_ofList (cs : List Char) :
    ofText (String.ofList cs) = cs.flatMap String.utf8EncodeChar := by
  rw [ofText_eq, String.toByteArray_ofList, List.utf8Encode, List.toList_data_toByteArray]

theorem ofText_eq_flatMap (s : String) : ofText s = s.toList.flatMap String.utf8EncodeChar := by
  rw [← ofText_ofList, String.ofList_toList]

theorem ofText_append (s t : String) : ofText (s ++ t) = ofText s ++ ofText t := by
  simp [ofText_eq_flatMap]

/-- A byte string is that of its text. -/
theorem ofText_of_text? {b : Bytes} {s : String} (h : text? b = some s) : ofText s = b := by
  unfold text? String.fromUTF8? at h
  split at h
  · obtain rfl := Option.some.inj h
    rw [ofText_eq]
    rfl
  · cases h

/-- Every text is the text of its bytes. -/
@[simp] theorem text?_ofText (s : String) : text? (ofText s) = some s := by
  have hb : (⟨(ofText s).toArray⟩ : ByteArray) = s.toByteArray := by rw [ofText_eq]
  have hv : ByteArray.IsValidUTF8 ⟨(ofText s).toArray⟩ := hb ▸ s.isValidUTF8
  unfold text? String.fromUTF8?
  rw [dif_pos hv]
  exact congrArg some (String.toByteArray_inj.1 hb)

theorem ofText_inj {s t : String} : ofText s = ofText t ↔ s = t := by
  refine ⟨fun h => ?_, congrArg ofText⟩
  have ht := text?_ofText t
  rw [← h, text?_ofText] at ht
  exact Option.some.inj ht

/-- A byte string that is a text is shown as that text. -/
theorem shown_of_text? {b : Bytes} {s : String} (h : text? b = some s) : b.shown = s := by
  rw [shown, h]

end Bytes

end LaneQueue

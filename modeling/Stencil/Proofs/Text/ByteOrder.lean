import Stencil.Value.Basic

/-!
# The order of bytes

Texts are in the same order whether they are compared by their characters or by the bytes that encode
them.

* `Value.encoded_lt` compares the encodings of two characters, whatever follows on them.
* `Value.bytes_lt` concludes what holds of texts.
-/

namespace Stencil.Value

/-- A smaller character is encoded in smaller bytes: either in fewer ones, and then the first byte
decides, or in as many, which are its digits to the base of 64. -/
theorem encoded_lt {c d : Char} (h : c < d) (bs bs' : List UInt8) :
    String.utf8EncodeChar c ++ bs < String.utf8EncodeChar d ++ bs' := by
  have hlt : c.val.toNat < d.val.toNat := h
  have hbound : d.val.toNat < 0x110000 := by rcases d.valid with h | h <;> omega
  have hdigits (n : Nat) : n / 4096 = n / 64 / 64 ∧ n / 262144 = n / 64 / 64 / 64 := by
    simp [Nat.div_div_eq_div_mul]
  unfold String.utf8EncodeChar
  generalize c.val.toNat = m, d.val.toNat = n at *
  dsimp only
  rw [(hdigits m).1, (hdigits m).2, (hdigits n).1, (hdigits n).2]
  repeat' split
  all_goals
    simp only [List.cons_append, List.cons_lt_cons_iff, UInt8.lt_iff_toNat_lt, ← UInt8.toNat_inj,
      UInt8.toNat_ofNat']
    omega

theorem bytes_eq_flatMap (s : String) : bytes s = s.toList.flatMap String.utf8EncodeChar := by
  rw [bytes, String.toUTF8, ← String.utf8Encode_toList, List.utf8Encode,
    List.toList_data_toByteArray]

/-- **A smaller text has smaller bytes.** -/
theorem bytes_lt {s t : String} (h : s < t) : bytes s < bytes t := by
  have hchars : s.toList < t.toList := h
  rw [bytes_eq_flatMap, bytes_eq_flatMap]
  generalize s.toList = cs, t.toList = ds at hchars
  induction hchars with
  | @nil d ds =>
    obtain ⟨b, bs, hd⟩ := List.exists_cons_of_ne_nil (String.utf8EncodeChar_ne_nil (c := d))
    rw [List.flatMap_nil, List.flatMap_cons, hd]
    exact List.nil_lt_cons b _
  | rel hcd => exact encoded_lt hcd _ _
  | cons _ ih => exact List.append_left_lt ih

end Stencil.Value

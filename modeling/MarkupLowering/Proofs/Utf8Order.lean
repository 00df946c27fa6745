/-!
# MarkupLowering.Proofs.Utf8Order

**Texts compare as their bytes do.** Texts are ordered character by character, by code points. UTF-8
keeps this order: of two characters, the bytes of the smaller one are smaller where they first
differ, which is before either of them ends (`utf8EncodeChar_append_lt`). So comparing texts and
comparing bytes is the same (`lt_iff_utf8Bytes_lt`).
-/

namespace MarkupLowering

/-- The UTF-8 bytes of a text. -/
def utf8Bytes (s : String) : List UInt8 := s.toByteArray.data.toList

theorem utf8Bytes_eq (s : String) : utf8Bytes s = s.toList.flatMap String.utf8EncodeChar := by
  rw [utf8Bytes, ← String.utf8Encode_toList, List.utf8Encode, List.toList_data_toByteArray]

/-! ### Characters -/

/-- Numbers compare as their digits to the base of 64 do. -/
theorem digits_lt {v w : Nat} (h : v < w) :
    v / 262144 < w / 262144 ∨ v / 262144 = w / 262144 ∧
      (v / 4096 % 64 < w / 4096 % 64 ∨ v / 4096 % 64 = w / 4096 % 64 ∧
        (v / 64 % 64 < w / 64 % 64 ∨ v / 64 % 64 = w / 64 % 64 ∧ v % 64 < w % 64)) := by
  have hv : v / 262144 = v / 64 / 64 / 64 ∧ v / 4096 = v / 64 / 64 := by omega
  have hw : w / 262144 = w / 64 / 64 / 64 ∧ w / 4096 = w / 64 / 64 := by omega
  rw [hv.1, hv.2, hw.1, hw.2]
  omega

/-- The bytes of characters are ordered as the characters are, whatever comes after them. -/
theorem utf8EncodeChar_append_lt {c d : Char} (h : c < d) (x y : List UInt8) :
    String.utf8EncodeChar c ++ x < String.utf8EncodeChar d ++ y := by
  have hlt : c.val.toNat < d.val.toNat := h
  have hmax : d.val.toNat ≤ 0x10ffff := by
    rcases d.valid with hlow | ⟨-, hhigh⟩ <;> omega
  unfold String.utf8EncodeChar
  simp only [apply_ite (· ++ x), apply_ite (· ++ y)]
  generalize c.val.toNat = v at *
  generalize d.val.toNat = w at *
  have hdigits := digits_lt hlt
  -- by the numbers of bytes: more bytes begin with a greater one, and equally many are digits
  repeat' split
  all_goals
    simp (disch := omega) only [List.cons_append, List.nil_append, List.cons_lt_cons_iff,
      UInt8.lt_iff_toNat_lt, ← UInt8.toNat_inj, UInt8.toNat_ofNat', Nat.reducePow,
      Nat.mod_eq_of_lt]
    omega

/-! ### Texts -/

theorem flatMap_utf8EncodeChar_lt : ∀ {cs ds : List Char}, cs < ds →
    cs.flatMap String.utf8EncodeChar < ds.flatMap String.utf8EncodeChar
  | [], d :: ds, _ => by
    rw [List.flatMap_nil, List.flatMap_cons]
    cases hd : String.utf8EncodeChar d with
    | nil => exact absurd hd String.utf8EncodeChar_ne_nil
    | cons b bs => exact List.nil_lt_cons _ _
  | c :: cs, d :: ds, h => by
    rw [List.flatMap_cons, List.flatMap_cons]
    rcases List.cons_lt_cons_iff.mp h with hcd | ⟨rfl, hrest⟩
    · exact utf8EncodeChar_append_lt hcd _ _
    · exact List.append_left_lt (flatMap_utf8EncodeChar_lt hrest)

theorem utf8Bytes_lt {s t : String} (h : s < t) : utf8Bytes s < utf8Bytes t := by
  rw [utf8Bytes_eq, utf8Bytes_eq]
  exact flatMap_utf8EncodeChar_lt h

/-- Texts are ordered as their bytes are. -/
theorem lt_iff_utf8Bytes_lt {s t : String} : s < t ↔ utf8Bytes s < utf8Bytes t := by
  refine ⟨utf8Bytes_lt, fun h => Decidable.byContradiction fun hnot => ?_⟩
  -- the other text is smaller, or it is the same; its bytes then are not greater
  have hle : t ≤ s := String.not_lt.mp hnot
  by_cases hst : s ≤ t
  · rw [String.le_antisymm hst hle] at h
    exact List.lt_irrefl _ h
  · exact List.lt_asymm h (utf8Bytes_lt (String.not_le.mp hst))

end MarkupLowering

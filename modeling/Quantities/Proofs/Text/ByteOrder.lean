import Mathlib

/-!
# Byte order of text

Texts are compared character by character.  Their UTF-8 forms, compared byte by byte, stand in the same
order: where the forms of two characters part, the larger character has the larger byte.
-/

namespace Quantities

def utf8Bytes (text : String) : List UInt8 :=
  text.toUTF8.data.toList

theorem utf8Bytes_eq_flatMap (text : String) :
    utf8Bytes text = text.toList.flatMap String.utf8EncodeChar := by
  have h : text.toUTF8 = (text.toList.flatMap String.utf8EncodeChar).toByteArray := by
    conv => lhs; rw [← String.ofList_toList (s := text)]
    rfl
  rw [utf8Bytes, h, List.toList_data_toByteArray]

private theorem byte_cons_lt {a b : Nat} {s t : List UInt8} (hb : b < 256) (hab : a ≤ b)
    (h : a = b → s < t) : UInt8.ofNat a :: s < UInt8.ofNat b :: t := by
  rcases Nat.lt_or_eq_of_le hab with hlt | rfl
  · refine List.cons_lt_cons_iff.mpr (.inl ?_)
    rw [UInt8.lt_iff_toNat_lt, UInt8.toNat_ofNat', UInt8.toNat_ofNat']
    omega
  · exact List.cons_lt_cons_iff.mpr (.inr ⟨rfl, h rfl⟩)

/-- The bytes of the smaller character come first, whatever follows. -/
theorem utf8EncodeChar_append_lt {c d : Char} (h : c < d) (s t : List UInt8) :
    String.utf8EncodeChar c ++ s < String.utf8EncodeChar d ++ t := by
  have hval : c.val.toNat < d.val.toNat := h
  have hd : d.val.toNat < 0x110000 := by
    have hvalid := d.valid
    simp only [UInt32.isValidChar, Nat.isValidChar] at hvalid
    omega
  simp only [String.utf8EncodeChar]
  generalize c.val.toNat = m at *
  generalize d.val.toNat = n at *
  -- Forms of different lengths part at the first byte; forms of one length part at a base-64 digit.
  split_ifs
  all_goals try omega
  all_goals
    simp only [List.cons_append, List.nil_append]
    refine byte_cons_lt (by omega) (by omega) fun h₁ => ?_
    try omega
  all_goals
    refine byte_cons_lt (by omega) (by omega) fun h₂ => ?_
    try omega
  all_goals
    refine byte_cons_lt (by omega) (by omega) fun h₃ => ?_
    try omega
  refine byte_cons_lt (by omega) (by omega) fun h₄ => ?_
  omega

theorem flatMap_utf8EncodeChar_lt {s t : List Char} (h : s < t) :
    s.flatMap String.utf8EncodeChar < t.flatMap String.utf8EncodeChar := by
  induction s generalizing t with
  | nil =>
      cases t with
      | nil => exact absurd h (List.lt_irrefl _)
      | cons d t =>
          have hne : String.utf8EncodeChar d ≠ [] := String.utf8EncodeChar_ne_nil
          rw [List.flatMap_nil, List.flatMap_cons]
          cases hd : String.utf8EncodeChar d with
          | nil => exact absurd hd hne
          | cons byte bytes => exact List.nil_lt_cons _ _
  | cons c s ih =>
      cases t with
      | nil => exact absurd h (List.not_lt_nil _)
      | cons d t =>
          rw [List.flatMap_cons, List.flatMap_cons]
          rcases List.cons_lt_cons_iff.mp h with hlt | ⟨rfl, hlt⟩
          · exact utf8EncodeChar_append_lt hlt _ _
          · exact List.append_left_lt (ih hlt)

/-- The order of texts is the order of their bytes. -/
theorem utf8Bytes_lt {a b : String} (h : a < b) : utf8Bytes a < utf8Bytes b := by
  rw [utf8Bytes_eq_flatMap, utf8Bytes_eq_flatMap]
  exact flatMap_utf8EncodeChar_lt (String.lt_iff_toList_lt.mp h)

end Quantities

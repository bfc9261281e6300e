import Mathlib.Data.String.Basic
import SkillMarket.Text.Utf8

/-!
# The order of bytes

Texts are in the same order as the bytes that encode them.
-/

namespace SkillMarket.Text

/-- The bytes of a text, in order. -/
def bytes (text : String) : List UInt8 := (encode text).data.toList

/-- The bytes of a text are those of its characters. -/
theorem bytes_eq (text : String) : bytes text = text.toList.flatMap String.utf8EncodeChar := by
  rw [bytes, encode, String.toUTF8_eq_toByteArray, ← String.utf8Encode_toList, List.utf8Encode,
    List.toList_data_toByteArray]

/-- The bytes of a character come before those of a greater one, whatever follows either. -/
theorem utf8EncodeChar_lt {c d : Char} (h : c < d) (rest rest' : List UInt8) :
    String.utf8EncodeChar c ++ rest < String.utf8EncodeChar d ++ rest' := by
  have less : c.val.toNat < d.val.toNat := h
  have range : d.val.toNat < 0x110000 := by
    have valid := d.valid
    unfold UInt32.isValidChar Nat.isValidChar at valid
    omega
  unfold String.utf8EncodeChar
  generalize c.val.toNat = v at less ⊢
  generalize d.val.toNat = w at less range ⊢
  -- a continuation byte is below 192, and there are no more digits to the base 64 than four
  have byte (n : Nat) : (n % 64 + 128) % 256 = n % 64 + 128 := Nat.mod_eq_of_lt (by omega)
  have lead {n : Nat} (hn : n < 0x110000) : (n / 262144 % 8 + 240) % 256 = n / 262144 + 240 := by
    omega
  dsimp only
  split_ifs <;>
    simp only [List.cons_append, List.nil_append, List.cons_lt_cons_iff, UInt8.lt_iff_toNat_lt,
      ← UInt8.toNat_inj, UInt8.toNat_ofNat', Nat.reducePow, byte, lead range,
      lead (less.trans range)] <;>
    omega

/-- **Texts are in the order of their bytes.** -/
theorem bytes_lt_bytes_iff {a b : String} : bytes a < bytes b ↔ a < b := by
  have forward {s t : List Char} (h : s < t) :
      s.flatMap String.utf8EncodeChar < t.flatMap String.utf8EncodeChar := by
    induction h with
    | @nil c t =>
        obtain ⟨b, bs, hc⟩ := List.exists_cons_of_ne_nil (@String.utf8EncodeChar_ne_nil c)
        rw [List.flatMap_cons, hc, List.flatMap_nil]
        exact List.nil_lt_cons _ _
    | rel less => exact utf8EncodeChar_lt less _ _
    | cons _ ih => exact List.append_left_lt ih
  rw [bytes_eq, bytes_eq, String.lt_iff_toList_lt]
  refine ⟨fun h => ?_, forward⟩
  rcases lt_trichotomy a.toList b.toList with less | same | more
  · exact less
  · exact absurd (same ▸ h) (List.lt_irrefl _)
  · exact absurd (forward more) (List.lt_asymm h)

end SkillMarket.Text

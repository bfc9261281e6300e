/-!
Reading bytes as text.

`decode?` accepts well-formed UTF-8 only. `decodeLossy` accepts every byte sequence and shows each
maximal ill-formed part as one replacement character.
-/

namespace SkillMarket.Text

/-- The text that the bytes encode, if they are well-formed UTF-8. -/
def decode? (bytes : ByteArray) : Option String := String.fromUTF8? bytes

/-- The bytes of a text. -/
def encode (text : String) : ByteArray := text.toUTF8

theorem decode?_encode (text : String) : decode? (encode text) = some text := by
  simp only [decode?, encode, String.fromUTF8?, String.toUTF8_eq_toByteArray,
    dif_pos text.isValidUTF8]
  rfl

theorem encode_decode? {bytes : ByteArray} {text : String} (h : decode? bytes = some text) :
    encode text = bytes := by
  simp only [decode?, String.fromUTF8?] at h
  split at h
  · injection h with h; subst h; rfl
  · contradiction

/-- What may follow a lead byte: the least and the greatest second byte, and the number of bytes
that follow in all. -/
structure Lead where
  low : UInt8
  high : UInt8
  following : Nat

/-- The lead bytes of sequences of two to four bytes. -/
def lead? (b : UInt8) : Option Lead :=
  if 0xC2 ≤ b && b ≤ 0xDF then some ⟨0x80, 0xBF, 1⟩
  else if b == 0xE0 then some ⟨0xA0, 0xBF, 2⟩
  else if b == 0xED then some ⟨0x80, 0x9F, 2⟩
  else if 0xE1 ≤ b && b ≤ 0xEF then some ⟨0x80, 0xBF, 2⟩
  else if b == 0xF0 then some ⟨0x90, 0xBF, 3⟩
  else if 0xF1 ≤ b && b ≤ 0xF3 then some ⟨0x80, 0xBF, 3⟩
  else if b == 0xF4 then some ⟨0x80, 0x8F, 3⟩
  else none

/-- The longest run of bytes that can continue a sequence, at most `following` of them. -/
def Lead.continuation (lead : Lead) : List UInt8 → List UInt8
  | [] => []
  | b :: rest =>
    if lead.low ≤ b && b ≤ lead.high then
      b :: (rest.take (lead.following - 1)).takeWhile (fun b => 0x80 ≤ b && b ≤ 0xBF)
    else []

/-- The code point of a whole sequence: the payload bits of its bytes. -/
def codePoint (first : UInt8) (tail : List UInt8) : Nat :=
  tail.foldl (fun n b => n * 64 + (b.toNat - 0x80)) (first.toNat % Nat.pow 2 (6 - tail.length))

/-- Reads bytes as text, with a replacement character for each maximal ill-formed part. -/
def decodeLossy : List UInt8 → List Char
  | [] => []
  | b :: rest =>
    if b < 0x80 then Char.ofNat b.toNat :: decodeLossy rest
    else match lead? b with
      | none => '\uFFFD' :: decodeLossy rest
      | some lead =>
        let tail := lead.continuation rest
        (if tail.length = lead.following then Char.ofNat (codePoint b tail) else '\uFFFD') ::
          decodeLossy (rest.drop tail.length)
termination_by bytes => bytes.length
decreasing_by all_goals (simp; try omega)

end SkillMarket.Text

import SkillMarket.Json.Error
import SkillMarket.Json.Value

/-!
Reading JSON.

Each reader takes the text that is left and gives what it has read with what is left then, or the
place where it stopped. Lists and objects nest at most 127 deep.

A number with a fraction or an exponent is read from its first digits that fit a 64-bit word, which
are then scaled by a power of ten: the word, the power and the result are each rounded.
-/

namespace SkillMarket.Json

/-- The result of a reader. -/
abbrev Reading (α : Type) := Except Stop (α × List Char)

/-- The blanks that may stand between tokens. -/
def isSpace (c : Char) : Bool := c == ' ' || c == '\n' || c == '\t' || c == '\r'

/-- Drops the blanks in front. -/
def skipSpace (cs : List Char) : List Char := cs.dropWhile isSpace

/-- Reads the rest of a literal name. -/
def readIdent (value : Value) : List Char → List Char → Reading Value
  | [], cs => .ok (value, cs)
  | _ :: _, [] => .error ⟨.endInValue, [], 0⟩
  | e :: es, c :: cs =>
    if c = e then readIdent value es cs else .error ⟨.expectedIdent, c :: cs, 1⟩

/-! ## Numbers -/

/-- The value of a decimal digit. -/
def digitValue (c : Char) : Nat := c.toNat - 48

/-- The greatest significand. -/
def maxSignificand : Nat := UInt64.size - 1

/-- The greatest exponent that can be written. -/
def maxExponent : Nat := 0x7FFFFFFF

/-- Appends digits to a number as long as it stays within the bound. Gives the number and the digits
that were left out. -/
def gather (bound : Nat) : Nat → List Char → Nat × List Char
  | n, [] => (n, [])
  | n, d :: ds =>
    if n * 10 + digitValue d ≤ bound then gather bound (n * 10 + digitValue d) ds
    else (n, d :: ds)

/-- The greatest power of ten that is used as one factor. -/
def maxPower : Nat := 308

/-- A power of ten as a binary64 number. -/
def power (k : Nat) : Binary64 := Binary64.ofNat (Nat.pow 10 k)

/-- Scales a number by a power of ten, in steps if the power is out of range. After the steps given
the number is zero. -/
def scale : Nat → Binary64 → Int → Option Binary64
  | steps, x, e =>
    if e.natAbs ≤ maxPower then
      if e ≥ 0 then
        match x * power e.toNat with
        | .infinite _ => none
        | y => some y
      else some (x / power e.natAbs)
    else if x.eq (.finite false 0) then some x
    else if e ≥ 0 then none
    else match steps with
      | 0 => some (.finite false 0)
      | steps + 1 => scale steps (x / power maxPower) (e + maxPower)

/-- The number of steps after which every significand has become zero. -/
def maxSteps : Nat := 3

/-- The number with a significand and an exponent, if it is in range. -/
def scaled (negative : Bool) (significand : Nat) (exponent : Int) : Option Binary64 :=
  (scale maxSteps (Binary64.ofNat significand) exponent).map fun x => if negative then -x else x

/-- The number that a significand and an exponent stand for, with the text after it. -/
def realNumber (negative : Bool) (significand : Nat) (exponent : Int) (rest : List Char) :
    Reading Number :=
  match scaled negative significand exponent with
  | some x => .ok (.real x, rest)
  | none => .error ⟨.numberOutOfRange, rest, 0⟩

/-- Reads an exponent, after its letter. -/
def readExponent (negative : Bool) (significand : Nat) (exponent : Int) (cs : List Char) :
    Reading Number :=
  let (down, cs) := match cs with
    | '+' :: rest => (false, rest)
    | '-' :: rest => (true, rest)
    | cs => (false, cs)
  let digits := cs.takeWhile Char.isDigit
  let rest := cs.dropWhile Char.isDigit
  match cs, digits with
  | [], _ => .error ⟨.endInValue, [], 0⟩
  | _, [] => .error ⟨.invalidNumber, cs, 1⟩
  | _, _ =>
    match gather maxExponent 0 digits with
    | (n, []) => realNumber negative significand (if down then exponent - n else exponent + n) rest
    | (_, left) =>
      if significand ≠ 0 && !down then .error ⟨.numberOutOfRange, left.drop 1 ++ rest, 0⟩
      else .ok (.real (.finite negative 0), rest)

/-- Reads a fraction, after its point. -/
def readFraction (negative : Bool) (significand : Nat) (exponent : Int) (cs : List Char) :
    Reading Number :=
  let digits := cs.takeWhile Char.isDigit
  let rest := cs.dropWhile Char.isDigit
  if digits.isEmpty then
    .error (if cs.isEmpty then ⟨.endInValue, [], 0⟩ else ⟨.invalidNumber, cs, 1⟩)
  else
    let (n, left) := gather maxSignificand significand digits
    let exponent := exponent - (digits.length - left.length : Nat)
    match rest with
    | 'e' :: rest | 'E' :: rest => readExponent negative n exponent rest
    | rest => realNumber negative n exponent rest

/-- A number without fraction and exponent: negative zero, and what does not fit 64 bits, is a
binary64 number. -/
def wholeNumber (negative : Bool) (n : Nat) : Number :=
  if !negative then .integer n
  else if n = 0 || n > Int64.minValue.toInt.natAbs then .real (-Binary64.ofNat n)
  else .integer (-n)

/-- Reads a number, after its sign. -/
def readNumber (negative : Bool) (cs : List Char) : Reading Number :=
  let digits := cs.takeWhile Char.isDigit
  let rest := cs.dropWhile Char.isDigit
  match cs, digits with
  | [], _ => .error ⟨.endInValue, [], 0⟩
  | _, [] => .error ⟨.invalidNumber, cs, 1⟩
  | _, '0' :: d :: ds => .error ⟨.invalidNumber, d :: ds ++ rest, 1⟩
  | _, digits =>
    let (n, left) := gather maxSignificand 0 digits
    match rest with
    | '.' :: rest => readFraction negative n left.length rest
    | 'e' :: rest | 'E' :: rest => readExponent negative n left.length rest
    | rest =>
      if left.isEmpty then .ok (wholeNumber negative n, rest)
      else realNumber negative n left.length rest

/-! ## Strings -/

/-- The value of a hexadecimal digit. -/
def hexValue? (c : Char) : Option Nat :=
  if c.isDigit then some (c.toNat - 48)
  else if 'a' ≤ c && c ≤ 'f' then some (c.toNat - 87)
  else if 'A' ≤ c && c ≤ 'F' then some (c.toNat - 55)
  else none

/-- Reads four bytes as hexadecimal digits. -/
def readHex (cs : List Char) : Reading Nat :=
  match cs with
  | a :: b :: c :: d :: rest =>
    match hexValue? a, hexValue? b, hexValue? c, hexValue? d with
    | some a, some b, some c, some d => .ok (((a * 16 + b) * 16 + c) * 16 + d, rest)
    | _, _, _, _ => .error ⟨.invalidEscape, cs, 4⟩
  | cs => .error (if byteLength cs < 4 then ⟨.endInString, [], 0⟩ else ⟨.invalidEscape, cs, 4⟩)

/-- Reads the second half of a pair of surrogates. -/
def readLowSurrogate (high : Nat) (cs : List Char) : Reading Char :=
  match cs with
  | [] => .error ⟨.endInString, [], 0⟩
  | '\\' :: [] => .error ⟨.endInString, [], 0⟩
  | '\\' :: 'u' :: rest =>
    match readHex rest with
    | .error stop => .error stop
    | .ok (low, rest) =>
      if 0xDC00 ≤ low && low ≤ 0xDFFF then
        .ok (Char.ofNat (0x10000 + (high - 0xD800) * 0x400 + (low - 0xDC00)), rest)
      else .error ⟨.loneSurrogate, rest, 0⟩
  | '\\' :: rest => .error ⟨.endOfHexEscape, rest, 1⟩
  | rest => .error ⟨.endOfHexEscape, rest, 1⟩

/-- Reads an escape, after its backslash. -/
def readEscape : List Char → Reading Char
  | [] => .error ⟨.endInString, [], 0⟩
  | '"' :: rest => .ok ('"', rest)
  | '\\' :: rest => .ok ('\\', rest)
  | '/' :: rest => .ok ('/', rest)
  | 'b' :: rest => .ok ('\x08', rest)
  | 'f' :: rest => .ok ('\x0c', rest)
  | 'n' :: rest => .ok ('\n', rest)
  | 'r' :: rest => .ok ('\r', rest)
  | 't' :: rest => .ok ('\t', rest)
  | 'u' :: rest =>
    match readHex rest with
    | .error stop => .error stop
    | .ok (n, rest) =>
      if 0xDC00 ≤ n && n ≤ 0xDFFF then .error ⟨.loneSurrogate, rest, 0⟩
      else if 0xD800 ≤ n && n ≤ 0xDBFF then readLowSurrogate n rest
      else .ok (Char.ofNat n, rest)
  | rest => .error ⟨.invalidEscape, rest, 1⟩

/-- Reads a string, after its opening quote, in front of the characters read so far (the last one
first). Each round takes a character at least, so the length of the text is fuel enough. -/
def readString : Nat → List Char → List Char → Reading (List Char)
  | 0, _, _ => .error ⟨.endInString, [], 0⟩
  | _, _, [] => .error ⟨.endInString, [], 0⟩
  | _, read, '"' :: rest => .ok (read.reverse, rest)
  | fuel + 1, read, '\\' :: rest =>
    match readEscape rest with
    | .error stop => .error stop
    | .ok (c, rest) => readString fuel (c :: read) rest
  | fuel + 1, read, c :: rest =>
    if c.toNat < 0x20 then .error ⟨.controlCharacter, c :: rest, 1⟩
    else readString fuel (c :: read) rest

/-! ## Lists and objects -/

/-- Reads the items of a list, after those read so far (the last one first), and its closing
bracket. -/
def readItems (item : List Char → Reading Value) :
    Nat → List Value → List Char → Reading (List Value)
  | 0, _, _ => .error ⟨.endInList, [], 0⟩
  | fuel + 1, read, cs =>
    let next (cs : List Char) : Reading (List Value) :=
      match item cs with
      | .error stop => .error stop
      | .ok (v, rest) => readItems item fuel (v :: read) rest
    match skipSpace cs with
    | [] => .error ⟨.endInList, [], 0⟩
    | ']' :: rest => .ok (read.reverse, rest)
    | c :: rest =>
      if read.isEmpty then next (c :: rest)
      else if c = ',' then
        match skipSpace rest with
        | [] => .error ⟨.endInValue, [], 0⟩
        | ']' :: rest => .error ⟨.trailingComma, ']' :: rest, 1⟩
        | rest => next rest
      else .error ⟨.expectedListComma, c :: rest, 1⟩

/-- Reads a member of an object: a key, a colon and a value. -/
def readMember (value : List Char → Reading Value) (fuel : Nat) (cs : List Char) :
    Reading (String × Value) :=
  match cs with
  | '"' :: rest =>
    match readString fuel [] rest with
    | .error stop => .error stop
    | .ok (key, rest) =>
      match skipSpace rest with
      | [] => .error ⟨.endInObject, [], 0⟩
      | ':' :: rest =>
        match value rest with
        | .error stop => .error stop
        | .ok (v, rest) => .ok ((String.ofList key, v), rest)
      | rest => .error ⟨.expectedColon, rest, 1⟩
  | rest => .error ⟨.keyNotString, rest, 1⟩

/-- Reads the members of an object, after those read so far (the last one first), and its closing
brace. -/
def readMembers (value : List Char → Reading Value) :
    Nat → List (String × Value) → List Char → Reading (List (String × Value))
  | 0, _, _ => .error ⟨.endInObject, [], 0⟩
  | fuel + 1, read, cs =>
    let next (cs : List Char) : Reading (List (String × Value)) :=
      match readMember value (fuel + 1) cs with
      | .error stop => .error stop
      | .ok (m, rest) => readMembers value fuel (m :: read) rest
    match skipSpace cs with
    | [] => .error ⟨.endInObject, [], 0⟩
    | '\x7d' :: rest => .ok (read.reverse, rest)
    | c :: rest =>
      if read.isEmpty then next (c :: rest)
      else if c = ',' then
        match skipSpace rest with
        | [] => .error ⟨.endInValue, [], 0⟩
        | '\x7d' :: rest => .error ⟨.trailingComma, '\x7d' :: rest, 1⟩
        | rest => next rest
      else .error ⟨.expectedObjectComma, c :: rest, 1⟩

/-! ## Values -/

/-- Reads a value, given a reader for the values inside it unless it may hold none. -/
def readWith (fuel : Nat) (inner : Option (List Char → Reading Value)) (cs : List Char) :
    Reading Value :=
  match skipSpace cs with
  | [] => .error ⟨.endInValue, [], 0⟩
  | 'n' :: rest => readIdent .null "ull".toList rest
  | 't' :: rest => readIdent (.bool true) "rue".toList rest
  | 'f' :: rest => readIdent (.bool false) "alse".toList rest
  | '"' :: rest =>
    match readString fuel [] rest with
    | .error stop => .error stop
    | .ok (s, rest) => .ok (.string (String.ofList s), rest)
  | '[' :: rest =>
    match inner with
    | none => .error ⟨.tooDeep, '[' :: rest, 1⟩
    | some item =>
      match readItems item fuel [] rest with
      | .error stop => .error stop
      | .ok (vs, rest) => .ok (.array vs, rest)
  | '\x7b' :: rest =>
    match inner with
    | none => .error ⟨.tooDeep, '\x7b' :: rest, 1⟩
    | some value =>
      match readMembers value fuel [] rest with
      | .error stop => .error stop
      | .ok (ms, rest) => .ok (.object (Object.ofMembers ms), rest)
  | '-' :: rest =>
    match readNumber true rest with
    | .error stop => .error stop
    | .ok (n, rest) => .ok (.number n, rest)
  | c :: rest =>
    if c.isDigit then
      match readNumber false (c :: rest) with
      | .error stop => .error stop
      | .ok (n, rest) => .ok (.number n, rest)
    else .error ⟨.expectedValue, c :: rest, 1⟩

/-- Reads a value in which lists and objects nest at most `depth` deep. -/
def readValue (fuel : Nat) : Nat → List Char → Reading Value
  | 0 => readWith fuel none
  | depth + 1 => readWith fuel (some (readValue fuel depth))

/-- How deep lists and objects may nest. -/
def maxDepth : Nat := 127

/-- Reads a whole text as one value. -/
def readAll (cs : List Char) : Except Stop Value :=
  match readValue (cs.length + 1) maxDepth cs with
  | .error stop => .error stop
  | .ok (v, rest) =>
    match skipSpace rest with
    | [] => .ok v
    | rest => .error ⟨.trailingCharacters, rest, 1⟩

/-- Reads a text as one value, or says what is wrong with it. -/
def parse (text : String) : Except Error Value :=
  (readAll text.toList).mapError (·.toError text.toList)

end SkillMarket.Json

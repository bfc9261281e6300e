import SkillMarket.Binary64.Decimal
import SkillMarket.Json.Value

/-!
Writing JSON.

A layout says what stands between the parts of a value, such as a line break and two blanks for
each level (`pretty`). Strings escape what must be escaped and nothing else.
-/

namespace SkillMarket.Json

/-! ## Numbers -/

/-- A natural number in decimal. -/
def natText (n : Nat) : List Char := Nat.toDigits 10 n

/-- An integer in decimal. -/
def intText (n : Int) : List Char := (if n < 0 then ['-'] else []) ++ natText n.natAbs

/-- The exponents of the first digit for which a number is written without an exponent. -/
def isPlain (exponent : Int) : Bool := -5 ≤ exponent && exponent ≤ 15

/-- Digits written in place, with at least one digit on each side of the point. -/
def plainText (d : Binary64.Digits) : List Char :=
  if d.exponent < 0 then
    '0' :: '.' :: List.replicate ((-d.exponent).toNat - 1) '0' ++ d.digits
  else
    let whole := d.exponent.toNat + 1
    let fraction := d.digits.drop whole
    d.digits.take whole ++ List.replicate (whole - d.digits.length) '0' ++ '.' ::
      (if fraction.isEmpty then ['0'] else fraction)

/-- Digits written with the point after the first, and a signed exponent. -/
def scientificText (d : Binary64.Digits) : List Char :=
  let fraction := d.digits.drop 1
  d.digits.take 1 ++ (if fraction.isEmpty then [] else '.' :: fraction) ++ 'e' ::
    (if d.exponent < 0 then '-' else '+') :: natText d.exponent.natAbs

/-- A binary64 number with the fewest digits that identify it. -/
def realText : Binary64 → List Char
  | .finite s u =>
    (if s then ['-'] else []) ++
      if u = 0 then ['0', '.', '0']
      else
        let d := Binary64.shortest u
        if isPlain d.exponent then plainText d else scientificText d
  | _ => "null".toList

def Number.text : Number → List Char
  | .integer n => intText n
  | .real x => realText x

/-! ## Strings -/

/-- How a character is written inside a string. -/
def escape (c : Char) : List Char :=
  match c with
  | '"' => ['\\', '"']
  | '\\' => ['\\', '\\']
  | '\x08' => ['\\', 'b']
  | '\t' => ['\\', 't']
  | '\n' => ['\\', 'n']
  | '\x0c' => ['\\', 'f']
  | '\r' => ['\\', 'r']
  | c =>
    if c.toNat < 0x20 then
      ['\\', 'u', '0', '0', Nat.digitChar (c.toNat / 16), Nat.digitChar (c.toNat % 16)]
    else [c]

/-- A string in quotes. -/
def quote (cs : List Char) : List Char := '"' :: cs.flatMap escape ++ ['"']

/-! ## Values -/

/-- What stands before each part of an array or object at a depth, and after each key. -/
structure Layout where
  newline : Nat → List Char
  colon : List Char

/-- One part a line, two blanks for each level. -/
def Layout.pretty : Layout := ⟨fun depth => '\n' :: List.replicate (2 * depth) ' ', [':', ' ']⟩

mutual

/-- A value whose brackets stand at the given depth. -/
def render (l : Layout) (depth : Nat) : Value → List Char
  | .null => "null".toList
  | .bool true => "true".toList
  | .bool false => "false".toList
  | .number n => n.text
  | .string s => quote s.toList
  | .array [] => ['[', ']']
  | .array (v :: vs) =>
    '[' :: l.newline (depth + 1) ++ render l (depth + 1) v ++ renderItems l depth vs
  | .object [] => ['\x7b', '\x7d']
  | .object ((k, v) :: ms) =>
    '\x7b' :: l.newline (depth + 1) ++ quote k.toList ++ l.colon ++ render l (depth + 1) v ++
      renderMembers l depth ms

/-- The further items of an array, and its closing bracket. -/
def renderItems (l : Layout) (depth : Nat) : List Value → List Char
  | [] => l.newline depth ++ [']']
  | v :: vs =>
    ',' :: l.newline (depth + 1) ++ render l (depth + 1) v ++ renderItems l depth vs

/-- The further members of an object, and its closing brace. -/
def renderMembers (l : Layout) (depth : Nat) : List (String × Value) → List Char
  | [] => l.newline depth ++ ['\x7d']
  | (k, v) :: ms =>
    ',' :: l.newline (depth + 1) ++ quote k.toList ++ l.colon ++ render l (depth + 1) v ++
      renderMembers l depth ms

end

/-- The text of a value over several lines. -/
def Value.pretty (v : Value) : String := String.ofList (render .pretty 0 v)

end SkillMarket.Json

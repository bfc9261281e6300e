import SkillMarket.Binary64.Decimal
import SkillMarket.Toml.Table

/-!
TOML scalars: strings, numbers, truth values, dates and times.

A text is prepared first: it must hold no control characters but tabs and newlines, and line endings
become newlines. Each reader gives what it has read and the text after it.
-/

namespace SkillMarket.Toml

/-! ## Preparing a text -/

/-- The characters that a prepared text may hold. -/
def isAllowed (c : Char) : Bool :=
  c == '\t' || c == '\n' || (' ' ≤ c && c ≤ '~') || 0x80 ≤ c.toNat

/-- Writes a carriage return with a newline as a newline. -/
def unifyNewlines : List Char → List Char
  | [] => []
  | '\r' :: '\n' :: rest => '\n' :: unifyNewlines rest
  | c :: rest => c :: unifyNewlines rest

/-- Drops a byte-order mark. -/
def dropMark : List Char → List Char
  | '\uFEFF' :: rest => rest
  | cs => cs

/-- The text to be read, if all its characters are allowed. -/
def prepare? (text : List Char) : Option (List Char) :=
  let text := unifyNewlines (dropMark text)
  if text.all isAllowed then some text else none

def isBlank (c : Char) : Bool := c == ' ' || c == '\t'

/-! ## Strings -/

/-- The characters of the escapes that are a single letter. -/
def letterEscapes : List (Char × Char) :=
  [('b', '\x08'), ('t', '\t'), ('n', '\n'), ('f', '\x0c'), ('r', '\r'), ('"', '"'), ('\\', '\\')]

/-- The letters of the escapes with digits, and the numbers of digits. -/
def digitEscapes : List (Char × Nat) := [('u', 4), ('U', 8)]

/-- The value of a digit in a base up to 16. -/
def digit? (base : Nat) (c : Char) : Option Nat :=
  let n := if c.isDigit then c.toNat - 48
    else if 'a' ≤ c && c ≤ 'f' then c.toNat - 87
    else if 'A' ≤ c && c ≤ 'F' then c.toNat - 55
    else base
  if n < base then some n else none

/-- The value of digits in a base; what is no digit counts as nothing. -/
def valueOf (base : Nat) (digits : List Char) : Nat :=
  digits.foldl (fun n d => n * base + (digit? base d).getD 0) 0

/-- The character of a code point that is one. -/
def charOf? (n : Nat) : Option Char :=
  if n < 0xD800 || (0xDFFF < n && n ≤ 0x10FFFF) then some (Char.ofNat n) else none

/-- The character that an escape stands for, and the number of characters after the backslash. -/
def readEscape? : List Char → Option (Char × Nat)
  | [] => none
  | c :: rest =>
    match letterEscapes.lookup c with
    | some e => some (e, 1)
    | none => do
      let n ← digitEscapes.lookup c
      let digits := rest.take n
      if digits.length < n || !digits.all (digit? 16 · |>.isSome) then none
      return (← charOf? (valueOf 16 digits), n + 1)

/-- Reads the rest of a string on one line, up to its closing quote, after passing over some
characters. -/
def readBasic (pass : Nat) : List Char → Option (List Char × List Char)
  | [] => none
  | c :: rest =>
    match pass with
    | pass + 1 => readBasic pass rest
    | 0 =>
      if c = '"' then some ([], rest)
      else if c = '\n' then none
      else if c = '\\' then do
        let (e, n) ← readEscape? rest
        let r ← readBasic n rest
        return (e :: r.1, r.2)
      else (readBasic 0 rest).map fun r => (c :: r.1, r.2)

/-- Reads the rest of a string on one line without escapes, up to its closing quote. -/
def readLiteral : List Char → Option (List Char × List Char)
  | [] => none
  | c :: rest =>
    if c = '\'' then some ([], rest)
    else if c = '\n' then none
    else (readLiteral rest).map fun r => (c :: r.1, r.2)

/-- Drops a newline. -/
def dropNewline : List Char → List Char
  | '\n' :: rest => rest
  | cs => cs

/-- A backslash at the end of a line stands here: it hides blanks and newlines up to the next
character. -/
def hidesNewline (rest : List Char) : Bool := (rest.dropWhile isBlank).head? == some '\n'

/-- What is left after the closing quotes of a string over several lines, and the quotes before
them that belong to the string: of three to five quotes, the last three close it. -/
def closing? (quote : Char) (cs : List Char) : Option (List Char × List Char) :=
  let quotes := (cs.take 5).takeWhile (· == quote)
  if quotes.length < 3 then none else some (quotes.drop 3, cs.drop quotes.length)

/-- Reads the rest of a string over several lines, up to its closing quotes, after passing over
some characters; `hidden` says that blanks and newlines are passed over, too. -/
def readLines (pass : Nat) (hidden : Bool) : List Char → Option (List Char × List Char)
  | [] => none
  | c :: rest =>
    match pass with
    | pass + 1 => readLines pass hidden rest
    | 0 =>
      if hidden && (isBlank c || c == '\n') then readLines 0 true rest
      else if c = '\\' then
        if hidesNewline rest then readLines 0 true rest
        else do
          let (e, n) ← readEscape? rest
          let r ← readLines n false rest
          return (e :: r.1, r.2)
      else
        match closing? '"' (c :: rest) with
        | some r => some r
        | none => (readLines 0 false rest).map fun r => (c :: r.1, r.2)

/-- Reads the rest of a string over several lines without escapes, up to its closing quotes. -/
def readLiteralLines : List Char → Option (List Char × List Char)
  | [] => none
  | c :: rest =>
    match closing? '\'' (c :: rest) with
    | some r => some r
    | none => (readLiteralLines rest).map fun r => (c :: r.1, r.2)

/-- Reads a string. -/
def readString : List Char → Option (List Char × List Char)
  | '"' :: '"' :: '"' :: rest => readLines 0 false (dropNewline rest)
  | '"' :: rest => readBasic 0 rest
  | '\'' :: '\'' :: '\'' :: rest => readLiteralLines (dropNewline rest)
  | '\'' :: rest => readLiteral rest
  | _ => none

/-! ## Numbers -/

/-- Reads digits in a base, with single underscores between them. -/
def readDigits (base : Nat) (cs : List Char) : Option (List Char × List Char) :=
  match cs with
  | c :: _ =>
    if (digit? base c).isSome then
      let run := cs.takeWhile fun c => c == '_' || (digit? base c).isSome
      if wellSpaced run then some (run.filter (· ≠ '_'), cs.drop run.length) else none
    else none
  | [] => none
where
  /-- Every underscore stands before a digit. -/
  wellSpaced : List Char → Bool
    | [] => true
    | ['_'] => false
    | '_' :: '_' :: _ => false
    | _ :: rest => wellSpaced rest

/-- Reads the digits of a whole number: a zero stands alone. -/
def readWhole : List Char → Option (List Char × List Char)
  | '0' :: rest => some (['0'], rest)
  | cs => readDigits 10 cs

/-- Integers have 64 bits. -/
def integer? (n : Int) : Option Value :=
  if Int64.minValue.toInt ≤ n && n ≤ Int64.maxValue.toInt then some (.integer n) else none

/-- Reads an exponent, if there is one. -/
def readExponent : List Char → Option (Option Int × List Char)
  | c :: rest =>
    if c = 'e' || c = 'E' then
      let (negative, rest) := match rest with
        | '-' :: rest => (true, rest)
        | '+' :: rest => (false, rest)
        | rest => (false, rest)
      (readDigits 10 rest).map fun (ds, rest) =>
        let n : Int := valueOf 10 ds
        (some (if negative then -n else n), rest)
    else some (none, c :: rest)
  | [] => some (none, [])

/-- Reads a fraction, if there is one. -/
def readFraction : List Char → Option (Option (List Char) × List Char)
  | '.' :: rest => (readDigits 10 rest).map fun (ds, rest) => (some ds, rest)
  | rest => some (none, rest)

/-- Reads a decimal number after its sign: an integer if it has neither fraction nor exponent. A
binary64 number may not be too large. -/
def readDecimal (negative : Bool) (cs : List Char) : Option (Value × List Char) := do
  let (whole, cs) ← readWhole cs
  let (fraction, cs) ← readFraction cs
  let (exponent, cs) ← readExponent cs
  if fraction.isNone && exponent.isNone then
    let n : Int := valueOf 10 whole
    return (← integer? (if negative then -n else n), cs)
  else
    let digits := fraction.getD []
    let x := Binary64.ofDecimal negative (valueOf 10 (whole ++ digits))
      (exponent.getD 0 - digits.length)
    if x = .infinite false then none else return (.real x, cs)

/-- The rest of a text that begins with a word. -/
def after? : List Char → List Char → Option (List Char)
  | [], cs => some cs
  | _ :: _, [] => none
  | w :: ws, c :: cs => if c = w then after? ws cs else none

/-- Reads a number after its sign. -/
def readUnsigned (negative : Bool) (cs : List Char) : Option (Value × List Char) :=
  match after? "inf".toList cs, after? "nan".toList cs with
  | some rest, _ => some (.real (.infinite negative), rest)
  | _, some rest => some (.real .nan, rest)
  | none, none => readDecimal negative cs

/-- Reads a whole number in the base that its start names. -/
def readInBase (base : Nat) (cs : List Char) : Option (Value × List Char) := do
  let (ds, rest) ← readDigits base cs
  return (← integer? (valueOf base ds), rest)

/-- Reads a number. -/
def readNumber : List Char → Option (Value × List Char)
  | '0' :: 'x' :: rest => readInBase 16 rest
  | '0' :: 'o' :: rest => readInBase 8 rest
  | '0' :: 'b' :: rest => readInBase 2 rest
  | '+' :: rest => readUnsigned false rest
  | '-' :: rest => readUnsigned true rest
  | cs => readUnsigned false cs

/-! ## Dates and times -/

/-- Reads a number of so many digits that lies between bounds. -/
def readPart (count low high : Nat) (cs : List Char) : Option (Nat × List Char) :=
  let digits := cs.take count
  let n := valueOf 10 digits
  if digits.length = count && digits.all Char.isDigit && low ≤ n && n ≤ high then
    some (n, cs.drop count)
  else none

/-- Reads one character. -/
def readMark (mark : Char) : List Char → Option (List Char)
  | c :: rest => if c = mark then some rest else none
  | [] => none

def isLeapYear (year : Nat) : Bool := year % 4 == 0 && (year % 100 != 0 || year % 400 == 0)

def daysIn (year month : Nat) : Nat :=
  if month = 2 then (if isLeapYear year then 29 else 28)
  else if month = 4 || month = 6 || month = 9 || month = 11 then 30
  else 31

/-- Passes over a date. -/
def skipDate (cs : List Char) : Option (List Char) := do
  let (year, cs) ← readPart 4 0 9999 cs
  let (month, cs) ← readPart 2 1 12 (← readMark '-' cs)
  let (_, cs) ← readPart 2 1 (daysIn year month) (← readMark '-' cs)
  return cs

/-- Passes over a fraction of a second, if there is one. -/
def skipSecondFraction : List Char → List Char
  | '.' :: rest => if rest.head?.any Char.isDigit then rest.dropWhile Char.isDigit else '.' :: rest
  | cs => cs

/-- Passes over a time; a minute may have a leap second. -/
def skipTime (cs : List Char) : Option (List Char) := do
  let (_, cs) ← readPart 2 0 23 cs
  let (_, cs) ← readPart 2 0 59 (← readMark ':' cs)
  let (_, cs) ← readPart 2 0 60 (← readMark ':' cs)
  return skipSecondFraction cs

/-- Passes over an offset from universal time, if there is one. -/
def skipOffset (cs : List Char) : Option (List Char) :=
  match cs with
  | c :: rest =>
    if c = 'Z' || c = 'z' then some rest
    else if c = '+' || c = '-' then do
      let (_, rest) ← readPart 2 0 23 rest
      let (_, rest) ← readPart 2 0 59 (← readMark ':' rest)
      return rest
    else some cs
  | [] => some []

/-- Passes over a time with an offset after a date, if there is one. -/
def skipTimeOfDate (cs : List Char) : Option (List Char) :=
  match cs with
  | c :: rest =>
    if c = 'T' || c = 't' || c = ' ' then
      match skipTime rest with
      | some rest => skipOffset rest
      | none => some cs
    else some cs
  | [] => some []

/-- Passes over a date, a time, or both. -/
def skipDateTime (cs : List Char) : Option (List Char) :=
  match skipDate cs with
  | some rest => skipTimeOfDate rest
  | none => skipTime cs

/-! ## Scalars -/

/-- Reads a scalar. -/
def readScalar (cs : List Char) : Option (Value × List Char) :=
  match cs with
  | [] => none
  | c :: _ =>
    if c = '"' || c = '\'' then (readString cs).map fun r => (.string r.1, r.2)
    else
      match after? "true".toList cs, after? "false".toList cs with
      | some rest, _ => some (.bool true, rest)
      | _, some rest => some (.bool false, rest)
      | none, none =>
        match skipDateTime cs with
        | some rest => some (.datetime, rest)
        | none => readNumber cs

end SkillMarket.Toml

import ImportRepair.Number.Binary64
import ImportRepair.Toml.Value

/-!
# Scalars of TOML texts

Strings of four kinds, integers of four bases, floats, truth values and dates.

## Implementation notes

A scalar that is no string goes on up to a sign that no scalar has, and over spaces to the next
word. The run is taken as a whole and then has to be a scalar from end to end.
-/

namespace ImportRepair.Toml

/-- The value of a digit in a base up to sixteen. -/
def digit? (base : Nat) (c : Char) : Option Nat :=
  let n :=
    if c.isDigit then c.toNat - 48
    else if 'a' ≤ c ∧ c ≤ 'f' then c.toNat - 87
    else if 'A' ≤ c ∧ c ≤ 'F' then c.toNat - 55
    else 16
  if n < base then some n else none

/-- The character with a hexadecimal number, unless the number is of no character. -/
def charOfHex? (digits : List Char) : Option Char := do
  let ds ← digits.mapM (digit? 16)
  let n := ds.foldl (fun n d => n * 16 + d) 0
  if n.isValidChar then some (Char.ofNat n) else none

/-- The character that a one-letter escape stands for. -/
def escaped? (c : Char) : Option Char :=
  match c with
  | 'b' => some '\x08'
  | 't' => some '\t'
  | 'n' => some '\n'
  | 'f' => some '\x0c'
  | 'r' => some '\r'
  | 'e' => some '\x1b'
  | '"' => some '"'
  | '\\' => some '\\'
  | _ => none

/-- The character of the escape after a backslash, and the number of characters it takes. -/
def escape? : List Char → Option (Char × Nat)
  | 'x' :: cs => if 2 ≤ cs.length then (charOfHex? (cs.take 2)).map (·, 3) else none
  | 'u' :: cs => if 4 ≤ cs.length then (charOfHex? (cs.take 4)).map (·, 5) else none
  | 'U' :: cs => if 8 ≤ cs.length then (charOfHex? (cs.take 8)).map (·, 9) else none
  | c :: _ => (escaped? c).map (·, 1)
  | [] => none

/-- The characters of a string on one line up to its closing quote, and the text after the quote.
The first `skip` characters belong to an escape that has been read. -/
def basicString : Nat → List Char → Option (List Char × List Char)
  | _, [] => none
  | skip + 1, _ :: cs => basicString skip cs
  | 0, c :: cs =>
    if c = '"' then some ([], cs)
    else if c = '\\' then do
      let (e, taken) ← escape? cs
      let (s, rest) ← basicString taken cs
      return (e :: s, rest)
    else if isPlain c then do
      let (s, rest) ← basicString 0 cs
      return (c :: s, rest)
    else none

/-- The characters of a string without escapes up to its closing quote. -/
def literalString : List Char → Option (List Char × List Char)
  | [] => none
  | c :: cs =>
    if c = '\'' then some ([], cs)
    else if isPlain c then do
      let (s, rest) ← literalString cs
      return (c :: s, rest)
    else none

/-- The end of a string between triple quotes: up to two quotes before the closing ones belong to
the string. -/
def closeTriple? (quote : Char) (cs : List Char) : Option (List Char × List Char) :=
  let quotes := (cs.takeWhile (· == quote)).length
  if 3 ≤ quotes then
    let inside := min (quotes - 3) 2
    some (List.replicate inside quote, cs.drop (inside + 3))
  else none

/-- Holds when only spaces stand before the next line end. -/
def endsLine (cs : List Char) : Bool := (newline? (skipSpaces cs)).isSome

/-- The characters of a string between triple quotes. A backslash at the end of a line takes away
all space up to the next character; `folding` tells that such space is being passed over. -/
def tripleBasic (folding : Bool) : Nat → List Char → Option (List Char × List Char)
  | _, [] => none
  | skip + 1, _ :: cs => tripleBasic false skip cs
  | 0, c :: cs =>
    if folding ∧ (isSpace c ∨ c = '\n' ∨ (c = '\r' ∧ cs.head? = some '\n')) then
      tripleBasic true 0 cs
    else match closeTriple? '"' (c :: cs) with
      | some closing => some closing
      | none =>
        if c = '\\' then
          if endsLine cs then tripleBasic true 0 cs
          else do
            let (e, taken) ← escape? cs
            let (s, rest) ← tripleBasic false taken cs
            return (e :: s, rest)
        else if isPlain c ∨ c = '\n' ∨ (c = '\r' ∧ cs.head? = some '\n') then do
          let (s, rest) ← tripleBasic false 0 cs
          return (c :: s, rest)
        else none

/-- The characters of a string between triple quotes without escapes. -/
def tripleLiteral : List Char → Option (List Char × List Char)
  | [] => none
  | c :: cs =>
    match closeTriple? '\'' (c :: cs) with
    | some closing => some closing
    | none =>
      if isPlain c ∨ c = '\n' ∨ (c = '\r' ∧ cs.head? = some '\n') then do
        let (s, rest) ← tripleLiteral cs
        return (c :: s, rest)
      else none

/-- A line end right after an opening triple quote does not count. -/
def dropFirstNewline (cs : List Char) : List Char := (newline? cs).getD cs

/-- Read a string value from the front of a text. -/
def string? : List Char → Option (List Char × List Char)
  | '"' :: '"' :: '"' :: cs => tripleBasic false 0 (dropFirstNewline cs)
  | '"' :: cs => basicString 0 cs
  | '\'' :: '\'' :: '\'' :: cs => tripleLiteral (dropFirstNewline cs)
  | '\'' :: cs => literalString cs
  | _ => none

/-- Take a sign off the front of a text. -/
def sign : List Char → Bool × List Char
  | '+' :: cs => (false, cs)
  | '-' :: cs => (true, cs)
  | cs => (false, cs)

/-- Holds when every underscore stands between digits of a base; `before` tells whether the text
follows a digit. -/
def underscoresApart (base : Nat) (before : Bool) : List Char → Bool
  | [] => true
  | ['_'] => false
  | '_' :: c :: cs => before && (digit? base c).isSome && underscoresApart base true cs
  | c :: cs => underscoresApart base (digit? base c).isSome cs

/-- A number without its underscores. -/
def withoutUnderscores (cs : List Char) : List Char := cs.filter (· != '_')

/-- The value of digits in a base. -/
def valueOfDigits (base : Nat) (ds : List Nat) : Nat := ds.foldl (fun n d => n * base + d) 0

/-- The integer with some digits; readers accept those from `-2 ^ 127` up to `2 ^ 128`. -/
def integerOf (base : Nat) (negative : Bool) (digits : List Char) : Toml :=
  match digits.mapM (digit? base) with
  | none => .unreadable
  | some [] => .unreadable
  | some ds =>
    let n : Int := valueOfDigits base ds
    let n := if negative then -n else n
    if -(twoPow 127 : Int) ≤ n ∧ n < (twoPow 128 : Int) then .integer n else .unreadable

/-- An integer in a base other than ten, written without a sign. -/
def basedInteger (base : Nat) (cs : List Char) : Option Toml :=
  if cs.all (fun c => c == '_' || (digit? base c).isSome) && underscoresApart base false cs then
    some (integerOf base false (withoutUnderscores cs))
  else none

/-- Holds when digits times a power of ten do not exceed the greatest floating point number. -/
def fitsFloat (ds : List Nat) (exponent : Int) : Bool :=
  let n := valueOfDigits 10 ds
  if n = 0 ∨ (ds.length : Int) + exponent < 300 then true
  else if 700 < (ds.length : Int) + exponent - ((ds.takeWhile (· == 0)).length : Int) then false
  else
    let f := if 0 ≤ exponent then (n * tenPow exponent.toNat, 1) else (n, tenPow (-exponent).toNat)
    (Binary64.ofFraction f.1 f.2).isSome

/-- Take the digits off the front of a text, of which there has to be one. -/
def digits? (cs : List Char) : Option (List Nat × List Char) :=
  let digits := cs.takeWhile Char.isDigit
  if digits = [] then none
  else some (digits.filterMap (digit? 10), cs.drop digits.length)

/-- The exponent of a float, up to the end of the text. -/
def floatExponent : List Char → Option Int
  | [] => some 0
  | c :: cs => do
    let (negative, cs) := sign cs
    let (ds, []) ← digits? cs | none
    let e : Int := valueOfDigits 10 ds
    if c = 'e' ∨ c = 'E' then some (if negative then -e else e) else none

/-- A float without sign and underscores, up to the end of the text. -/
def float? (cs : List Char) : Option Toml := do
  let (whole, cs) ← digits? cs
  let (fraction, cs) ← match cs with
    | '.' :: cs => digits? cs
    | cs => some ([], cs)
  let exponent ← floatExponent cs
  return if fitsFloat (whole ++ fraction) (exponent - fraction.length) then .float else .unreadable

/-- Holds for a number that begins with a zero and goes on with another digit. -/
def hasLeadingZero : List Char → Bool
  | '0' :: c :: _ => c.isDigit || c == '_'
  | _ => false

/-- A number in base ten, up to the end of the text. An integer has a value only when it is made of
digits, but after its first underscore it may be written with anything but a space. -/
def decimalNumber? (cs : List Char) : Option Toml :=
  let (negative, number) := sign cs
  let plain := withoutUnderscores number
  if hasLeadingZero number then none
  else if number.any (fun c => c == '.' || c == 'e' || c == 'E') then
    if underscoresApart 10 false number then float? plain else none
  else
    let rest := number.dropWhile Char.isDigit
    if number ≠ [] ∧ (rest = [] ∨ rest.head? = some '_') ∧ ' ' ∉ rest ∧
        underscoresApart 16 false number then
      some (integerOf 10 negative plain)
    else none

/-- The number of two digits at the front of a text. -/
def twoDigits : List Char → Option (Nat × List Char)
  | a :: b :: cs => do
    let x ← digit? 10 a
    let y ← digit? 10 b
    return (x * 10 + y, cs)
  | _ => none

/-- The number of days of a month. -/
def monthDays (year month : Nat) : Nat :=
  if month = 2 then
    if year % 4 = 0 ∧ (year % 100 ≠ 0 ∨ year % 400 = 0) then 29 else 28
  else if month = 4 ∨ month = 6 ∨ month = 9 ∨ month = 11 then 30
  else 31

/-- Take a date off the front of a text. -/
def date? (cs : List Char) : Option (List Char) := do
  let (century, cs) ← twoDigits cs
  let (year, cs) ← twoDigits cs
  let '-' :: cs := cs | none
  let (month, cs) ← twoDigits cs
  let '-' :: cs := cs | none
  let (day, cs) ← twoDigits cs
  if 1 ≤ month ∧ month ≤ 12 ∧ 1 ≤ day ∧ day ≤ monthDays (century * 100 + year) month then some cs
  else none

/-- Take a fraction of a second off the front of a text, if there is one. -/
def secondFraction? : List Char → Option (List Char)
  | '.' :: cs =>
    let rest := cs.dropWhile Char.isDigit
    if rest.length < cs.length then some rest else none
  | cs => some cs

/-- Take a time off the front of a text; the seconds may be left out. -/
def time? (cs : List Char) : Option (List Char) := do
  let (hour, cs) ← twoDigits cs
  let ':' :: cs := cs | none
  let (minute, cs) ← twoDigits cs
  if 23 < hour ∨ 59 < minute then none
  else match cs with
    | ':' :: cs => do
      let (second, cs) ← twoDigits cs
      if 60 < second then none else secondFraction? cs
    | cs => some cs

/-- Holds for an offset from universal time, or for nothing. -/
def isOffset : List Char → Bool
  | [] => true
  | ['Z'] => true
  | ['z'] => true
  | c :: cs =>
    (c == '+' || c == '-') &&
      match twoDigits cs with
      | some (hour, ':' :: cs) =>
        match twoDigits cs with
        | some (minute, []) => hour ≤ 23 && minute ≤ 59
        | _ => false
      | _ => false

/-- Holds for a date, a time, or both with the letter `T` or a space between them. -/
def isDatetime (cs : List Char) : Bool :=
  match date? cs with
  | some [] => true
  | some (c :: rest) =>
    (c == 'T' || c == 't' || c == ' ') &&
      match time? rest with
      | some rest => isOffset rest
      | none => false
  | none => time? cs == some []

/-- The value of a run of characters that is no string. -/
def atom? (cs : List Char) : Option Toml :=
  if cs = "true".toList then some (.boolean true)
  else if cs = "false".toList then some (.boolean false)
  else if isDatetime cs then some .datetime
  else
    let (_, unsigned) := sign cs
    if unsigned = "inf".toList ∨ unsigned = "nan".toList then some .float
    else match cs with
      | '0' :: 'x' :: cs => basedInteger 16 cs
      | '0' :: 'o' :: cs => basedInteger 8 cs
      | '0' :: 'b' :: cs => basedInteger 2 cs
      | _ => decimalNumber? cs

/-- Holds for the characters that end a scalar that is no string. -/
def endsAtom (c : Char) : Bool :=
  isSpace c || c == '\r' || c == '\n' || c == '#' || c == '=' || c == ',' || c == '[' || c == ']' ||
    c == '\x7b' || c == '\x7d'

/-- Holds for a text that goes on with a word which is no string. -/
def beginsAtom : List Char → Bool
  | [] => false
  | c :: _ => !endsAtom c && c != '"' && c != '\''

/-- The run of characters of a scalar that is no string. Spaces belong to the run when another such
word comes after them, as between a date and a time. -/
def spanAtom : List Char → List Char × List Char
  | [] => ([], [])
  | c :: cs =>
    if if isSpace c then beginsAtom (skipSpaces cs) else !endsAtom c then
      let (run, rest) := spanAtom cs
      (c :: run, rest)
    else ([], c :: cs)

end ImportRepair.Toml

import Ripple.Number.Decimal
import Ripple.Text.Hex
import Ripple.Toml

/-!
# TOML scalars

Numbers, truth values, dates and times are single words. Strings come on one line or several,
and with escapes or without.
-/

namespace Ripple.Toml

/-! ## Numbers -/

/-- Digits, possibly with single underscores between them, as plain digits. -/
def plainDigits? (isDigit : Char → Bool) : List Char → Option (List Char)
  | [] => none
  | [c] => if isDigit c then some [c] else none
  | c :: '_' :: rest => if isDigit c then (plainDigits? isDigit rest).map (c :: ·) else none
  | c :: rest => if isDigit c then (plainDigits? isDigit rest).map (c :: ·) else none

/-- Splits a sign off. -/
def splitSign : List Char → Bool × List Char
  | '+' :: cs => (false, cs)
  | '-' :: cs => (true, cs)
  | cs => (false, cs)

/-- Digits that do not start with a zero, or a zero. -/
def wholeDigits? (cs : List Char) : Option (List Char) :=
  match plainDigits? Number.isDigit cs with
  | some ['0'] => some ['0']
  | some ('0' :: _) => none
  | digits => digits

/-- An integer of 64 bits. -/
def inRange? (n : Int) : Option Int :=
  if Int64.minValue.toInt ≤ n ∧ n ≤ Int64.maxValue.toInt then some n else none

/-- Whether a digit belongs to a base. -/
def isBaseDigit (base : Nat) (c : Char) : Bool := (Text.Hex.digit? c).any (· < base)

/-- The number that digits of a base write. -/
def baseInteger? (base : Nat) (cs : List Char) : Option Int := do
  let digits ← plainDigits? (isBaseDigit base) cs
  inRange? (digits.foldl (fun n c => base * n + (Text.Hex.digit? c).getD 0) 0 : Nat)

/-- An integer: decimal with a sign, or in another base without. -/
def integer? : List Char → Option Int
  | '0' :: 'x' :: cs => baseInteger? 16 cs
  | '0' :: 'o' :: cs => baseInteger? 8 cs
  | '0' :: 'b' :: cs => baseInteger? 2 cs
  | cs => do
    let (negative, digits) := splitSign cs
    let digits ← wholeDigits? digits
    let magnitude : Int := Number.digitsValue digits
    inRange? (if negative then -magnitude else magnitude)

/-- Splits at the first character of a kind; `none` if there is none. -/
def splitAt? (p : Char → Bool) (cs : List Char) : Option (List Char × List Char) :=
  match cs.dropWhile (! p ·) with
  | [] => none
  | _ :: after => some (cs.takeWhile (! p ·), after)

/-- A whole part with a fraction or without, as plain digits before and after the point. -/
def mantissa? (cs : List Char) : Option (List Char × List Char) := do
  match splitAt? (· = '.') cs with
  | none => some (← wholeDigits? cs, [])
  | some (whole, fraction) =>
    some (← wholeDigits? whole, ← plainDigits? Number.isDigit fraction)

/-- Whether a word is a number with a fraction or exponent. It must not be too large. -/
def isFloat (cs : List Char) : Bool :=
  let (negative, unsigned) := splitSign cs
  if unsigned = ['i', 'n', 'f'] ∨ unsigned = ['n', 'a', 'n'] then true
  else
    let parts : Option (List Char × List Char × Int) := do
      match splitAt? (fun c => c = 'e' || c = 'E') unsigned with
      | none =>
        let (whole, fraction) ← mantissa? unsigned
        if fraction.isEmpty then none else some (whole, fraction, 0)
      | some (mantissa, exponent) =>
        let (whole, fraction) ← mantissa? mantissa
        let (down, digits) := splitSign exponent
        let size := Number.digitsValue (← plainDigits? Number.isDigit digits)
        some (whole, fraction, if down then -(size : Int) else size)
    match parts with
    | none => false
    | some (whole, fraction, exponent) =>
      let value := Number.ofDecimal false (Number.digitsValue (whole ++ fraction))
        (exponent - fraction.length)
      negative || value.isFinite

/-! ## Dates and times -/

/-- The number that exactly so many digits write, if it is in a range. -/
def fixedDigits? (width least greatest : Nat) (cs : List Char) : Option Nat :=
  let value := Number.digitsValue cs
  if cs.length = width ∧ cs.all Number.isDigit ∧ least ≤ value ∧ value ≤ greatest then some value
  else none

/-- The number of days of a month. -/
def daysOf (year month : Nat) : Nat :=
  if month = 2 then
    if year % 4 = 0 ∧ (year % 100 ≠ 0 ∨ year % 400 = 0) then 29 else 28
  else if month = 4 ∨ month = 6 ∨ month = 9 ∨ month = 11 then 30
  else 31

/-- Whether a word is a date. -/
def isDate (cs : List Char) : Bool :=
  let year := fixedDigits? 4 0 9999 (cs.take 4)
  let month := fixedDigits? 2 1 12 ((cs.drop 5).take 2)
  let day := fixedDigits? 2 1 31 (cs.drop 8)
  let marks := cs[4]? = some '-' ∧ cs[7]? = some '-'
  match year, month, day with
  | some year, some month, some day => marks && day ≤ daysOf year month
  | _, _, _ => false

/-- Whether a word is an hour and a minute. -/
def isHourMinute (cs : List Char) : Bool :=
  (fixedDigits? 2 0 23 (cs.take 2)).isSome && (fixedDigits? 2 0 59 (cs.drop 3)).isSome &&
    cs[2]? = some ':'

/-- Whether a word is a time of day. -/
def isTime (cs : List Char) : Bool :=
  let (main, fraction) := match splitAt? (· = '.') cs with
    | none => (cs, ['0'])
    | some parts => parts
  isHourMinute (main.take 5) && main[5]? = some ':' &&
    (fixedDigits? 2 0 60 (main.drop 6)).isSome &&
    (! fraction.isEmpty && fraction.all Number.isDigit)

/-- Whether a word is a time of day with or without an offset. -/
def isOffsetTime (cs : List Char) : Bool :=
  match cs.getLast? with
  | some 'Z' | some 'z' => isTime cs.dropLast
  | _ =>
    match splitAt? (fun c => c = '+' || c = '-') cs with
    | none => isTime cs
    | some (time, offset) => isTime time && isHourMinute offset

/-- Whether a word is a date, a time, or a date with a time. -/
def isMoment (cs : List Char) : Bool :=
  isDate cs || isTime cs ||
    (isDate (cs.take 10) && isOffsetTime (cs.drop 11) &&
      (cs[10]? = some 'T' || cs[10]? = some 't' || cs[10]? = some ' '))

/-! ## Words -/

/-- The value of a word that is not a string. -/
def ofWord? (cs : List Char) : Option Toml :=
  if cs = ['t', 'r', 'u', 'e'] then some (.bool true)
  else if cs = ['f', 'a', 'l', 's', 'e'] then some (.bool false)
  else
    match integer? cs with
    | some n => some (.integer n)
    | none => if isFloat cs then some .float else if isMoment cs then some .moment else none

/-- Whether a character ends a word. -/
def endsWord (c : Char) : Bool :=
  c = ' ' || c = '\t' || c = '\n' || c = '\r' || c = ',' || c = ']' || c = '\x7d' || c = '#'

/-- Reads a word. A blank between a date and a digit belongs to the word. -/
def readWord? (cs : List Char) : Option (Toml × List Char) :=
  let word := cs.takeWhile (! endsWord ·)
  let rest := cs.dropWhile (! endsWord ·)
  match rest with
  | ' ' :: d :: more =>
    if isDate word ∧ Number.isDigit d then
      let time := (d :: more).takeWhile (! endsWord ·)
      (ofWord? (word ++ ' ' :: time)).map (·, (d :: more).dropWhile (! endsWord ·))
    else (ofWord? word).map (·, rest)
  | _ => (ofWord? word).map (·, rest)

/-! ## Strings -/

/-- Characters that may not stand in strings and comments: controls other than the tab. -/
def isForbidden (c : Char) : Bool := (c.toNat < 32 && c ≠ '\t') || c.toNat = 127

/-- The character with a code point, if there is one. -/
def charOfCode? (code : Nat) : Option Char :=
  if code < 0xD800 ∨ (0xE000 ≤ code ∧ code < 0x110000) then some (Char.ofNat code) else none

/-- What an escape stands for, from after its backslash. -/
def readEscape? : List Char → Option (Char × List Char)
  | 'b' :: rest => some ('\x08', rest)
  | 't' :: rest => some ('\t', rest)
  | 'n' :: rest => some ('\n', rest)
  | 'f' :: rest => some ('\x0c', rest)
  | 'r' :: rest => some ('\r', rest)
  | '"' :: rest => some ('"', rest)
  | '\\' :: rest => some ('\\', rest)
  | 'u' :: a :: b :: c :: d :: rest => do
    some (← charOfCode? (← Text.Hex.value? [a, b, c, d]), rest)
  | 'U' :: a :: b :: c :: d :: e :: f :: g :: h :: rest => do
    some (← charOfCode? (← Text.Hex.value? [a, b, c, d, e, f, g, h]), rest)
  | _ => none

/-- Drops a line end at the head of a text. -/
def dropLineEnd : List Char → List Char
  | '\n' :: rest => rest
  | '\r' :: '\n' :: rest => rest
  | cs => cs

/-- Whether a text starts with a line end. -/
def startsLineEnd (cs : List Char) : Bool := (dropLineEnd cs).length < cs.length

/-- Drops blanks, tabs and line ends. -/
def dropSpace : List Char → List Char
  | ' ' :: rest => dropSpace rest
  | '\t' :: rest => dropSpace rest
  | '\n' :: rest => dropSpace rest
  | '\r' :: '\n' :: rest => dropSpace rest
  | cs => cs

/-- Drops blanks and tabs. -/
def dropBlanks (cs : List Char) : List Char := cs.dropWhile fun c => c = ' ' || c = '\t'

/-- Reads a string on one line up to its closing quote. Each step takes a character or more. -/
def readShort? (quote : Char) : Nat → List Char → Option (List Char × List Char)
  | 0, _ => none
  | count + 1, cs =>
    match cs with
    | [] => none
    | c :: rest =>
      if c = quote then some ([], rest)
      else if c = '\\' ∧ quote = '"' then do
        let (e, rest) ← readEscape? rest
        let (s, after) ← readShort? quote count rest
        some (e :: s, after)
      else if isForbidden c then none
      else do
        let (s, after) ← readShort? quote count rest
        some (c :: s, after)

/-- Reads a string over several lines up to its closing quotes. Up to two quotes may stand
before the three that close it, and a backslash at the end of a line takes away the space up to
the next character. -/
def readLong? (quote : Char) : Nat → List Char → Option (List Char × List Char)
  | 0, _ => none
  | count + 1, cs =>
    let quotes := (cs.takeWhile (· = quote)).length
    if 3 ≤ quotes then
      let closing := min quotes 5
      some (List.replicate (closing - 3) quote, cs.drop closing)
    else
      match cs with
      | [] => none
      | '\r' :: '\n' :: rest => do
        let (s, after) ← readLong? quote count rest
        some ('\r' :: '\n' :: s, after)
      | c :: rest =>
        if c = '\\' ∧ quote = '"' then
          if startsLineEnd (dropBlanks rest) then readLong? quote count (dropSpace rest)
          else do
            let (e, rest) ← readEscape? rest
            let (s, after) ← readLong? quote count rest
            some (e :: s, after)
        else if isForbidden c ∧ c ≠ '\n' then none
        else do
          let (s, after) ← readLong? quote count rest
          some (c :: s, after)

/-- Reads a string of any sort. -/
def readString? (cs : List Char) : Option (String × List Char) :=
  let found := match cs with
    | '"' :: '"' :: '"' :: rest => readLong? '"' cs.length (dropLineEnd rest)
    | '\'' :: '\'' :: '\'' :: rest => readLong? '\'' cs.length (dropLineEnd rest)
    | '"' :: rest => readShort? '"' cs.length rest
    | '\'' :: rest => readShort? '\'' cs.length rest
    | _ => none
  found.map fun (s, after) => (String.ofList s, after)

end Ripple.Toml

import Ripple.Json
import Ripple.Number.Decimal

/-!
# Reading JSON tokens

A text is cut into brackets, commas, colons, literals and strings; white space between them is
dropped.
-/

namespace Ripple.Json

/-- A token of JSON text. -/
inductive Token where
  | openArray
  | closeArray
  | openObject
  | closeObject
  | comma
  | colon
  /-- A value without parts other than a string. -/
  | scalar (value : Json)
  | string (s : JsonString)
  deriving Repr

/-- White space of JSON. -/
def isSpace (c : Char) : Bool := c = ' ' || c = '\n' || c = '\r' || c = '\t'

/-! ## Strings -/

/-- A character of a string, or half of a surrogate pair. -/
inductive CodeUnit where
  | char (c : Char)
  | half (code : Nat)
  deriving Repr

/-- What the letter after a backslash stands for. -/
def escaped? : Char → Option Char
  | '"' => some '"'
  | '\\' => some '\\'
  | '/' => some '/'
  | 'b' => some '\x08'
  | 'f' => some '\x0c'
  | 'n' => some '\n'
  | 'r' => some '\r'
  | 't' => some '\t'
  | _ => none

/-- A code point, or half of a surrogate pair. -/
def CodeUnit.ofCode (code : Nat) : CodeUnit :=
  if 0xD800 ≤ code ∧ code < 0xE000 then .half code else .char (Char.ofNat code)

/-- The first units of a string, one for each character or escape, the source between the
quotes, and what comes after the closing quote. -/
def scanString? : List Char → Option (List CodeUnit × List Char × List Char)
  | [] => none
  | '"' :: rest => some ([], [], rest)
  | '\\' :: 'u' :: a :: b :: c :: d :: rest => do
    let code ← Text.Hex.value? [a, b, c, d]
    let (units, source, after) ← scanString? rest
    some (.ofCode code :: units, '\\' :: 'u' :: a :: b :: c :: d :: source, after)
  | '\\' :: e :: rest => do
    let c ← escaped? e
    let (units, source, after) ← scanString? rest
    some (.char c :: units, '\\' :: e :: source, after)
  | c :: rest =>
    if c.toNat < 32 ∨ c = '\\' then none
    else do
      let (units, source, after) ← scanString? rest
      some (.char c :: units, c :: source, after)

/-- Whether a code is the first or the second half of a pair. -/
def isHighHalf (code : Nat) : Bool := 0xD800 ≤ code && code < 0xDC00
def isLowHalf (code : Nat) : Bool := 0xDC00 ≤ code && code < 0xE000

/-- Joins the halves of surrogate pairs; `none` if a half is on its own. -/
def joinPairs? : List CodeUnit → Option (List Char)
  | [] => some []
  | .char c :: rest => (joinPairs? rest).map (c :: ·)
  | .half high :: .half low :: rest =>
    if isHighHalf high ∧ isLowHalf low then
      let code := 0x10000 + (high - 0xD800) * 0x400 + (low - 0xDC00)
      (joinPairs? rest).map (Char.ofNat code :: ·)
    else none
  | .half _ :: _ => none

/-- A string, from after its opening quote. -/
def readString? (cs : List Char) : Option (JsonString × List Char) := do
  let (units, source, after) ← scanString? cs
  match joinPairs? units with
  | some text => some (.text (String.ofList text), after)
  | none => some (.unpaired (String.ofList source), after)

/-! ## Numbers -/

/-- Splits off a run of digits. -/
def takeDigits (cs : List Char) : List Char × List Char :=
  (cs.takeWhile Number.isDigit, cs.dropWhile Number.isDigit)

/-- The whole part: a zero, or digits that do not start with one. -/
def readWhole? : List Char → Option (List Char × List Char)
  | '0' :: rest => some (['0'], rest)
  | cs =>
    let (ds, rest) := takeDigits cs
    if ds.isEmpty then none else some (ds, rest)

/-- The fraction with its point, if there is one. -/
def readFraction? : List Char → Option (List Char × List Char)
  | '.' :: cs =>
    let (ds, rest) := takeDigits cs
    if ds.isEmpty then none else some ('.' :: ds, rest)
  | cs => some ([], cs)

/-- The exponent with its mark and sign, if there is one. -/
def readExponentPart? : List Char → Option (List Char × List Char)
  | [] => some ([], [])
  | mark :: cs =>
    if mark = 'e' ∨ mark = 'E' then
      let (sign, more) := match cs with
        | '+' :: more => (['+'], more)
        | '-' :: more => (['-'], more)
        | more => ([], more)
      let (ds, rest) := takeDigits more
      if ds.isEmpty then none else some (mark :: sign ++ ds, rest)
    else some ([], mark :: cs)

/-- A number literal. -/
def readNumber? (cs : List Char) : Option (String × List Char) := do
  let (sign, rest) := match cs with
    | '-' :: rest => (['-'], rest)
    | rest => ([], rest)
  let (whole, rest) ← readWhole? rest
  let (fraction, rest) ← readFraction? rest
  let (exponent, rest) ← readExponentPart? rest
  some (String.ofList (sign ++ whole ++ fraction ++ exponent), rest)

/-! ## Tokens -/

/-- The token at the head of a text. -/
def readToken? : List Char → Option (Token × List Char)
  | '[' :: rest => some (.openArray, rest)
  | ']' :: rest => some (.closeArray, rest)
  | '\x7b' :: rest => some (.openObject, rest)
  | '\x7d' :: rest => some (.closeObject, rest)
  | ',' :: rest => some (.comma, rest)
  | ':' :: rest => some (.colon, rest)
  | '"' :: rest => (readString? rest).map fun (s, after) => (.string s, after)
  | 'n' :: 'u' :: 'l' :: 'l' :: rest => some (.scalar .null, rest)
  | 't' :: 'r' :: 'u' :: 'e' :: rest => some (.scalar (.bool true), rest)
  | 'f' :: 'a' :: 'l' :: 's' :: 'e' :: rest => some (.scalar (.bool false), rest)
  | cs => (readNumber? cs).map fun (literal, after) => (.scalar (.number literal), after)

/-- Cuts a text into tokens. Each one takes at least a character, so that `count` characters
are at most as many tokens. -/
def readTokens? : Nat → List Char → Option (List Token)
  | 0, cs => if cs.all isSpace then some [] else none
  | count + 1, cs =>
    match cs.dropWhile isSpace with
    | [] => some []
    | cs => do
      let (token, rest) ← readToken? cs
      let tokens ← readTokens? count rest
      some (token :: tokens)

/-- The tokens of a text, if it consists of tokens. -/
def tokens? (cs : List Char) : Option (List Token) := readTokens? cs.length cs

end Ripple.Json

import Ripple.Toml.Scalar

/-!
# Reading TOML

A document is a list of lines: fields of the current table, and headers that name another one.
Brackets and dots in keys can be nested up to a fixed depth.
-/

namespace Ripple.Toml

/-- Brackets may not be nested this deep, nor may a key have this many parts. -/
def depthLimit : Nat := 80

/-! ## Spaces and comments -/

/-- Drops a comment at the head of a text; `none` if it holds a forbidden character. -/
def dropComment? : List Char → Option (List Char)
  | '#' :: cs =>
    let comment := cs.takeWhile fun c => c ≠ '\n' && c ≠ '\r'
    if comment.any isForbidden then none
    else some (cs.dropWhile fun c => c ≠ '\n' && c ≠ '\r')
  | cs => some cs

/-- Drops blanks, line ends and comments. -/
def dropFiller? : Nat → List Char → Option (List Char)
  | 0, cs => some cs
  | count + 1, cs =>
    match dropSpace cs with
    | '#' :: rest => do
      let rest ← dropComment? ('#' :: rest)
      dropFiller? count rest
    | cs => some cs

/-- Drops what may stand at the end of a line, with the line end; `none` if there is more. -/
def endLine? (cs : List Char) : Option (List Char) := do
  match ← dropComment? (dropBlanks cs) with
  | [] => some []
  | cs => if startsLineEnd cs then some (dropLineEnd cs) else none

/-! ## Keys -/

/-- The characters of a key without quotes. -/
def isKeyChar (c : Char) : Bool :=
  c.toNat < 128 && (c.isAlphanum || c = '_' || c = '-')

/-- A part of a key, with the blanks around it dropped. -/
def readKeyPart? (cs : List Char) : Option (String × List Char) :=
  let cs := dropBlanks cs
  let part : Option (String × List Char) := match cs with
    | '"' :: rest => (readShort? '"' cs.length rest).map fun (s, after) => (String.ofList s, after)
    | '\'' :: rest =>
      (readShort? '\'' cs.length rest).map fun (s, after) => (String.ofList s, after)
    | _ =>
      let word := cs.takeWhile isKeyChar
      if word.isEmpty then none else some (String.ofList word, cs.dropWhile isKeyChar)
  part.map fun (name, rest) => (name, dropBlanks rest)

/-- The parts of a key after the first. -/
def readKeyParts? : Nat → List Char → Option (List String × List Char)
  | 0, cs => some ([], cs)
  | count + 1, '.' :: cs => do
    let (name, rest) ← readKeyPart? cs
    let (names, after) ← readKeyParts? count rest
    some (name :: names, after)
  | _, cs => some ([], cs)

/-- A key: the parts before the last, and the last. -/
def readKey? (cs : List Char) : Option (List String × String × List Char) := do
  let (first, rest) ← readKeyPart? cs
  let (others, after) ← readKeyParts? cs.length rest
  let parts := first :: others
  if depthLimit ≤ parts.length then none
  else some (parts.dropLast, parts.getLast?.getD first, after)

/-! ## Values -/

/-- The items of an array up to its closing bracket. -/
def readItems? (readValue? : List Char → Option (Toml × List Char)) :
    Nat → List Char → Option (List Toml × List Char)
  | 0, _ => none
  | count + 1, cs => do
    match ← dropFiller? cs.length cs with
    | ']' :: rest => some ([], rest)
    | cs =>
      let (item, rest) ← readValue? cs
      match ← dropFiller? rest.length rest with
      | ',' :: rest =>
        let (items, after) ← readItems? readValue? count rest
        some (item :: items, after)
      | ']' :: rest => some ([item], rest)
      | _ => none

/-- A key with its value. -/
def readField? (readValue? : List Char → Option (Toml × List Char)) (cs : List Char) :
    Option (List String × String × Toml × List Char) := do
  let (path, key, rest) ← readKey? cs
  match rest with
  | '=' :: rest =>
    let (value, after) ← readValue? (dropBlanks rest)
    some (path, key, value, after)
  | _ => none

/-- The fields of a table in braces, up to the closing one, added to those before. -/
def readInline? (readValue? : List Char → Option (Toml × List Char)) (t : Toml) :
    Nat → List Char → Option (Toml × List Char)
  | 0, _ => none
  | count + 1, cs => do
    let (path, key, value, rest) ← readField? readValue? cs
    let t ← addInlineKey key value path t
    match dropBlanks rest with
    | ',' :: rest => readInline? readValue? t count rest
    | '\x7d' :: rest => some (t, rest)
    | _ => none

/-- A value in which brackets are nested less than so deep. -/
def readValue? : Nat → List Char → Option (Toml × List Char)
  | 0, _ => none
  | depth + 1, cs =>
    match cs with
    | '[' :: rest =>
      if depth = 0 then none
      else (readItems? (readValue? depth) rest.length rest).map fun (items, after) =>
        (.array items, after)
    | '\x7b' :: rest =>
      if depth = 0 then none
      else
        match dropBlanks rest with
        | '\x7d' :: rest => some (.table .inline [], rest)
        | rest => readInline? (readValue? depth) (.table .inline []) rest.length rest
    | '"' :: _ | '\'' :: _ => (readString? cs).map fun (s, after) => (.text s, after)
    | _ => readWord? cs

/-! ## Documents -/

/-- What was read of a document: the table of all fields, and the path to the table that
further fields belong to. -/
structure Document where
  root : Toml
  path : List String
  deriving Repr

/-- A header in single or double brackets, from after the first bracket. -/
def Document.readHeader? (d : Document) (cs : List Char) : Option (Document × List Char) := do
  match cs with
  | '[' :: cs =>
    let (path, key, rest) ← readKey? cs
    match rest with
    | ']' :: ']' :: rest =>
      some (⟨← openTables path key d.root, path ++ [key]⟩, rest)
    | _ => none
  | cs =>
    let (path, key, rest) ← readKey? cs
    match rest with
    | ']' :: rest => some (⟨← openTable path key d.root, path ++ [key]⟩, rest)
    | _ => none

/-- Reads the lines of a document. Each one takes at least a character. -/
def Document.readLines? (d : Document) : Nat → List Char → Option Document
  | 0, cs => if cs.isEmpty then some d else none
  | count + 1, cs => do
    match dropBlanks cs with
    | [] => some d
    | '[' :: rest =>
      let (d, rest) ← d.readHeader? rest
      d.readLines? count (← endLine? rest)
    | c :: rest =>
      if c = '#' ∨ startsLineEnd (c :: rest) then d.readLines? count (← endLine? (c :: rest))
      else
        let (path, key, value, rest) ← readField? (readValue? depthLimit) (c :: rest)
        let root ← alterTable false (addKey path key value) d.path d.root
        Document.readLines? ⟨root, d.path⟩ count (← endLine? rest)

/-- Drops a byte order mark. -/
def dropMark : List Char → List Char
  | '\uFEFF' :: cs => cs
  | cs => cs

/-- The table that a document writes, if it is TOML. -/
def read? (text : String) : Option Toml := do
  let cs := dropMark text.toList
  let d ← Document.readLines? ⟨.table .header [], []⟩ cs.length cs
  some d.root

end Ripple.Toml

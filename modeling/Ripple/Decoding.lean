import Ripple.Encoding
import Ripple.Json.Decode

/-!
# Reading JSON forms

The inverse of writing: each function gives what a JSON value is the form of. Reading is more
liberal than writing in what the module on taking values apart says.
-/

namespace Ripple

/-- A number of 64 bits. -/
def readWord? (j : Json) : Option UInt64 := j.nat?.map Nat.toUInt64

def Ident.ofJson? (j : Json) : Option Ident := (readWord? j).map Ident.mk

/-- The kind with a name in data. -/
def Kind.ofTag? : String → Option Kind
  | "number" => some .number
  | "bool" => some .bool
  | "text" => some .text
  | "ref" => some .ref
  | _ => none

def Kind.ofJson? (j : Json) : Option Kind := j.plainVariant?.bind Kind.ofTag?

def RowRef.ofJson? (j : Json) : Option RowRef := do
  match ← j.record? ["table", "row"] with
  | [table, row] => some ⟨← Json.required? Ident.ofJson? table, ← Json.required? Json.nat? row⟩
  | _ => none

/-- The value of a kind with a content. -/
def Value.ofContent? (content : Json) : Kind → Option Value
  | .number => content.number?.map .number
  | .bool => content.bool?.map .bool
  | .text => content.text?.map .text
  | .ref => (RowRef.ofJson? content).map .ref

/-- The number of brackets that may be open at a time. -/
def deepestNesting : Nat := 127

/-- Whether the content of a value comes before its kind. -/
def isContentFirst : Json → Bool
  | .object fields =>
    let parts := fields.filter fun (key, _) => key = .text "kind" || key = .text "value"
    (parts.head?.map Prod.fst) = some (.text "value")
  | _ => false

/-- The kind in the form of a value. In an array it has to be a name. -/
def Value.kindOfJson? (j kind : Json) : Option Kind :=
  match j with
  | .array _ => kind.text?.bind Kind.ofTag?
  | _ => Kind.ofJson? kind

/-- A value inside so many brackets. A content that comes before the kind is set aside until the
kind is known, which only some contents can be. -/
def Value.ofJson? (depth : Nat) (j : Json) : Option Value := do
  match ← j.record? ["kind", "value"] with
  | [some kind, some content] =>
    if isContentFirst j && ! content.canSetAside (deepestNesting - depth - 1) then none
    else Value.ofContent? content (← Value.kindOfJson? j kind)
  | _ => none

def ColumnRef.ofJson? (j : Json) : Option ColumnRef := do
  match ← j.variant? with
  | ("Id", some content) => (Ident.ofJson? content).map .id
  | ("Position", some content) => content.nat?.map .position
  | ("Raw", some content) => (readWord? content).map .raw
  | _ => none

def ColumnSpec.ofJson? (j : Json) : Option ColumnSpec := do
  match ← j.record? ["name", "id", "kind"] with
  | [name, id, kind] =>
    some ⟨← Json.required? Json.text? name, ← Json.required? Ident.ofJson? id,
      ← Json.required? Kind.ofJson? kind⟩
  | _ => none

/-- The column of a register. -/
def Register.columnOfJson? (j : Json) : Option (Option Ident) := do
  match ← j.variant? with
  | ("Any", none) => some none
  | ("Any", some .null) => some none
  | ("Column", some content) => (Ident.ofJson? content).map some
  | _ => none

def Register.ofJson? (j : Json) : Option Register := do
  match ← j.record? ["table", "column"] with
  | [table, column] =>
    some ⟨← Json.required? Ident.ofJson? table, ← Json.required? Register.columnOfJson? column⟩
  | _ => none

/-- An effect inside so many brackets. -/
def Effect.ofJson? (depth : Nat) (j : Json) : Option Effect := do
  match ← j.variant? with
  | ("Cell", some content) =>
    match ← content.record? ["table", "row", "column", "old", "new"] with
    | [table, row, column, old, new] =>
      some (.cell (← Json.required? Ident.ofJson? table) (← Json.required? Json.nat? row)
        (← Json.required? Json.nat? column)
        (← Json.nullableField? (Value.ofJson? (depth + 2)) old)
        (← Json.required? (Value.ofJson? (depth + 2)) new))
    | _ => none
  | ("Created", some content) =>
    match ← content.record? ["table", "name", "columns"] with
    | [table, name, columns] =>
      some (.created (← Json.required? Ident.ofJson? table) (← Json.required? Json.text? name)
        (← Json.required? (Json.list? ColumnSpec.ofJson?) columns))
    | _ => none
  | _ => none

def Entry.ofJson? (j : Json) : Option Entry := do
  match ← j.record? ["seq", "submitted", "changes", "rounds", "fired"] with
  | [seq, submitted, changes, rounds, fired] =>
    some
      { seq := ← Json.required? Json.nat? seq
        submitted := ← Json.required? Json.nat? submitted
        effects := ← Json.required? (Json.list? (Effect.ofJson? 2)) changes
        rounds := ← Json.required? Json.nat? rounds
        fired := ← Json.required? (Json.list? Json.text?) fired }
  | _ => none

def PausedCommits.ofJson? (j : Json) : Option PausedCommits :=
  j.plainVariant?.bind PausedCommits.ofTag?

/-- Settings; those that are not there are as usual. -/
def Settings.ofJson? (j : Json) : Option Settings := do
  match ← j.record? fieldNames with
  | [maxRounds, pausedCommits, maxEntries, logReports] =>
    some
      { maxRounds := ← Json.withDefault? default.maxRounds Json.nat? maxRounds
        pausedCommits :=
          ← Json.withDefault? default.pausedCommits PausedCommits.ofJson? pausedCommits
        maxEntries := ← Json.withDefault? default.maxEntries (Json.nullable? Json.nat?) maxEntries
        logReports := ← Json.withDefault? default.logReports Json.bool? logReports }
  | _ => none

end Ripple

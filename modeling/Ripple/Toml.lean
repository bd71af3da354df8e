/-!
# TOML values

The values of a TOML document. How a table came about matters while the document is read: a
table may be named by a header once, may be extended by dotted keys only if dotted keys made
it, and cannot be extended at all if it was written in braces.
-/

namespace Ripple

/-- How a table came about. -/
inductive TableForm where
  /-- Named by a header. -/
  | header
  /-- Only as part of the path in a header. -/
  | implied
  /-- As part of a dotted key. -/
  | dotted
  /-- Written in braces. -/
  | inline
  deriving DecidableEq, Repr

/-- A TOML value. -/
inductive Toml where
  | text (s : String)
  | integer (n : Int)
  | bool (b : Bool)
  /-- A number with a fraction or exponent. -/
  | float
  /-- A date, a time, or both. -/
  | moment
  | array (items : List Toml)
  | table (form : TableForm) (fields : List (String × Toml))
  /-- The tables under a header in double brackets, in order. -/
  | tables (items : List Toml)
  deriving Repr

namespace Toml

/-- The fields of a table, in the order in which they were first named. -/
abbrev Fields := List (String × Toml)

/-- The fields with one changed or, if it is not there, added at the end. -/
def alterField (key : String) (change : Option Toml → Option Toml) : Fields → Option Fields
  | [] => (change none).map fun value => [(key, value)]
  | (name, value) :: rest =>
    if name = key then (change (some value)).map fun value => (name, value) :: rest
    else (alterField key change rest).map fun rest => (name, value) :: rest

/-- The items with the last one changed. -/
def alterLast (change : Toml → Option Toml) : List Toml → Option (List Toml)
  | [] => none
  | [last] => (change last).map fun last => [last]
  | item :: rest => (alterLast change rest).map fun rest => item :: rest

/-- The table that a path leads to is changed; tables on the way are made if they are not
there. A path leads into the last one of several tables. It does not lead into other values,
and one of a dotted key does not lead into tables that have a header. -/
def alterTable (byKey : Bool) (change : Toml → Option Toml) : List String → Toml → Option Toml
  | [], t => change t
  | key :: path, .table form fields =>
    let enter : Option Toml → Option Toml
      | none => alterTable byKey change path (.table (if byKey then .dotted else .implied) [])
      | some (.table .inline _) => none
      | some (.table form fields) =>
        if byKey ∧ form = .header then none
        else alterTable byKey change path (.table form fields)
      | some (.tables items) => (alterLast (alterTable byKey change path) items).map .tables
      | some _ => none
    (alterField key enter fields).map (.table form)
  | _, _ => none

/-- Adds a field that must not be there yet. -/
def addField (key : String) (value : Toml) : Toml → Option Toml
  | .table form fields =>
    (alterField key (fun old => if old.isNone then some value else none) fields).map (.table form)
  | _ => none

/-- Adds the value of a key. With more than one part, the key must lead to a table that dotted
keys made. -/
def addKey (path : List String) (key : String) (value : Toml) (t : Toml) : Option Toml :=
  let add : Toml → Option Toml
    | .table form fields =>
      if ¬ path.isEmpty ∧ form ≠ .dotted then none else addField key value (.table form fields)
    | _ => none
  alterTable true add path t

/-- Like `addKey`, for a table in braces: all parts but the last have to be of dotted keys. -/
def addInlineKey (key : String) (value : Toml) : List String → Toml → Option Toml
  | [], t => addField key value t
  | part :: path, .table form fields =>
    let enter : Option Toml → Option Toml
      | none => addInlineKey key value path (.table .dotted [])
      | some (.table .dotted fields) => addInlineKey key value path (.table .dotted fields)
      | some _ => none
    (alterField part enter fields).map (.table form)
  | _, _ => none

/-- Names a table by a header. It must not be there, or only as part of other headers. -/
def openTable (path : List String) (key : String) (root : Toml) : Option Toml :=
  let claim : Option Toml → Option Toml
    | none => some (.table .header [])
    | some (.table .implied fields) => some (.table .header fields)
    | some _ => none
  let add : Toml → Option Toml
    | .table form fields => (alterField key claim fields).map (.table form)
    | _ => none
  alterTable false add path root

/-- Adds a table to those under a header in double brackets. -/
def openTables (path : List String) (key : String) (root : Toml) : Option Toml :=
  let extend : Option Toml → Option Toml
    | none => some (.tables [.table .header []])
    | some (.tables items) => some (.tables (items ++ [.table .header []]))
    | some _ => none
  let add : Toml → Option Toml
    | .table form fields => (alterField key extend fields).map (.table form)
    | _ => none
  alterTable false add path root

end Toml

end Ripple

import Ripple.Decoding
import Ripple.Text.Blank
import Ripple.Text.Lines
import Ripple.Toml.Reader

/-!
# Settings as text

Settings are read from JSON, in which whole lines may be comments, or from TOML, where each
group of settings is a table.
-/

namespace Ripple.Settings

/-- Why a text does not give settings. -/
inductive TextFault where
  /-- The text is malformed or holds a value of the wrong kind. -/
  | malformed
  | invalid (reason : Invalid)
  deriving DecidableEq, Repr

/-- Settings that make sense, from what was read of a text. -/
def accept : Option Settings → Except TextFault Settings
  | none => .error .malformed
  | some s => s.check.mapError .invalid

/-! ## JSON -/

/-- Whether a line is a comment, which starts with two slashes. -/
def isComment (line : List Char) : Bool := (Text.trim line).take 2 = ['/', '/']

/-- A text without its comment lines. -/
def dropComments (text : String) : String :=
  let lines := (Text.lines text.toList).filter (! isComment ·)
  "\n".intercalate (lines.map String.ofList)

/-- `Settings::from_json_str` reads settings from JSON. -/
def ofJsonText (text : String) : Except TextFault Settings :=
  accept ((Json.read? (dropComments text)).bind ofJson?)

/-- The settings as JSON over several lines. -/
def toJsonText (s : Settings) : String := s.toJson.pretty 0

/-! ## TOML -/

/-- The members of a group of settings by the order of their names. A group is a table, whose
other fields are left out, or an array, whose further items are left out. A date or time is a
group with no member of these names. -/
def members? (names : List String) : Toml → Option (List (Option Toml))
  | .table _ fields => some (names.map fun name => fields.lookup name)
  | .array items => some (names.zipIdx.map fun (_, i) => items[i]?)
  | .tables items => some (names.zipIdx.map fun (_, i) => items[i]?)
  | .moment => some (names.map fun _ => none)
  | _ => none

/-- The members of a group that may be missing altogether. -/
def group? (names : List String) : Option Toml → Option (List (Option Toml))
  | none => some (names.map fun _ => none)
  | some value => members? names value

/-- A whole number. -/
def tomlNat? : Toml → Option Nat
  | .integer n => if 0 ≤ n then some n.toNat else none
  | _ => none

def tomlBool? : Toml → Option Bool
  | .bool b => some b
  | _ => none

/-- Whether a value is there only for its key: a table or an array that holds nothing. -/
def isEmptyGroup : Toml → Bool
  | .table _ [] => true
  | .array [] => true
  | _ => false

/-- A policy: its name, or a table whose only key is the name and whose value there is empty. -/
def tomlPolicy? : Toml → Option PausedCommits
  | .text name => PausedCommits.ofTag? name
  | .table _ [(name, content)] =>
    if isEmptyGroup content then PausedCommits.ofTag? name else none
  | _ => none

/-- A member with a value for when it is missing. -/
def member? {α : Type} (default : α) (read : Toml → Option α) : Option Toml → Option α
  | none => some default
  | some value => read value

/-- Settings from the table of a document; those that are missing are as usual. -/
def ofToml? (root : Toml) : Option Settings := do
  match ← members? ["propagation", "history", "engine"] root with
  | [propagation, history, engine] =>
    match ← group? ["max_rounds"] propagation,
        ← group? ["paused_commits", "max_entries"] history,
        ← group? ["log_reports"] engine with
    | [maxRounds], [pausedCommits, maxEntries], [logReports] =>
      some
        { maxRounds := ← member? default.maxRounds tomlNat? maxRounds
          pausedCommits := ← member? default.pausedCommits tomlPolicy? pausedCommits
          maxEntries :=
            ← member? default.maxEntries (fun value => (tomlNat? value).map some) maxEntries
          logReports := ← member? default.logReports tomlBool? logReports }
    | _, _, _ => none
  | _ => none

/-- `Settings::from_toml_str` reads settings from TOML. -/
def ofTomlText (text : String) : Except TextFault Settings :=
  accept ((Toml.read? text).bind ofToml?)

end Ripple.Settings

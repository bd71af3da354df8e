import Ripple.Settings.Text

/-!
# The settings file

Settings are kept in a JSON file in the configuration directory. A file that cannot be read
counts as none, and then the settings are as usual.
-/

namespace Ripple.Settings

/-- The path of the settings file from the configuration directory. -/
def filePath : String := "tabflow/settings.json"

/-- What there is at the path of the settings file. -/
inductive Place where
  /-- Nothing, but a file can be written. -/
  | vacant
  | file (bytes : ByteArray)
  | directory
  /-- Nothing, as the directory on the way there is a file. -/
  | blocked

namespace Place

/-- The text of the file, if there is one and it is UTF-8. -/
def text? : Place → Option String
  | file bytes => String.fromUTF8? bytes
  | _ => none

/-- The place after a text was written to it; `none` if it cannot be written to. -/
def write? (text : String) : Place → Option Place
  | vacant => some (file text.toUTF8)
  | file _ => some (file text.toUTF8)
  | directory => none
  | blocked => none

/-- `Settings::load_from`: the settings in the file, or the usual ones if it gives none. -/
def load (place : Place) : Settings :=
  match place.text? with
  | none => default
  | some text =>
    match ofJsonText text with
    | .ok settings => settings
    | .error _ => default

/-- `Settings::save_to`: the place after settings were saved to it, if they can be. -/
def save? (settings : Settings) (place : Place) : Option Place := place.write? settings.toJsonText

end Place

end Ripple.Settings

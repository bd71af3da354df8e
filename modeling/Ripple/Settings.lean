/-!
# Settings

What a session can be set to, and which settings make sense.
-/

namespace Ripple

/-- What happens to a transaction that is submitted while a session is paused. -/
inductive PausedCommits where
  /-- It is carried out on the newest state, and the state that is shown stays. -/
  | append
  /-- It is carried out on the state that is shown, and the entries after that are dropped. -/
  | branch
  /-- It is refused. -/
  | reject
  deriving DecidableEq, Repr

/-- The policy as it is named in data. -/
def PausedCommits.tag : PausedCommits → String
  | .append => "append"
  | .branch => "branch"
  | .reject => "reject"

/-- The policy with a name. -/
def PausedCommits.ofTag? : String → Option PausedCommits
  | "append" => some .append
  | "branch" => some .branch
  | "reject" => some .reject
  | _ => none

/-- The settings of a session. -/
structure Settings where
  /-- The number of rounds that a transaction may take. -/
  maxRounds : Nat
  pausedCommits : PausedCommits
  /-- The number of transactions that are remembered, if limited. -/
  maxEntries : Option Nat
  /-- Whether figures about transactions are logged. -/
  logReports : Bool
  deriving DecidableEq, Repr

namespace Settings

/-- The settings unless something else is asked for. -/
def default : Settings := ⟨64, .append, none, true⟩

instance : Inhabited Settings := ⟨default⟩

/-- Why settings make no sense. -/
inductive Invalid where
  | noRounds
  | noEntries
  deriving DecidableEq, Repr

/-- The reason as it is shown to people. -/
def Invalid.message : Invalid → String
  | .noRounds => "propagation.maxRounds must be at least 1"
  | .noEntries => "history.maxEntries must be at least 1"

/-- `Settings::validate`: the settings, if they make sense. -/
def check (s : Settings) : Except Invalid Settings :=
  if s.maxRounds = 0 then .error .noRounds
  else if s.maxEntries = some 0 then .error .noEntries
  else .ok s

end Settings

end Ripple

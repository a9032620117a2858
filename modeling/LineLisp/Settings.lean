/-
  LineLisp.Settings

  Settings: what the variables of the environment ask for. A variable that is
  unset, or whose value makes no sense, leaves the default.
-/
import LineLisp.Text.Blank
import LineLisp.Text.UpperCase

namespace LineLisp

/-- The variables of the environment: the value of each that is set. -/
abbrev Variables := String → Option String

namespace Variables

/-- The variables of a list of names with values, where an earlier entry goes
    before a later one. -/
def ofList (pairs : List (String × String)) : Variables :=
  fun name => pairs.lookup name

/-- The names of all variables that have a meaning. -/
def names : List String :=
  ["TOYLISP_TRACE", "TOYLISP_COLOR", "TOYLISP_PROMPT", "TOYLISP_LOG_LEVEL",
    "ANSI_COLORS_DISABLED", "NO_COLOR", "FORCE_COLOR", "TERM"]

/-- A variable as a switch: a few words turn it on or off, whatever their case
    and the blanks around them. Small letters are those of ASCII, since no other
    capital has a small letter that stands in one of the words. -/
def flag (env : Variables) (name : String) (default : Bool) : Bool :=
  match env name with
  | none => default
  | some raw =>
    let word := String.ofList ((Text.trim raw).toList.map Char.toLower)
    if word ∈ ["1", "true", "yes", "on"] then true
    else if word ∈ ["0", "false", "no", "off"] then false
    else default

/-- A variable as a text; the empty text counts as unset. -/
def text (env : Variables) (name default : String) : String :=
  match env name with
  | none => default
  | some raw => if raw.isEmpty then default else raw

/-- Whether a variable is set and not empty. -/
def isFilled (env : Variables) (name : String) : Bool :=
  (env name).any fun raw => !raw.isEmpty

/-- Whether colours may be written. The first of these decides: a variable that
    forbids colours, one that demands them, a terminal without colours, and
    else whether there is a terminal at all. -/
def allowColor (env : Variables) (terminal : Bool) : Bool :=
  if env.isFilled "ANSI_COLORS_DISABLED" then false
  else if env.isFilled "NO_COLOR" then false
  else if env.isFilled "FORCE_COLOR" then true
  else if env "TERM" = some "dumb" then false
  else terminal

end Variables

/-- Levels of the log by name, without regard to case and to blanks around the
    name. An unknown name is the level of warnings. -/
def logLevel (name : String) : Nat :=
  let name := Text.upper (Text.trim name)
  if name = "CRITICAL" ∨ name = "FATAL" then 50
  else if name = "ERROR" then 40
  else if name = "WARNING" ∨ name = "WARN" then 30
  else if name = "INFO" then 20
  else if name = "DEBUG" then 10
  else if name = "NOTSET" then 0
  else 30

/-- The level of the entries that a session logs. -/
def debugLevel : Nat := 10

/-- How a shell is run. -/
structure Settings where
  trace : Bool
  color : Bool
  prompt : String
  logLevel : String
  deriving DecidableEq, Repr

namespace Settings

/-- The prompt of a shell that is given no other. -/
def defaultPrompt : String := "> "

/-- The settings that the variables of the environment ask for. -/
def load (env : Variables) : Settings where
  trace := env.flag "TOYLISP_TRACE" false
  color := env.flag "TOYLISP_COLOR" true
  prompt := env.text "TOYLISP_PROMPT" defaultPrompt
  logLevel := Text.upper (env.text "TOYLISP_LOG_LEVEL" "WARNING")

/-- Whether the entries of the log are shown. -/
def showsLog (settings : Settings) : Bool :=
  LineLisp.logLevel settings.logLevel ≤ debugLevel

end Settings

end LineLisp

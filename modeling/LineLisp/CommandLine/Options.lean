/-
  LineLisp.CommandLine.Options

  The words of the command line. A word that begins with a hyphen is an option,
  which may be cut short as long as it can be told from the others, and may
  carry its value behind an equals sign. All other words, and all words behind
  two lone hyphens, are arguments; the first argument is the file to run.
-/
import LineLisp.Text.Digit
import LineLisp.Text.Quoted

namespace LineLisp.CommandLine

/-- The options. -/
inductive Switch where
  | help
  | trace
  | noColor
  | logLevel
  | version
  deriving DecidableEq, Repr

/-- The spellings of the options, in the order in which they are listed. -/
def spellings : List (String × Switch) :=
  [("-h", .help), ("--help", .help), ("--trace", .trace), ("--no-color", .noColor),
    ("--log-level", .logLevel), ("--version", .version)]

/-- An option as messages name it: all of its spellings. -/
def Switch.title (switch : Switch) : String :=
  "/".intercalate ((spellings.filter fun s => s.2 = switch).map Prod.fst)

/-- What the command line asks for. -/
structure Request where
  file : Option String
  trace : Bool
  noColor : Bool
  logLevel : Option String
  deriving DecidableEq, Repr

/-- Why nothing is run: the user asked for help or for the version, or the
    command line is wrong. -/
inductive Stop where
  | help
  | version
  | usage (message : String)
  deriving DecidableEq, Repr

/-- A word of the command line, before any lone pair of hyphens. -/
inductive Word where
  /-- An argument. -/
  | plain (text : String)
  /-- An option, with the value behind its equals sign if it has one. -/
  | option (switch : Switch) (value : Option String)
  /-- The option for help in its one-letter spelling, with more letters right
      behind it or behind an equals sign. -/
  | letters (others : List Char)
  /-- What looks like an option and is none. -/
  | unknown (text : String)
  deriving DecidableEq, Repr

-- ============================================================================
-- Telling the words apart
-- ============================================================================

/-- A word cut at its first equals sign: what stands before the sign and, if
    there is one, what stands behind it. -/
def cutAtEquals (word : List Char) : String × Option String :=
  let name := String.ofList (word.takeWhile (· ≠ '='))
  match word.dropWhile (· ≠ '=') with
  | [] => (name, none)
  | _ :: value => (name, some (String.ofList value))

/-- Whether what follows a hyphen is a number: digits, or a point with digits
    behind it and perhaps before it. A line end behind the number is let pass. -/
def isNumber (cs : List Char) : Bool :=
  let cs := if cs.getLast? = some '\n' then cs.dropLast else cs
  match cs.dropWhile Text.isDecimalDigit with
  | [] => !cs.isEmpty
  | c :: fraction => c = '.' && !fraction.isEmpty && fraction.all Text.isDecimalDigit

/-- The spellings that a word with two hyphens may be short for. -/
def completions (name : String) : List (String × Switch) :=
  spellings.filter fun s => name.toList.isPrefixOf s.1.toList

/-- A word with a hyphen that is no option: an argument if it is a negative
    number or holds a space. -/
def classifyOther (word : String) (behindHyphen : List Char) : Word :=
  if isNumber behindHyphen || word.toList.contains ' ' then .plain word else .unknown word

/-- What a word with two hyphens is. It is a fault if it may be short for
    several options. -/
def classifyLong (word : String) (behindHyphen : List Char) : Except Stop Word :=
  let (name, value) := cutAtEquals word.toList
  match completions name with
  | [] => .ok (classifyOther word behindHyphen)
  | [(_, switch)] => .ok (.option switch value)
  | candidates =>
    .error (.usage ("ambiguous option: " ++ word ++ " could match "
      ++ ", ".intercalate (candidates.map Prod.fst)))

/-- What a word of the command line is. -/
def classify (word : String) : Except Stop Word :=
  match word.toList with
  | '-' :: '-' :: cs => classifyLong word ('-' :: cs)
  | ['-', 'h'] => .ok (.option .help none)
  | ['-', 'h', '='] => .ok (.option .help (some ""))
  | '-' :: 'h' :: '=' :: letters => .ok (.letters letters)
  | '-' :: 'h' :: letters => .ok (.letters letters)
  | '-' :: c :: cs => .ok (classifyOther word (c :: cs))
  | _ => .ok (.plain word)

/-- The words before the first lone pair of hyphens, told apart, and the words
    behind it if there is one. -/
def classifyAll : List String → Except Stop (List Word × Option (List String))
  | [] => .ok ([], none)
  | text :: texts =>
    if text = "--" then .ok ([], some texts)
    else do
      let word ← classify text
      let (words, behind) ← classifyAll texts
      return (word :: words, behind)

-- ============================================================================
-- Carrying out the words
-- ============================================================================

/-- The fault of a value for an option that takes none. -/
def ignoredValue (switch : Switch) (value : String) : Stop :=
  .usage ("argument " ++ switch.title ++ ": ignored explicit argument " ++ Text.quoted value)

/-- What becomes of letters behind the one-letter option for help: its own letter
    may be repeated, and whatever else follows counts as a value, which the
    option does not take. -/
def stopOfLetters (letters : List Char) : Stop :=
  match letters.dropWhile (· = 'h') with
  | [] => .help
  | others => ignoredValue .help (String.ofList others)

/-- The value behind the equals sign of an option: two lone hyphens, which only
    part words, hold none. -/
def attachedValue (value : String) : String :=
  if value = "--" then "" else value

/-- How far the command line was carried out: what it asks for so far, the words
    that have no meaning, and whether the last word was the file. -/
structure Progress where
  request : Request
  extras : List String
  atFile : Bool

namespace Progress

/-- The command line before its first word. -/
def start : Progress := ⟨⟨none, false, false, none⟩, [], false⟩

/-- A changed request. -/
def set (progress : Progress) (request : Request) : Progress :=
  { progress with request := request, atFile := false }

/-- One more argument: the file if there is none yet. -/
def argument (progress : Progress) (text : String) : Progress :=
  match progress.request.file with
  | none => ⟨{ progress.request with file := some text }, progress.extras, true⟩
  | some _ => { progress with extras := progress.extras ++ [text], atFile := false }

/-- One more word without meaning. -/
def extra (progress : Progress) (text : String) : Progress :=
  { progress with extras := progress.extras ++ [text], atFile := false }

/-- The words behind a lone pair of hyphens. The pair itself has no meaning when
    the file is known and does not stand right before it. -/
def argumentsBehind (progress : Progress) (texts : List String) : Progress :=
  let progress :=
    if progress.request.file.isSome && !progress.atFile then progress.extra "--" else progress
  texts.foldl argument progress

/-- The request, if all words had a meaning. -/
def finish (progress : Progress) : Except Stop Request :=
  if progress.extras.isEmpty then .ok progress.request
  else .error (.usage ("unrecognized arguments: " ++ " ".intercalate progress.extras))

end Progress

/-- Carries out words from left to right, up to the first that stops. -/
def carryOut (progress : Progress) (behind : Option (List String)) :
    List Word → Except Stop Request
  | [] =>
    match behind with
    | none => progress.finish
    | some texts => (progress.argumentsBehind texts).finish
  | .plain text :: words => carryOut (progress.argument text) behind words
  | .unknown text :: words => carryOut (progress.extra text) behind words
  | .letters others :: _ => .error (stopOfLetters others)
  | .option .logLevel (some value) :: words =>
    carryOut (progress.set { progress.request with logLevel := some (attachedValue value) })
      behind words
  | .option .logLevel none :: .plain value :: words =>
    carryOut (progress.set { progress.request with logLevel := some value }) behind words
  | .option .logLevel none :: _ =>
    .error (.usage ("argument " ++ Switch.logLevel.title ++ ": expected one argument"))
  | .option switch (some value) :: _ => .error (ignoredValue switch value)
  | .option .help none :: _ => .error .help
  | .option .version none :: _ => .error .version
  | .option .trace none :: words =>
    carryOut (progress.set { progress.request with trace := true }) behind words
  | .option .noColor none :: words =>
    carryOut (progress.set { progress.request with noColor := true }) behind words

/-- What the command line asks for, or why nothing is run. -/
def readOptions (texts : List String) : Except Stop Request := do
  let (words, behind) ← classifyAll texts
  carryOut .start behind words

-- ============================================================================
-- Texts
-- ============================================================================

/-- The name and the version of the program. -/
def versionText : String := "toylisp 0.1.0\n"

/-- The options and arguments in short. -/
def usageText : String :=
  "usage: toylisp [-h] [--trace] [--no-color] [--log-level LOG_LEVEL] [--version]\n"
    ++ "               [file]\n"

/-- The options and arguments with what they do. -/
def helpText : String :=
  usageText ++ "\n"
    ++ "Line-oriented toylisp interpreter\n\n"
    ++ "positional arguments:\n"
    ++ "  file                  file to run line by line (default: standard input)\n\n"
    ++ "options:\n"
    ++ "  -h, --help            show this help message and exit\n"
    ++ "  --trace               echo tokens and parsed expressions before evaluating\n"
    ++ "  --no-color            do not colour error messages\n"
    ++ "  --log-level LOG_LEVEL\n"
    ++ "                        logging level (DEBUG, INFO, WARNING, ...)\n"
    ++ "  --version             show program's version number and exit\n"

/-- The message that a wrong command line gets. -/
def usageError (message : String) : String :=
  usageText ++ "toylisp: error: " ++ message ++ "\n"

end LineLisp.CommandLine

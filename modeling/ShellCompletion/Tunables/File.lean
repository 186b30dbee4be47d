import ShellCompletion.FileSystem.Access
import ShellCompletion.Text.Lines
import ShellCompletion.Tunables.Basic
import ShellCompletion.Yaml.Decode

/-!
# Tunables in files

Tunables are kept in a YAML mapping. A tunable that is left out has its default. After reading, the
ranges are checked; before writing they are not.
-/

namespace ShellCompletion.Tunables

/-- Why no tunables are loaded. -/
inductive Error where
  /-- The file cannot be opened. -/
  | file (cause : FileError)
  /-- What can be read from the file is not a mapping of tunables. -/
  | malformed
  /-- A tunable is out of its range. -/
  | outOfRange (cause : OutOfRange)
  deriving DecidableEq, Repr

/-- The message for the user. What is wrong with a malformed text is not said. -/
def Error.message : Error → String
  | file cause => "I/O error: " ++ cause.message
  | malformed => "YAML error: "
  | outOfRange cause => "invalid completion config: " ++ cause.message

/-- The names of the tunables. -/
def names : List String :=
  ["fuzzy_enabled", "max_candidates", "min_pattern_length", "score_threshold", "max_results",
    "cache_max_size"]

/-- A number of 64 bits. -/
def word64 (node : Yaml.Node) : Yaml.Decode UInt64 :=
  return .ofNat (← Yaml.Decode.natural UInt64.size node)

/-- A number of 32 bits. -/
def word32 (node : Yaml.Node) : Yaml.Decode UInt32 :=
  return .ofNat (← Yaml.Decode.natural UInt32.size node)

/-- Reads tunables from a mapping. -/
def decode (node : Yaml.Node) : Yaml.Decode Tunables := do
  let missing : Tunables := {}
  let fields ← Yaml.Decode.fields names Yaml.Decode.maxLevels node
  return {
    fuzzyEnabled :=
      ← Yaml.Decode.field fields "fuzzy_enabled" missing.fuzzyEnabled Yaml.Decode.bool
    maxCandidates := ← Yaml.Decode.field fields "max_candidates" missing.maxCandidates word64
    minPatternLength :=
      ← Yaml.Decode.field fields "min_pattern_length" missing.minPatternLength word64
    scoreThreshold := ← Yaml.Decode.field fields "score_threshold" missing.scoreThreshold word32
    maxResults := ← Yaml.Decode.field fields "max_results" missing.maxResults word64
    cacheMaxSize := ← Yaml.Decode.field fields "cache_max_size" missing.cacheMaxSize word64 }

/-- The tunables that a YAML text holds; a text without a document holds the defaults. -/
def ofText? (text : String) : Option Tunables := do
  Yaml.Decode.run decode (some {}) (← Yaml.Document.read? text)

/-- The tunables that a YAML text holds, if all are in their ranges. -/
def ofText (text : String) : Except Error Tunables := do
  match ofText? text with
  | none => throw .malformed
  | some tunables =>
    tunables.check.mapError .outOfRange
    return tunables

/-- The lines in which tunables are saved. -/
def lines (tunables : Tunables) : List String :=
  ["fuzzy_enabled: " ++ (if tunables.fuzzyEnabled then "true" else "false"),
    "max_candidates: " ++ toString tunables.maxCandidates.toNat,
    "min_pattern_length: " ++ toString tunables.minPatternLength.toNat,
    "score_threshold: " ++ toString tunables.scoreThreshold.toNat,
    "max_results: " ++ toString tunables.maxResults.toNat,
    "cache_max_size: " ++ toString tunables.cacheMaxSize.toNat]

/-- The text in which tunables are saved. -/
def toText (tunables : Tunables) : String :=
  Text.ofLines tunables.lines

variable {m : Type → Type} [Monad m] [FileAccess m]

/-- Loads tunables from a file. What fails once the file is open counts as a malformed text. -/
def load (path : String) : m (Except Error Tunables) := do
  match ← FileAccess.readText path with
  | .ok text => return ofText text
  | .error .isADirectory | .error .notText => return .error .malformed
  | .error cause => return .error (.file cause)

/-- Saves tunables to a file. -/
def save (tunables : Tunables) (path : String) : m (Except FileError Unit) :=
  FileAccess.write path tunables.toText.toUTF8

end ShellCompletion.Tunables

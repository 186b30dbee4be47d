import ShellCompletion.Yaml.Token.Tag

/-!
# YAML tokens

The words of a YAML text. Where a block collection begins and ends is not written but follows from
the indentation; here it is a token like the others.
-/

namespace ShellCompletion.Yaml

/-- How a scalar is written. -/
inductive Style where
  /-- Without quotes. -/
  | plain
  /-- Between quotes of either kind. -/
  | quoted
  /-- Behind a bar. -/
  | literal
  /-- Behind an angle bracket. -/
  | folded
  deriving DecidableEq, Repr

/-- A word of a YAML text. -/
inductive Token where
  /-- A directive with the version of the format. -/
  | version (major minor : Nat)
  /-- A directive with a tag handle and what it stands for. -/
  | handle (handle : String) (expansion : TagBytes)
  | documentStart
  | documentEnd
  | streamEnd
  | blockSequenceStart
  | blockMappingStart
  | blockEnd
  | flowSequenceStart
  | flowSequenceEnd
  | flowMappingStart
  | flowMappingEnd
  /-- The dash before an item of a block sequence. -/
  | blockItem
  /-- The comma inside brackets or braces. -/
  | comma
  /-- What follows is a key. -/
  | key
  /-- What follows is the value of a key. -/
  | value
  | alias (name : String)
  | anchor (name : String)
  | tag (tag : WrittenTag)
  | scalar (text : String) (style : Style)
  deriving DecidableEq, Repr

end ShellCompletion.Yaml

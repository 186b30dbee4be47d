import ShellCompletion.Yaml.Token.Basic

/-!
# YAML events

The structure of a document, spelled out: scalars, aliases, and where sequences and mappings begin
and end. A mapping is the sequence of its keys and values in turn. Anchors and aliases are given by
names, or by numbers once it is known which anchor an alias means.
-/

namespace ShellCompletion.Yaml

/-- A scalar. -/
structure Scalar where
  /-- Its tag, if it has one. -/
  tag : Option TagBytes := none
  /-- Its text. -/
  text : String := ""
  /-- How it is written. -/
  style : Style := .plain
  deriving DecidableEq, Repr

/-- A piece of a document; `ref` is what anchors and aliases are given by. -/
inductive Event (ref : Type) where
  /-- A reference to an anchor. -/
  | alias (target : ref)
  /-- A scalar, which may be an anchor. -/
  | scalar (anchor : Option ref) (content : Scalar)
  /-- The beginning of a sequence, which may be an anchor. -/
  | sequenceStart (anchor : Option ref)
  | sequenceEnd
  /-- The beginning of a mapping, which may be an anchor. -/
  | mappingStart (anchor : Option ref)
  | mappingEnd
  deriving Repr

namespace Event

/-- A scalar that is not written at all. -/
def empty {ref : Type} : Event ref :=
  scalar none {}

end Event

end ShellCompletion.Yaml

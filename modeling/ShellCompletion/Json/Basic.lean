/-!
# JSON values

Values as a JSON text spells them: members keep their order and their repeats, and a number keeps
its spelling. A string literal may spell half of a surrogate pair; no text holds such a string, so
its text is `none`.
-/

namespace ShellCompletion

/-- A JSON value. -/
inductive Json where
  /-- The literal `null`. -/
  | null
  /-- One of the literals `true` and `false`. -/
  | bool (value : Bool)
  /-- A number, as it is spelled. -/
  | number (spelling : String)
  /-- A string; `none` if it contains half of a surrogate pair. -/
  | string (text : Option String)
  /-- An array. -/
  | array (items : List Json)
  /-- An object: its members in order, repeated keys included. -/
  | object (members : List (Option String × Json))
  deriving Inhabited

namespace Json

/-- A string with a text. -/
def ofText (text : String) : Json :=
  string (some text)

/-- An object whose keys are texts. -/
def ofMembers (members : List (String × Json)) : Json :=
  object (members.map fun member => (some member.1, member.2))

/-- An array of strings. -/
def ofTexts (texts : List String) : Json :=
  array (texts.map ofText)

end Json

end ShellCompletion

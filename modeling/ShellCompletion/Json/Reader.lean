import ShellCompletion.Json.Token

/-!
# Reading JSON

The words of a text are put together by a machine with a stack of the arrays and objects that are
open, so that values may be nested to any depth. A text holds exactly one value.
-/

namespace ShellCompletion.Json

/-- An array or object that is open, with what is already in it, the latest first. -/
inductive Pending where
  /-- An array. -/
  | items (items : List Json)
  /-- An object with the key of the value that comes next. -/
  | members (members : List (Option String × Json)) (key : Option String)

/-- What the machine waits for. The stack holds what is open around it, the innermost first. -/
inductive Expecting where
  /-- A value. -/
  | anyValue (stack : List Pending)
  /-- The first item of an array, or its end. -/
  | firstItem (stack : List Pending)
  /-- A comma in an array, or its end. -/
  | nextItem (items : List Json) (stack : List Pending)
  /-- The first key of an object, or its end. -/
  | firstKey (stack : List Pending)
  /-- A key behind a comma. -/
  | nextKey (members : List (Option String × Json)) (stack : List Pending)
  /-- The colon behind a key. -/
  | colon (members : List (Option String × Json)) (key : Option String) (stack : List Pending)
  /-- A comma in an object, or its end. -/
  | nextMember (members : List (Option String × Json)) (stack : List Pending)
  /-- Nothing more. -/
  | nothing (value : Json)

namespace Expecting

/-- Puts a complete value where it belongs. -/
def close (value : Json) : List Pending → Expecting
  | [] => nothing value
  | .items items :: stack => nextItem (value :: items) stack
  | .members members key :: stack => nextMember ((key, value) :: members) stack

/-- Takes the first word of a value. -/
def open? (stack : List Pending) : Token → Option Expecting
  | .beginArray => some (firstItem stack)
  | .beginObject => some (firstKey stack)
  | .text text => some (close (.string text) stack)
  | .scalar value => some (close value stack)
  | _ => none

/-- Takes one word. -/
def step : Expecting → Token → Option Expecting
  | anyValue stack, token => open? stack token
  | firstItem stack, .endArray => some (close (.array []) stack)
  | firstItem stack, token => open? (.items [] :: stack) token
  | nextItem items stack, .comma => some (anyValue (.items items :: stack))
  | nextItem items stack, .endArray => some (close (.array items.reverse) stack)
  | firstKey stack, .endObject => some (close (.object []) stack)
  | firstKey stack, .text text => some (colon [] text stack)
  | nextKey members stack, .text text => some (colon members text stack)
  | colon members key stack, .colon => some (anyValue (.members members key :: stack))
  | nextMember members stack, .comma => some (nextKey members stack)
  | nextMember members stack, .endObject => some (close (.object members.reverse) stack)
  | _, _ => none

/-- The value, once nothing more is expected. -/
def value? : Expecting → Option Json
  | nothing value => some value
  | _ => none

end Expecting

/-- The value that a text holds. -/
def read? (text : String) : Option Json := do
  let tokens ← tokens? text.toList
  (← tokens.foldlM Expecting.step (.anyValue [])).value?

end ShellCompletion.Json

import Mathlib.Data.List.Basic
import Mathlib.Tactic.SplitIfs
import ShellCompletion.Json.Printer
import ShellCompletion.Json.Reader

/-!
# Compact texts are read back

A value is read back (`ReadsBack`) if the words of its compact layout, taken where a value may
begin, lead the machine to the state in which that value has been put in its place, whatever text
follows. This is shown of strings, and of arrays and objects whose parts are read back.

* **Literals** (`readUnits_flatMap_escapeChar`, `textOfUnits?_map_toNat`): no text holds half a
  surrogate pair, and each character is read back from the way it is written.
* **Words** (`run_token`): one word is taken off the front of a text.
* **Values** (`readsBack_text`, `readsBack_array`, `readsBack_object`).

Main statement: `read?_compact`.
-/

namespace ShellCompletion.Json

open Expecting

/-! ### Literals -/

/-- A hexadecimal digit has the value that it was written for. -/
theorem hexValue?_hexDigit : ∀ {n : Nat}, n < 16 → hexValue? (hexDigit n) = some n := by
  decide

/-- A character below sixteen times sixteen is spelled by its last two digits. -/
theorem hexQuad?_hexDigit {n : Nat} (h : n < 256) :
    hexQuad? '0' '0' (hexDigit (n / 16)) (hexDigit (n % 16)) = some n := by
  have hzero : hexValue? '0' = some 0 := rfl
  have hhigh := hexValue?_hexDigit (n := n / 16) (by omega)
  have hlow := hexValue?_hexDigit (n := n % 16) (by omega)
  simp only [hexQuad?, hzero, hhigh, hlow, Option.bind_eq_bind, Option.bind_some, Option.pure_def,
    Option.some.injEq]
  omega

/-- A short escape is read as the character that it stands for. -/
theorem readUnits_short {e c : Char} (h : shortEscape? e = some c) (rest : List Char) :
    readUnits ('\\' :: e :: rest) =
      (readUnits rest).map fun read => (c.toNat :: read.1, read.2) := by
  have hu : e ≠ 'u' := by
    rintro rfl
    cases h
  rw [readUnits, h]
  · cases readUnits rest <;> rfl
  · intro a b c d rest he
    exact absurd he hu

/-- An escape with digits is read as the number that they spell. -/
theorem readUnits_digits {n : Nat} (h : n < 256) (rest : List Char) :
    readUnits ('\\' :: 'u' :: '0' :: '0' :: hexDigit (n / 16) :: hexDigit (n % 16) :: rest) =
      (readUnits rest).map fun read => (n :: read.1, read.2) := by
  rw [readUnits, hexQuad?_hexDigit h]
  cases readUnits rest <;> rfl

/-- A character that needs no escape is read as itself. -/
theorem readUnits_plain {c : Char} (hquote : c ≠ '"') (hslash : c ≠ '\\') (h : ¬c.toNat < 0x20)
    (rest : List Char) :
    readUnits (c :: rest) = (readUnits rest).map fun read => (c.toNat :: read.1, read.2) := by
  rw [readUnits, if_neg h]
  · cases readUnits rest <;> rfl
  · exact hquote
  · intro a b c d rest he
    exact absurd he hslash
  · intro e rest he
    exact absurd he hslash

/-- A character is read back from the way it is written. -/
theorem readUnits_escapeChar (c : Char) (rest : List Char) :
    readUnits (escapeChar c ++ rest) =
      (readUnits rest).map fun read => (c.toNat :: read.1, read.2) := by
  unfold escapeChar
  split_ifs with hquote hslash hback hfeed hline hreturn htab hcontrol
  · rw [hquote]
    exact readUnits_short rfl rest
  · rw [hslash]
    exact readUnits_short rfl rest
  · rw [hback]
    exact readUnits_short rfl rest
  · rw [hfeed]
    exact readUnits_short rfl rest
  · rw [hline]
    exact readUnits_short rfl rest
  · rw [hreturn]
    exact readUnits_short rfl rest
  · rw [htab]
    exact readUnits_short rfl rest
  · exact readUnits_digits (by omega) rest
  · exact readUnits_plain hquote hslash hcontrol rest

/-- What stands between the quotes is read up to the closing one, and gives the numbers of the
characters. -/
theorem readUnits_flatMap_escapeChar (cs rest : List Char) :
    readUnits (cs.flatMap escapeChar ++ '"' :: rest) = some (cs.map Char.toNat, rest) := by
  induction cs with
  | nil => rfl
  | cons c cs ih =>
    rw [List.flatMap_cons, List.append_assoc, readUnits_escapeChar, ih]
    rfl

/-- No character is half of a surrogate pair. -/
theorem not_surrogate (c : Char) :
    isHighSurrogate c.toNat = false ∧ isLowSurrogate c.toNat = false := by
  have hvalid : c.toNat < 0xD800 ∨ 0xDFFF < c.toNat ∧ c.toNat < 0x110000 := c.valid
  simp only [isHighSurrogate, isLowSurrogate, Bool.and_eq_false_iff, decide_eq_false_iff_not]
  omega

/-- The numbers of characters, none of which is a surrogate, give the characters back. -/
theorem textOfUnits?_map_toNat (cs : List Char) : textOfUnits? (cs.map Char.toNat) = some cs := by
  induction cs with
  | nil => rfl
  | cons c cs ih =>
    obtain ⟨hhigh, hlow⟩ := not_surrogate c
    cases cs with
    | nil => simp [textOfUnits?, hhigh, hlow]
    | cons d cs =>
      rw [List.map_cons, List.map_cons, textOfUnits?, hhigh, hlow, ← List.map_cons, ih]
      simp

/-! ### Words -/

/-- The state of the machine behind all the words of a text. -/
def run (state : Expecting) (cs : List Char) : Option Expecting :=
  (tokens? cs).bind fun tokens => tokens.foldlM Expecting.step state

/-- The word at the beginning of a text takes the machine one step on. -/
theorem run_token {c : Char} {rest after : List Char} {token : Token} (hc : isSpace c = false)
    (h : readToken? (c :: rest) = some (token, after)) (state : Expecting) :
    run state (c :: rest) = (state.step token).bind fun next => run next after := by
  unfold run
  rw [tokens?, if_neg (by simp [hc])]
  split
  next hnone => rw [h] at hnone; cases hnone
  next token' after' hsome =>
    obtain ⟨rfl, rfl⟩ := Prod.mk.inj (Option.some.inj (h.symm.trans hsome))
    cases tokens? after with
    | none => cases state.step token <;> rfl
    | some tokens => rfl

/-- A mark of one character. -/
theorem run_mark {c : Char} {token : Token} (hc : isSpace c = false)
    (h : ∀ rest, readToken? (c :: rest) = some (token, rest)) (state : Expecting)
    (rest : List Char) :
    run state (c :: rest) = (state.step token).bind fun next => run next rest :=
  run_token hc (h rest) state

/-- A text in quotes is one token. -/
theorem readToken?_quote (cs rest : List Char) :
    readToken? (quote cs ++ rest) = some (.text (some (String.ofList cs)), rest) := by
  rw [quote, List.cons_append, List.cons_append, List.append_assoc, List.singleton_append,
    readToken?, readUnits_flatMap_escapeChar, Option.map_some]
  show some (Token.text ((textOfUnits? (cs.map Char.toNat)).map String.ofList), rest) = _
  rw [textOfUnits?_map_toNat, Option.map_some]

/-- A string is read back from its literal. The one without a text has a literal of its own. -/
theorem readToken?_stringChars (text : Option String) (rest : List Char) :
    readToken? (stringChars text ++ rest) = some (.text text, rest) := by
  cases text with
  | none =>
    show readToken? ('"' :: '\\' :: 'u' :: 'd' :: '8' :: '0' :: '0' :: '"' :: rest) = _
    rw [readToken?, readUnits, readUnits]
    rfl
  | some text =>
    have hread := readToken?_quote text.toList rest
    rwa [String.ofList_toList] at hread

/-- A string is one token of the run, whatever follows. -/
theorem run_stringChars (text : Option String) (state : Expecting) (rest : List Char) :
    run state (stringChars text ++ rest) =
      (state.step (.text text)).bind fun next => run next rest := by
  have hquote : ∃ cs, stringChars text = '"' :: cs := by
    cases text with
    | none => exact ⟨_, rfl⟩
    | some text => exact ⟨_, rfl⟩
  obtain ⟨cs, hcs⟩ := hquote
  have hread := readToken?_stringChars text rest
  rw [hcs, List.cons_append] at hread ⊢
  exact run_token rfl hread state

/-! ### Values -/

/-- A value may begin in this state, and what comes of it is put on top of the stack. The bracket
that ends an array begins no value. -/
def Opens (state : Expecting) (stack : List Pending) : Prop :=
  ∀ token, token ≠ .endArray → state.step token = open? stack token

/-- Where any value may stand, one may begin. -/
theorem opens_anyValue (stack : List Pending) : Opens (anyValue stack) stack :=
  fun _ _ => rfl

/-- Behind an opening bracket a value may begin, and becomes the first item. -/
theorem opens_firstItem (stack : List Pending) : Opens (firstItem stack) (.items [] :: stack) := by
  intro token hend
  cases token with
  | endArray => exact absurd rfl hend
  | _ => rfl

/-- The compact layout of the value is read back wherever a value may begin, whatever follows. -/
def ReadsBack (value : Json) : Prop :=
  ∀ {state stack}, Opens state stack → ∀ rest,
    run state (value.compactChars ++ rest) = run (close value stack) rest

/-- A string is read back, also if it has no text. -/
theorem readsBack_string (text : Option String) : ReadsBack (.string text) := by
  intro state stack hopens rest
  rw [compactChars, run_stringChars, hopens (.text text) nofun]
  rfl

/-- The items of an array, with those before them already on the stack. -/
theorem run_compactItems {item : Json} {items before : List Json} {state : Expecting}
    {stack : List Pending} (hitem : ReadsBack item) (hitems : ∀ next ∈ items, ReadsBack next)
    (hopens : Opens state (.items before :: stack)) (rest : List Char) :
    run state (compactItems (item :: items) ++ ']' :: rest) =
      run (close (.array (before.reverse ++ item :: items)) stack) rest := by
  induction items generalizing item before state with
  | nil =>
    rw [compactItems, hitem hopens]
    show run (nextItem (item :: before) stack) (']' :: rest) = _
    rw [run_mark rfl (fun _ => rfl), ← List.reverse_cons]
    rfl
  | cons next items ih =>
    rw [compactItems, List.append_assoc, hitem hopens, List.cons_append]
    show run (nextItem (item :: before) stack) (',' :: _) = _
    rw [run_mark rfl (fun _ => rfl)]
    show run (anyValue (.items (item :: before) :: stack)) _ = _
    rw [ih (hitems next List.mem_cons_self)
      (fun value hvalue => hitems value (List.mem_cons_of_mem next hvalue)) (opens_anyValue _),
      List.reverse_cons, List.append_assoc, List.singleton_append]
    exact List.cons_ne_nil next items

/-- An array is read back if its items are. -/
theorem readsBack_array {items : List Json} (h : ∀ item ∈ items, ReadsBack item) :
    ReadsBack (.array items) := by
  intro state stack hopens rest
  rw [compactChars, List.append_assoc, List.cons_append, run_mark rfl (fun _ => rfl),
    hopens .beginArray nofun]
  show run (firstItem stack) (compactItems items ++ ']' :: rest) = _
  cases items with
  | nil =>
    show run (firstItem stack) (']' :: rest) = _
    rw [run_mark rfl (fun _ => rfl)]
    rfl
  | cons item items =>
    exact run_compactItems (h item List.mem_cons_self)
      (fun next hnext => h next (List.mem_cons_of_mem item hnext)) (opens_firstItem stack) rest

/-- A key and its value, with the members before them already read. -/
theorem run_member {key : Option String} {value : Json} {before : List (Option String × Json)}
    {state : Expecting} {stack : List Pending} (hvalue : ReadsBack value)
    (hkey : state.step (.text key) = some (colon before key stack)) (rest : List Char) :
    run state (stringChars key ++ ':' :: value.compactChars ++ rest) =
      run (nextMember ((key, value) :: before) stack) rest := by
  rw [List.append_assoc, run_stringChars, hkey, List.cons_append]
  show run (colon before key stack) (':' :: _) = _
  rw [run_mark rfl (fun _ => rfl)]
  exact hvalue (opens_anyValue _) rest

/-- The members of an object, with those before them already read. -/
theorem run_compactMembers {member : Option String × Json}
    {members before : List (Option String × Json)} {state : Expecting} {stack : List Pending}
    (hmember : ReadsBack member.2) (hmembers : ∀ next ∈ members, ReadsBack next.2)
    (hkey : ∀ key, state.step (.text key) = some (colon before key stack)) (rest : List Char) :
    run state (compactMembers (member :: members) ++ '\x7d' :: rest) =
      run (close (.object (before.reverse ++ member :: members)) stack) rest := by
  induction members generalizing member before state with
  | nil =>
    rw [compactMembers, run_member hmember (hkey _), run_mark rfl (fun _ => rfl),
      ← List.reverse_cons]
    rfl
  | cons next members ih =>
    rw [compactMembers, List.append_assoc, run_member hmember (hkey _), List.cons_append,
      run_mark rfl (fun _ => rfl)]
    show run (nextKey (member :: before) stack) _ = _
    rw [ih (hmembers next List.mem_cons_self)
      (fun value hvalue => hmembers value (List.mem_cons_of_mem next hvalue)) (fun _ => rfl),
      List.reverse_cons, List.append_assoc, List.singleton_append]
    exact List.cons_ne_nil next members

/-- An object is read back if the values of its members are. -/
theorem readsBack_object {members : List (Option String × Json)}
    (h : ∀ member ∈ members, ReadsBack member.2) : ReadsBack (.object members) := by
  intro state stack hopens rest
  rw [compactChars, List.append_assoc, List.cons_append, run_mark rfl (fun _ => rfl),
    hopens .beginObject nofun]
  show run (firstKey stack) (compactMembers members ++ '\x7d' :: rest) = _
  cases members with
  | nil =>
    show run (firstKey stack) ('\x7d' :: rest) = _
    rw [run_mark rfl (fun _ => rfl)]
    rfl
  | cons member members =>
    have hfirst : ∀ key, (firstKey stack).step (.text key) = some (colon [] key stack) :=
      fun _ => rfl
    exact run_compactMembers (h member List.mem_cons_self)
      (fun next hnext => h next (List.mem_cons_of_mem member hnext)) hfirst rest

/-- A list of texts is read back. -/
theorem readsBack_ofTexts (texts : List String) : ReadsBack (ofTexts texts) := by
  apply readsBack_array
  intro item hitem
  obtain ⟨text, -, rfl⟩ := List.mem_map.mp hitem
  exact readsBack_string (some text)

/-- An object is read back if its members are. -/
theorem readsBack_ofMembers {members : List (String × Json)}
    (h : ∀ member ∈ members, ReadsBack member.2) : ReadsBack (ofMembers members) := by
  apply readsBack_object
  intro _ hwritten
  obtain ⟨member, hmember, rfl⟩ := List.mem_map.mp hwritten
  exact h member hmember

/-- **The compact text of a value holds that value.** -/
theorem read?_compact {value : Json} (h : ReadsBack value) : read? value.compact = some value := by
  have hrun := h (opens_anyValue []) []
  rw [List.append_nil] at hrun
  have hend : run (close value []) [] = some (nothing value) := by
    unfold run
    rw [tokens?]
    rfl
  rw [hend] at hrun
  unfold run at hrun
  obtain ⟨tokens, htokens, hstate⟩ := Option.bind_eq_some_iff.mp hrun
  unfold read? compact
  rw [String.toList_ofList, htokens]
  show (tokens.foldlM Expecting.step (anyValue [])).bind Expecting.value? = some value
  rw [hstate]
  rfl

end ShellCompletion.Json

import ShellCompletion.Json.Basic
import ShellCompletion.Json.Quoted

/-!
# JSON tokens

The words of a JSON text: its punctuation, and its literals, numbers and strings, each as the value
that it stands for. Blanks between them are skipped.
-/

namespace ShellCompletion.Json

/-- A word of a JSON text. -/
inductive Token where
  | beginArray
  | endArray
  | beginObject
  | endObject
  | colon
  | comma
  /-- A string literal. -/
  | text (text : Option String)
  /-- A number, or one of the literals without a structure. -/
  | scalar (value : Json)

/-- A blank between the words of a JSON text. -/
def isSpace (c : Char) : Bool :=
  c == ' ' || c == '\t' || c == '\n' || c == '\r'

/-- A run of digits at the beginning, and what follows it. -/
def digitRun (cs : List Char) : List Char × List Char :=
  (cs.takeWhile Char.isDigit, cs.dropWhile Char.isDigit)

/-- The whole part of a number: a single zero, or digits that begin with another one. -/
def readWhole? : List Char → Option (List Char × List Char)
  | '0' :: rest => some (['0'], rest)
  | c :: rest => if c.isDigit then some (digitRun (c :: rest)) else none
  | [] => none

/-- The fraction of a number, if a point opens one. -/
def readFraction? : List Char → Option (List Char × List Char)
  | '.' :: rest =>
    match digitRun rest with
    | ([], _) => none
    | (digits, rest) => some ('.' :: digits, rest)
  | cs => some ([], cs)

/-- The sign of an exponent, if there is one. -/
def readSign : List Char → List Char × List Char
  | '+' :: rest => (['+'], rest)
  | '-' :: rest => (['-'], rest)
  | cs => ([], cs)

/-- The exponent of a number, if a letter opens one. -/
def readExponent? : List Char → Option (List Char × List Char)
  | c :: rest =>
    if c = 'e' ∨ c = 'E' then
      let (sign, rest) := readSign rest
      match digitRun rest with
      | ([], _) => none
      | (digits, rest) => some (c :: sign ++ digits, rest)
    else some ([], c :: rest)
  | [] => some ([], [])

/-- A number without its minus sign. -/
def readUnsigned? (cs : List Char) : Option (List Char × List Char) := do
  let (whole, cs) ← readWhole? cs
  let (fraction, cs) ← readFraction? cs
  let (exponent, cs) ← readExponent? cs
  return (whole ++ fraction ++ exponent, cs)

/-- A number. -/
def readNumber? : List Char → Option (List Char × List Char)
  | '-' :: rest => (readUnsigned? rest).map fun (digits, rest) => ('-' :: digits, rest)
  | cs => readUnsigned? cs

/-- The word that begins here, and what follows it. -/
def readToken? : List Char → Option (Token × List Char)
  | '[' :: rest => some (.beginArray, rest)
  | ']' :: rest => some (.endArray, rest)
  | '{' :: rest => some (.beginObject, rest)
  | '}' :: rest => some (.endObject, rest)
  | ':' :: rest => some (.colon, rest)
  | ',' :: rest => some (.comma, rest)
  | '"' :: rest =>
    (readUnits rest).map fun (units, rest) =>
      (.text ((textOfUnits? units).map String.ofList), rest)
  | 'n' :: 'u' :: 'l' :: 'l' :: rest => some (.scalar .null, rest)
  | 't' :: 'r' :: 'u' :: 'e' :: rest => some (.scalar (.bool true), rest)
  | 'f' :: 'a' :: 'l' :: 's' :: 'e' :: rest => some (.scalar (.bool false), rest)
  | cs =>
    (readNumber? cs).map fun (digits, rest) => (.scalar (.number (String.ofList digits)), rest)

/-! ## What is left behind a word -/

/-- What follows a run of digits is no longer than the text. -/
theorem length_digitRun_le (cs : List Char) : (digitRun cs).2.length ≤ cs.length := by
  have h := congrArg List.length (List.takeWhile_append_dropWhile (p := Char.isDigit) (l := cs))
  simp only [List.length_append] at h
  simp only [digitRun]
  omega

/-- What follows a whole number is shorter than the text. -/
theorem length_lt_of_readWhole? {cs digits after : List Char}
    (h : readWhole? cs = some (digits, after)) : after.length < cs.length := by
  unfold readWhole? at h
  split at h
  next rest => simp_all
  next c rest _ =>
    split at h
    next hc =>
      obtain ⟨-, rfl⟩ := Prod.mk.inj (Option.some.inj h)
      rw [List.dropWhile_cons_of_pos hc]
      exact Nat.lt_succ_of_le (length_digitRun_le rest)
    next => simp at h
  next => simp at h

/-- What follows a fraction, or none, is no longer than the text. -/
theorem length_le_of_readFraction? {cs digits after : List Char}
    (h : readFraction? cs = some (digits, after)) : after.length ≤ cs.length := by
  unfold readFraction? at h
  split at h
  next rest =>
    have := length_digitRun_le rest
    split at h
    next => simp at h
    next heq =>
      obtain ⟨-, rfl⟩ := Prod.mk.inj (Option.some.inj h)
      simp_all
      omega
  next => simp_all

/-- What follows a sign, or none, is no longer than the text. -/
theorem length_readSign_le (cs : List Char) : (readSign cs).2.length ≤ cs.length := by
  unfold readSign
  split <;> simp

/-- What follows an exponent, or none, is no longer than the text. -/
theorem length_le_of_readExponent? {cs digits after : List Char}
    (h : readExponent? cs = some (digits, after)) : after.length ≤ cs.length := by
  unfold readExponent? at h
  split at h
  next c rest =>
    split at h
    next =>
      have := length_readSign_le rest
      have := length_digitRun_le (readSign rest).2
      dsimp only at h
      split at h
      next => simp at h
      next heq =>
        obtain ⟨-, rfl⟩ := Prod.mk.inj (Option.some.inj h)
        simp_all
        omega
    next => simp_all
  next => simp_all

/-- What follows a number without a sign is shorter than the text. -/
theorem length_lt_of_readUnsigned? {cs digits after : List Char}
    (h : readUnsigned? cs = some (digits, after)) : after.length < cs.length := by
  simp only [readUnsigned?, Option.bind_eq_bind, Option.bind_eq_some_iff, Option.pure_def,
    Option.some.injEq, Prod.mk.injEq] at h
  obtain ⟨⟨whole, cs₁⟩, h₁, ⟨fraction, cs₂⟩, h₂, ⟨exponent, cs₃⟩, h₃, -, rfl⟩ := h
  have a : cs₁.length < cs.length := length_lt_of_readWhole? h₁
  have b : cs₂.length ≤ cs₁.length := length_le_of_readFraction? h₂
  have c : cs₃.length ≤ cs₂.length := length_le_of_readExponent? h₃
  exact Nat.lt_of_le_of_lt c (Nat.lt_of_le_of_lt b a)

/-- What follows a number is shorter than the text. -/
theorem length_lt_of_readNumber? {cs digits after : List Char}
    (h : readNumber? cs = some (digits, after)) : after.length < cs.length := by
  unfold readNumber? at h
  split at h
  next rest =>
    obtain ⟨⟨d, a⟩, hr, he⟩ := Option.map_eq_some_iff.1 h
    obtain ⟨-, rfl⟩ := Prod.mk.inj he
    have := length_lt_of_readUnsigned? hr
    simp only [List.length_cons]
    omega
  next => exact length_lt_of_readUnsigned? h

/-- A word has at least one character. -/
theorem length_lt_of_readToken? {cs after : List Char} {token : Token}
    (h : readToken? cs = some (token, after)) : after.length < cs.length := by
  unfold readToken? at h
  split at h
  case h_7 rest =>
    obtain ⟨⟨units, a⟩, hr, he⟩ := Option.map_eq_some_iff.1 h
    obtain ⟨-, rfl⟩ := Prod.mk.inj he
    have := length_lt_of_readUnits hr
    simp only [List.length_cons]
    omega
  case h_11 =>
    obtain ⟨⟨digits, a⟩, hr, he⟩ := Option.map_eq_some_iff.1 h
    obtain ⟨-, rfl⟩ := Prod.mk.inj he
    exact length_lt_of_readNumber? hr
  all_goals
    obtain ⟨-, rfl⟩ := Prod.mk.inj (Option.some.inj h)
    simp only [List.length_cons]
    omega

/-! ## All the words -/

/-- All the words of a text. -/
def tokens? : List Char → Option (List Token)
  | [] => some []
  | c :: rest =>
    if isSpace c then tokens? rest
    else
      match _h : readToken? (c :: rest) with
      | none => none
      | some (token, after) => (tokens? after).map (token :: ·)
termination_by cs => cs.length
decreasing_by
  · simp
  · exact length_lt_of_readToken? _h

end ShellCompletion.Json

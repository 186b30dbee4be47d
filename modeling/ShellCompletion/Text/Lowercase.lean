import ShellCompletion.Text.Lowercase.Table

/-!
# Lowercase text

The full Unicode lowercase mapping, which the matcher uses to compare without regard to case. It is
one-to-one except at two places: the capital I with a dot becomes two characters, and a capital
sigma at the end of a word takes the final form `ς`.

Main statement: `length_le_length_lowercase`, no text gets shorter.
-/

namespace ShellCompletion.Text

/-- The character lies in one of the ranges. -/
def inRanges (ranges : List (Nat × Nat)) (c : Char) : Bool :=
  ranges.any fun range => range.1 ≤ c.toNat && c.toNat ≤ range.2

/-- The class `Cased`. -/
def isCased (c : Char) : Bool :=
  inRanges casedRanges c

/-- The class `Case_Ignorable`. -/
def isCaseIgnorable (c : Char) : Bool :=
  inRanges caseIgnorableRanges c

/-- The code point is one of the capitals of the run. -/
def CaseRun.covers (run : CaseRun) (n : Nat) : Bool :=
  run.first ≤ n && n ≤ run.last && (n - run.first) % run.step == 0

/-- The lowercase form of one character, wherever it stands. -/
def lowerChar (c : Char) : List Char :=
  if c.toNat < 0x80 then [c.toLower]
  else if c = 'İ' then ['i', '\u0307']
  else
    match caseRuns.find? (·.covers c.toNat) with
    | some run => [Char.ofNat (c.toNat + run.shift).toNat]
    | none => [c]

/-- No character vanishes in lower case. -/
theorem lowerChar_ne_nil (c : Char) : lowerChar c ≠ [] := by
  unfold lowerChar
  split
  · simp
  split
  · simp
  split <;> simp

/-- The nearest character that is not a case-ignorable mark is a cased letter. -/
def meetsCased (cs : List Char) : Bool :=
  match cs.dropWhile isCaseIgnorable with
  | c :: _ => isCased c
  | [] => false

/-- A sigma with `before` behind it (nearest character first) and `after` ahead of it ends a word:
it follows a letter and no letter follows it. -/
def endsWord (before after : List Char) : Bool :=
  meetsCased before && !meetsCased after

/-- The lowercase form of `cs` when the characters `before` (nearest first) precede it. -/
def lowercaseAfter (before : List Char) : List Char → List Char
  | [] => []
  | c :: rest =>
    (if c = 'Σ' then [if endsWord before rest then 'ς' else 'σ'] else lowerChar c) ++
      lowercaseAfter (c :: before) rest

/-- The lowercase form of a text. -/
def lowercase (s : String) : String :=
  String.ofList (lowercaseAfter [] s.toList)

/-- No text gets shorter in lower case, whatever stands before it. -/
theorem length_le_length_lowercaseAfter (before cs : List Char) :
    cs.length ≤ (lowercaseAfter before cs).length := by
  induction cs generalizing before with
  | nil => simp [lowercaseAfter]
  | cons c rest ih =>
    have head : 1 ≤ (if c = 'Σ' then [if endsWord before rest then 'ς' else 'σ']
        else lowerChar c).length := by
      split
      · simp
      · exact List.length_pos_iff.2 (lowerChar_ne_nil c)
    have tail := ih (c :: before)
    simp only [lowercaseAfter, List.length_append, List.length_cons]
    omega

/-- Lowercasing never makes a text shorter. -/
theorem length_le_length_lowercase (s : String) : s.length ≤ (lowercase s).length := by
  simpa [lowercase, ← String.length_toList] using length_le_length_lowercaseAfter [] s.toList

end ShellCompletion.Text

/-!
# Lines

Texts that are made of lines, the last of which ends in a line break like the others.
-/

namespace ShellCompletion.Text

/-- The text of lines that all end in a line break. -/
def ofLines (lines : List String) : String :=
  String.join (lines.map (· ++ "\n"))

end ShellCompletion.Text

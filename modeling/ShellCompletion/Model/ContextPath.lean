import Std.Data.TreeMap.Lemmas

/-!
# Context paths

The place on a command line that a completion happens at is named by the words that lead to it, each
between slashes. The root is a single slash. Paths are ordered as texts are, character by character.
-/

namespace ShellCompletion

/-- The spelling of a place in a command tree. -/
structure ContextPath where
  /-- The text of the path; it begins and ends with a slash. -/
  text : String
  deriving DecidableEq, Repr

namespace ContextPath

/-- The place of the program itself. -/
def root : ContextPath :=
  ⟨"/"⟩

/-- The place reached by typing `name` here. -/
def child (path : ContextPath) (name : String) : ContextPath :=
  ⟨path.text ++ name ++ "/"⟩

/-- The path is spelled like the root. -/
def isRoot (path : ContextPath) : Bool :=
  path.text == "/"

instance : Ord ContextPath where
  compare a b := compare a.text b.text

instance : Std.TransOrd ContextPath where
  eq_swap := by
    intro a b
    exact (Std.OrientedOrd.eq_swap : compare a.text b.text = (compare b.text a.text).swap)
  isLE_trans := by
    intro a b c hab hbc
    have h : (compare a.text c.text).isLE := Std.TransOrd.isLE_trans (b := b.text) hab hbc
    exact h

instance : Std.LawfulEqOrd ContextPath where
  compare_self := by
    intro a
    exact (Std.ReflOrd.compare_self : compare a.text a.text = .eq)
  eq_of_compare := by
    intro a b h
    cases a
    cases b
    exact congrArg _ (Std.LawfulEqOrd.eq_of_compare h)

end ContextPath

end ShellCompletion

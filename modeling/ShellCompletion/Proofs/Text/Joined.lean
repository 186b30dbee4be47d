import Mathlib.Data.List.Basic
import Mathlib.Data.List.Flatten

/-!
# Lists that are read back

Lists whose items are read one by one, and lists that are joined with a separator.
-/

namespace ShellCompletion

/-- If each item is read back from what is written for it, so is the list. -/
theorem mapM_map_eq_some {α β γ : Type} {f : α → β} {read? : β → Option γ} {g : α → γ}
    {list : List α} (h : ∀ x ∈ list, read? (f x) = some (g x)) :
    (list.map f).mapM read? = some (list.map g) := by
  induction list with
  | nil => rfl
  | cons x list ih =>
    rw [List.map_cons, List.mapM_cons, h x List.mem_cons_self,
      ih fun y hy => h y (List.mem_cons_of_mem x hy)]
    rfl

end ShellCompletion

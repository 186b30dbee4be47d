import Mathlib.Data.List.Flatten
import Mathlib.Data.List.Nodup
import ShellCompletion.Proofs.Command.Siblings

/-!
# The flags of a command that passes the check

The check goes through the flags of one command and keeps the dashed forms that it has seen. What it
asks of them as a whole (`FlagsFit`), and what it has found where it refuses them
(`Fault.InFlags`).

* **Going through a list** (`KeepsKeys.foldlM`, `exists_of_foldlM_eq_error`): what a check that
  keeps the keys of its entries has asked of a whole list, and where in the list it has stopped.
* **Passing** (`fit_of_checkAll`) and **refusing** (`inFlags_of_checkAll`).
-/

namespace ShellCompletion

/-! ### Going through a list -/

section fold

variable {ε α β : Type}

/-- A sequence fails in its first part, or in the second after the first has succeeded. -/
theorem bind_eq_error_iff {x : Except ε α} {f : α → Except ε β} {e : ε} :
    x >>= f = .error e ↔ x = .error e ∨ ∃ a, x = .ok a ∧ f a = .error e := by
  cases x with
  | error e' => simp [bind, Except.bind]
  | ok a => simp [bind, Except.bind]

/-- A refusal happens for its ground or further on. -/
theorem refuse_eq_error_iff {p : Prop} [Decidable p] {e e' : ε} {f : Unit → Except ε β} :
    (if p then throw e >>= f else f ()) = .error e' ↔ p ∧ e = e' ∨ ¬p ∧ f () = .error e' := by
  by_cases h : p
  · simp [h, throw, throwThe, MonadExceptOf.throw, bind, Except.bind]
  · simp [h]

/-- A check that refuses a list has passed its beginning and refuses the entry behind that. -/
theorem exists_of_foldlM_eq_error {step : β → α → Except ε β} {list : List α} {start : β} {e : ε}
    (h : list.foldlM step start = .error e) :
    ∃ before x after reached, list = before ++ x :: after ∧
      before.foldlM step start = .ok reached ∧ step reached x = .error e := by
  induction list generalizing start with
  | nil => exact absurd h (by simp [pure, Except.pure])
  | cons y rest ih =>
    rw [List.foldlM_cons, bind_eq_error_iff] at h
    rcases h with h | ⟨next, hnext, h⟩
    · exact ⟨[], y, rest, start, rfl, rfl, h⟩
    · obtain ⟨before, x, after, reached, rfl, hbefore, hx⟩ := ih h
      refine ⟨y :: before, x, after, reached, rfl, ?_, hx⟩
      rw [List.foldlM_cons, hnext]
      exact hbefore

/-- A check of entries that keeps their keys: an entry passes only if it fits, and its keys are put
to those that are kept already, none of them a second time. -/
def KeepsKeys (step : List String → α → Except Fault (List String)) (keys : α → List String)
    (Fits : α → Prop) : Prop :=
  ∀ {seen seen' : List String} {x : α}, step seen x = .ok seen' →
    Fits x ∧ seen' = (keys x).reverse ++ seen ∧ (seen.Nodup → seen'.Nodup)

/-- A check that keeps the keys of entries keeps those of a list of them. -/
theorem KeepsKeys.foldlM {step : List String → α → Except Fault (List String)}
    {keys : α → List String} {Fits : α → Prop} (hstep : KeepsKeys step keys Fits) :
    KeepsKeys (fun seen list => list.foldlM step seen) (List.flatMap keys)
      (fun list => ∀ x ∈ list, Fits x) := by
  intro seen seen' list (h : list.foldlM step seen = .ok seen')
  induction list generalizing seen with
  | nil =>
    obtain rfl := pure_eq_ok_iff.mp h
    exact ⟨List.forall_mem_nil _, rfl, id⟩
  | cons x rest ih =>
    rw [List.foldlM_cons, bind_eq_ok_iff] at h
    obtain ⟨next, hx, hrest⟩ := h
    obtain ⟨hfits, rfl, hnodup⟩ := hstep hx
    obtain ⟨hall, rfl, hnodup'⟩ := ih hrest
    refine ⟨List.forall_mem_cons.mpr ⟨hfits, hall⟩, ?_, fun h => hnodup' (hnodup h)⟩
    simp

end fold

/-! ### Names and forms -/

/-- A name that a flag may have: it is not empty, does not begin with a dash and contains neither an
equals sign nor a blank. -/
structure ProperFlagName (name : String) : Prop where
  /-- There is something to type behind the dashes. -/
  ne_empty : name ≠ ""
  /-- The dashes are not part of the name. -/
  no_dash : name.toList.head? ≠ some '-'
  /-- The name ends where a value begins. -/
  no_equals : '=' ∉ name.toList
  /-- The name is one word. -/
  no_blank : ∀ c ∈ name.toList, Text.isBlank c = false

/-- The check for the name of a flag is the rule for it. -/
theorem isFlagName_iff {name : String} : isFlagName name = true ↔ ProperFlagName name := by
  unfold isFlagName
  cases hname : name.toList with
  | nil =>
    have hempty : name = "" := String.toList_eq_nil_iff.mp hname
    exact ⟨fun h => absurd h Bool.false_ne_true, fun h => absurd hempty h.ne_empty⟩
  | cons c rest =>
    have hne : name ≠ "" := by
      rintro rfl
      simp at hname
    simp only [Bool.and_eq_true, List.all_eq_true, bne_iff_ne, ne_eq, Bool.not_eq_true']
    constructor
    · rintro ⟨hdash, hall⟩
      refine ⟨hne, ?_, ?_, ?_⟩
      · simpa [hname] using hdash
      · rw [hname]
        exact fun hmem => (hall _ hmem).1 rfl
      · rw [hname]
        exact fun d hd => (hall d hd).2
    · rintro ⟨-, hdash, hequals, hblank⟩
      rw [hname] at hdash hequals hblank
      refine ⟨by simpa using hdash, fun d hd => ⟨?_, hblank d hd⟩⟩
      rintro rfl
      exact hequals hd

namespace Flag

/-- The flag has the name, be it as the short or as the long one. -/
def IsNamed (flag : Flag) (name : String) : Prop :=
  flag.short = some name ∨ flag.long = some name

/-- The names of a flag behind their dashes. -/
def dashedForms (flag : Flag) : List String :=
  flag.shortForm.toList ++ flag.longForm.toList

/-- The second part of a form is what is typed. -/
theorem map_snd_forms (flag : Flag) : flag.forms.map Prod.snd = flag.dashedForms := by
  obtain ⟨short, long, kind, values⟩ := flag
  cases short <;> cases long <;> rfl

/-- The names of a flag are the first parts of its forms. -/
theorem isNamed_iff {flag : Flag} {name : String} :
    flag.IsNamed name ↔ ∃ form ∈ flag.forms, form.1 = name := by
  obtain ⟨short, long, kind, values⟩ := flag
  cases short <;> cases long <;> simp [IsNamed, forms]

/-- A flag without forms has neither a short nor a long name. -/
theorem forms_eq_nil_iff {flag : Flag} :
    flag.forms = [] ↔ flag.short = none ∧ flag.long = none := by
  obtain ⟨short, long, kind, values⟩ := flag
  cases short <;> cases long <;> simp [forms]

end Flag

/-- What is asked of the flags of one command. -/
structure FlagsFit (flags : List Flag) : Prop where
  /-- Each flag has a short or a long name. -/
  named : ∀ flag ∈ flags, ¬(flag.short = none ∧ flag.long = none)
  /-- Each name that is given may be the name of a flag. -/
  proper : ∀ flag ∈ flags, ∀ name, flag.IsNamed name → ProperFlagName name
  /-- No two names are the same behind their dashes. -/
  apart : (flags.flatMap Flag.dashedForms).Nodup
  /-- Each choice has a value. -/
  offering : ∀ flag ∈ flags, ¬(flag.kind = .choice ∧ flag.values = [])

/-- The fault is one of the flags of a command: one of them is as the fault says, or a form occurs
twice. -/
def Fault.InFlags (flags : List Flag) : Fault → Prop
  | .namelessFlag => ∃ flag ∈ flags, flag.short = none ∧ flag.long = none
  | .badFlagName name => ∃ flag ∈ flags, flag.IsNamed name ∧ ¬ProperFlagName name
  | .duplicateFlag form => 2 ≤ (flags.flatMap Flag.dashedForms).count form
  | .emptyChoice form =>
    ∃ flag ∈ flags, (flag.kind = .choice ∧ flag.values = []) ∧ flag.canonical = form
  | .blankName | .blankAlias _ | .duplicateSubcommand _ | .cycle _ => False

/-- Flags with a fault do not fit. -/
theorem Fault.InFlags.not_fit {fault : Fault} {flags : List Flag} (h : fault.InFlags flags) :
    ¬FlagsFit flags := by
  intro hfit
  cases fault with
  | namelessFlag =>
    obtain ⟨flag, hflag, hnone⟩ := h
    exact hfit.named flag hflag hnone
  | badFlagName name =>
    obtain ⟨flag, hflag, hname, hbad⟩ := h
    exact hbad (hfit.proper flag hflag name hname)
  | duplicateFlag form =>
    have hone := List.nodup_iff_count_le_one.mp hfit.apart form
    have htwo : 2 ≤ (flags.flatMap Flag.dashedForms).count form := h
    omega
  | emptyChoice form =>
    obtain ⟨flag, hflag, hempty, -⟩ := h
    exact hfit.offering flag hflag hempty
  | blankName => exact h
  | blankAlias name => exact h
  | duplicateSubcommand name => exact h
  | cycle path => exact h

/-! ### Passing -/

namespace Flag

/-- A form passes if its name is proper and it has not been seen; then it counts as seen. -/
theorem checkForm_eq_ok_iff {seen seen' : List String} {form : String × String} :
    checkForm seen form = .ok seen' ↔
      ProperFlagName form.1 ∧ form.2 ∉ seen ∧ seen' = form.2 :: seen := by
  rw [← isFlagName_iff, checkForm]
  by_cases hproper : isFlagName form.1 = true
  · by_cases hmem : form.2 ∈ seen
    · simp [hproper, hmem]
    · simp [hproper, hmem, eq_comm]
  · simp [hproper]

/-- Checking a form keeps what is typed for it. -/
theorem keepsKeys_checkForm :
    KeepsKeys checkForm (fun form => [form.2]) (fun form => ProperFlagName form.1) := by
  intro seen seen' form h
  obtain ⟨hproper, hmem, rfl⟩ := checkForm_eq_ok_iff.mp h
  exact ⟨hproper, rfl, fun hnodup => List.nodup_cons.mpr ⟨hmem, hnodup⟩⟩

/-- What is asked of one flag, apart from its forms being new. -/
def Fits (flag : Flag) : Prop :=
  ¬(flag.short = none ∧ flag.long = none) ∧ (∀ name, flag.IsNamed name → ProperFlagName name) ∧
    ¬(flag.kind = .choice ∧ flag.values = [])

/-- The keys of the forms of a flag are its dashed forms. -/
theorem flatMap_singleton_forms (flag : Flag) :
    (flag.forms.flatMap fun form => [form.2]) = flag.dashedForms := by
  rw [← map_snd_forms, List.map_eq_flatMap]

/-- Checking a flag keeps its dashed forms. -/
theorem keepsKeys_check : KeepsKeys (fun seen flag => check seen flag) dashedForms Fits := by
  intro seen seen' flag h
  simp only [check, refuse_eq_ok_iff, bind_eq_ok_iff, pure_eq_ok_iff, List.isEmpty_iff,
    forms_eq_nil_iff] at h
  obtain ⟨hnamed, next, hforms, hchoice, rfl⟩ := h
  obtain ⟨hproper, hseen, hnodup⟩ := keepsKeys_checkForm.foldlM hforms
  rw [flatMap_singleton_forms] at hseen
  refine ⟨⟨hnamed, ?_, hchoice⟩, hseen, hnodup⟩
  intro name hname
  obtain ⟨form, hform, rfl⟩ := isNamed_iff.mp hname
  exact hproper form hform

/-- **Flags that pass the check fit.** -/
theorem fit_of_checkAll {flags : List Flag} (h : checkAll flags = .ok ()) : FlagsFit flags := by
  rw [checkAll, bind_eq_ok_iff] at h
  obtain ⟨seen, hseen, -⟩ := h
  obtain ⟨hall, rfl, hnodup⟩ := keepsKeys_check.foldlM hseen
  refine ⟨fun flag hflag => (hall flag hflag).1, fun flag hflag => (hall flag hflag).2.1, ?_,
    fun flag hflag => (hall flag hflag).2.2⟩
  simpa using hnodup List.nodup_nil

/-! ### Refusing -/

/-- A form is refused for an improper name, and otherwise for having been seen. -/
theorem checkForm_eq_error_iff {seen : List String} {form : String × String} {fault : Fault} :
    checkForm seen form = .error fault ↔
      ¬ProperFlagName form.1 ∧ fault = .badFlagName form.1 ∨
        ProperFlagName form.1 ∧ form.2 ∈ seen ∧ fault = .duplicateFlag form.2 := by
  rw [← isFlagName_iff, checkForm]
  by_cases hproper : isFlagName form.1 = true
  · by_cases hmem : form.2 ∈ seen
    · simp [hproper, hmem, eq_comm]
    · simp [hproper, hmem]
  · simp [hproper, eq_comm]

/-- A flag is refused for a fault of its own, or since one of its forms has occurred before. -/
theorem inFlags_of_check {seen : List String} {flag : Flag} {fault : Fault}
    (h : flag.check seen = .error fault) :
    fault.InFlags [flag] ∨
      ∃ form, fault = .duplicateFlag form ∧ 2 ≤ (seen ++ flag.dashedForms).count form := by
  simp only [check, refuse_eq_error_iff, bind_eq_error_iff, List.isEmpty_iff,
    forms_eq_nil_iff] at h
  rcases h with ⟨hnone, rfl⟩ | ⟨-, hforms | ⟨next, -, ⟨hempty, rfl⟩ | ⟨-, hpure⟩⟩⟩
  · exact .inl ⟨flag, List.mem_singleton_self flag, hnone⟩
  · obtain ⟨before, form, after, reached, hsplit, hbefore, hform⟩ :=
      exists_of_foldlM_eq_error hforms
    obtain ⟨-, rfl, -⟩ := keepsKeys_checkForm.foldlM hbefore
    rcases checkForm_eq_error_iff.mp hform with ⟨hbad, rfl⟩ | ⟨-, hmem, rfl⟩
    · refine .inl ⟨flag, List.mem_singleton_self flag, isNamed_iff.mpr ⟨form, ?_, rfl⟩, hbad⟩
      rw [hsplit]
      exact List.mem_append_right before List.mem_cons_self
    · refine .inr ⟨form.2, rfl, ?_⟩
      have hone := List.count_pos_iff.mpr hmem
      rw [← flatMap_singleton_forms, hsplit]
      simp only [List.count_append, List.flatMap_append, List.flatMap_cons, List.count_reverse,
        List.singleton_append, List.count_cons_self] at hone ⊢
      omega
  · exact .inl ⟨flag, List.mem_singleton_self flag, hempty, rfl⟩
  · exact absurd hpure (by simp [pure, Except.pure])

end Flag

/-- A fault among some of the flags is a fault among all. -/
theorem Fault.InFlags.mono {fault : Fault} {flags all : List Flag} (h : fault.InFlags flags)
    (hsub : flags.Sublist all) : fault.InFlags all := by
  cases fault with
  | namelessFlag =>
    obtain ⟨flag, hflag, hnone⟩ := h
    exact ⟨flag, hsub.subset hflag, hnone⟩
  | badFlagName name =>
    obtain ⟨flag, hflag, hbad⟩ := h
    exact ⟨flag, hsub.subset hflag, hbad⟩
  | emptyChoice form =>
    obtain ⟨flag, hflag, hempty⟩ := h
    exact ⟨flag, hsub.subset hflag, hempty⟩
  | duplicateFlag form => exact Nat.le_trans h ((hsub.flatMap _).count_le form)
  | blankName => exact h
  | blankAlias name => exact h
  | duplicateSubcommand name => exact h
  | cycle path => exact h

/-- **Flags that the check refuses have the fault that it names.** -/
theorem Flag.inFlags_of_checkAll {flags : List Flag} {fault : Fault}
    (h : Flag.checkAll flags = .error fault) : fault.InFlags flags := by
  rw [Flag.checkAll, bind_eq_error_iff] at h
  rcases h with h | ⟨seen, -, hpure⟩
  · obtain ⟨before, flag, after, reached, rfl, hbefore, hflag⟩ := exists_of_foldlM_eq_error h
    obtain ⟨-, rfl, -⟩ := Flag.keepsKeys_check.foldlM hbefore
    rcases Flag.inFlags_of_check hflag with hown | ⟨form, rfl, htwo⟩
    · refine hown.mono (List.singleton_sublist.mpr ?_)
      exact List.mem_append_right before List.mem_cons_self
    · show 2 ≤ ((before ++ flag :: after).flatMap Flag.dashedForms).count form
      simp only [List.append_nil, List.flatMap_append, List.flatMap_cons, List.count_append,
        List.count_reverse] at htwo ⊢
      omega
  · exact absurd hpure (by simp [pure, Except.pure])

end ShellCompletion

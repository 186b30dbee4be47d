import ShellCompletion.Proofs.Script.Bash.Arithmetic
import ShellCompletion.Proofs.Yaml.PlainMapping

/-!
# Reading a mapping of words

What readers answer for plain scalars and for a mapping of them. No alias is followed, so the answer
does not depend on the document around the node (`Decode.Reads`). Truth values and numbers are read
as they are written (`reads_bool`, `reads_natural`), and a field that may be left out is found if
its line is kept (`lookup_fieldsOf_filter`).
-/

namespace ShellCompletion.Yaml.Decode

variable {α β : Type}

/-- The reader answers with `value`, whatever the document, and follows no alias. -/
def Reads (reader : Decode α) (value : α) : Prop :=
  ∀ document followed, reader document followed = some (value, followed)

/-- A value that is at hand is read from nothing. -/
theorem Reads.pure (value : α) : Reads (pure value) value :=
  fun _ _ => rfl

/-- A reader may go on with what another one has read. -/
theorem Reads.bind {reader : Decode α} {next : α → Decode β} {value : α} {result : β}
    (h : Reads reader value) (h' : Reads (next value) result) : Reads (reader >>= next) result := by
  intro document followed
  show (reader document followed).bind (fun answer => next answer.1 document answer.2) = _
  rw [h, Option.bind_some, h']

/-! ### Scalars -/

/-- A plain scalar without properties. -/
def plain (text : String) : Node :=
  .scalar none { text }

/-- A plain scalar is read as its text, with no tag. -/
theorem reads_scalar (text : String) : Reads (scalar (plain text)) { text } :=
  fun _ _ => rfl

/-- A plain scalar is read as its text. -/
theorem reads_text (text : String) : Reads (Decode.text (plain text)) text :=
  fun _ _ => rfl

/-- Both truth values are read from their words. -/
theorem reads_bool (value : Bool) :
    Reads (bool (plain (if value then "true" else "false"))) value := by
  cases value with
  | false => exact fun _ _ => rfl
  | true => exact fun _ _ => rfl

/-- A digit counts its distance from zero. -/
theorem digitValue?_of_isDigit {c : Char} (h : c.isDigit = true) :
    digitValue? 10 c = some (c.toNat - '0'.toNat) := by
  have hvalue := forall_isWordChar
    (fun c => !c.isDigit || digitValue? 10 c == some (c.toNat - '0'.toNat)) (by decide)
    (isWordChar_of_isDigit h)
  simpa [h] using hvalue

/-- Digits read from left to right give the number that they spell. -/
theorem foldlM_digits {cs : List Char} (h : ∀ c ∈ cs, c.isDigit = true) (n : Nat) :
    cs.foldlM (fun n c => (digitValue? 10 c).map (n * 10 + ·)) n =
      some (Nat.ofDigitChars 10 cs n) := by
  induction cs generalizing n with
  | nil => rfl
  | cons c cs ih =>
    rw [List.foldlM_cons, digitValue?_of_isDigit (h c List.mem_cons_self), Nat.ofDigitChars_cons,
      Nat.mul_comm 10 n]
    exact ih (fun d hd => h d (List.mem_cons_of_mem c hd)) _

/-- The digits of a number are read back. -/
theorem digits?_toDigits (n : Nat) : digits? 10 (Nat.toDigits 10 n) = some n := by
  have hall : ∀ c ∈ Nat.toDigits 10 n, c.isDigit = true :=
    fun c hc => Nat.isDigit_of_mem_toDigits (by decide) (by decide) hc
  have hdigits := foldlM_digits hall 0
  rw [Nat.ofDigitChars_ten_toDigits] at hdigits
  obtain ⟨c, cs, hcs⟩ := List.exists_cons_of_ne_nil (@Nat.toDigits_ne_nil n 10)
  rw [hcs] at hdigits ⊢
  exact hdigits

/-- A number that is written in base ten is read as it is. -/
theorem naturalOfText?_toString (n : Nat) : naturalOfText? (toString n) = some n := by
  rw [naturalOfText?, Nat.toString_eq_ofList_toDigits, String.toList_ofList]
  rcases Nat.eq_zero_or_pos n with rfl | hpos
  · rfl
  have hhead := Script.Bash.head?_toDigits_ne_zero hpos
  have hdigits := digits?_toDigits n
  obtain ⟨c, cs, hcs⟩ := List.exists_cons_of_ne_nil (@Nat.toDigits_ne_nil n 10)
  have hdigit : c.isDigit = true :=
    Nat.isDigit_of_mem_toDigits (by decide) (by decide) (hcs ▸ List.mem_cons_self)
  rw [hcs] at hhead hdigits ⊢
  have hplus : ¬(c :: cs).head? = some '+' := by
    rintro hplus
    obtain rfl := Option.some.inj hplus
    exact absurd hdigit (by decide)
  rw [if_neg hplus]
  split
  next heq => exact absurd (congrArg List.head? heq) hhead
  next heq => exact absurd (congrArg List.head? heq) hhead
  next heq => exact absurd (congrArg List.head? heq) hhead
  next heq => exact absurd (congrArg List.head? heq) hhead
  next => exact hdigits

/-- A number below the bound is read back. -/
theorem reads_natural {bound n : Nat} (h : n < bound) :
    Reads (natural bound (plain (toString n))) n := by
  refine (reads_scalar (toString n)).bind ?_
  simp only [naturalOfText?_toString]
  show Reads (if n < bound then Pure.pure n else failure) n
  rw [if_pos h]
  exact .pure n

/-! ### Fields -/

/-- The fields of a mapping of words. -/
def fieldsOf (entries : List Entry) : List (String × Node) :=
  entries.map fun entry => (entry.key, plain entry.value)

/-- The keys of the entries are read as texts, and their values left for later. -/
theorem reads_mapM_nodes (entries : List Entry) :
    Reads ((entries.map Entry.nodes).mapM fun entry => return (← Decode.text entry.1, entry.2))
      (fieldsOf entries) := by
  induction entries with
  | nil =>
    rw [List.map_nil, List.mapM_nil]
    exact .pure _
  | cons entry entries ih =>
    have hentry : Reads (do return (← Decode.text entry.nodes.1, entry.nodes.2))
        (entry.key, plain entry.value) := (reads_text entry.key).bind (Reads.pure _)
    rw [List.map_cons, List.mapM_cons]
    refine hentry.bind ?_
    refine ih.bind ?_
    exact .pure _

/-- All fields of a mapping are taken if their names are among those that are known. -/
theorem reads_fields {names : List String} {entries : List Entry} {levels : Nat}
    (hlevels : levels ≠ 0) (hnodup : (entries.map Entry.key).Nodup)
    (hnames : ∀ entry ∈ entries, entry.key ∈ names) :
    Reads (fields names levels (.mapping none (entries.map Entry.nodes))) (fieldsOf entries) := by
  have hresolve : Reads (resolve (.mapping none (entries.map Entry.nodes)))
      (.mapping none (entries.map Entry.nodes)) := fun _ _ => rfl
  have hknown : (fieldsOf entries).filter (fun field => field.1 ∈ names) = fieldsOf entries := by
    apply List.filter_eq_self.mpr
    intro field hfield
    obtain ⟨entry, hentry, rfl⟩ := List.mem_map.mp hfield
    exact decide_eq_true (hnames entry hentry)
  have hkeys : (fieldsOf entries).map (·.1) = entries.map Entry.key := by
    simp [fieldsOf]
  refine hresolve.bind ?_
  simp only [if_neg hlevels]
  refine (reads_mapM_nodes entries).bind ?_
  simp only [hknown, hkeys, if_pos hnodup]
  exact .pure _

/-- A name is found among the entries that are kept if it is kept itself. -/
theorem lookup_fieldsOf_filter {entries : List Entry} (hnodup : (entries.map Entry.key).Nodup)
    {entry : Entry} (h : entry ∈ entries) (keep : String → Bool) :
    (fieldsOf (entries.filter (keep ·.key))).lookup entry.key =
      if keep entry.key then some (plain entry.value) else none := by
  induction entries with
  | nil => exact absurd h List.not_mem_nil
  | cons first rest ih =>
    obtain ⟨hnot, hrest⟩ := List.nodup_cons.mp hnodup
    rcases List.mem_cons.mp h with rfl | hmem
    · cases hkeep : keep entry.key with
      | true => simp [fieldsOf, hkeep]
      | false =>
        rw [List.filter_cons_of_neg (by simp [hkeep])]
        refine List.lookup_eq_none_iff.mpr fun field hfield => ?_
        obtain ⟨other, hother, rfl⟩ := List.mem_map.mp hfield
        refine bne_iff_ne.mpr fun heq : entry.key = other.key => hnot ?_
        rw [heq]
        exact List.mem_map_of_mem (List.mem_filter.mp hother).1
    · have hne : entry.key ≠ first.key := by
        intro heq
        exact hnot (heq ▸ List.mem_map_of_mem hmem)
      rw [← ih hrest hmem]
      cases hkeep : keep first.key with
      | true => simp [fieldsOf, hkeep, List.lookup_cons, beq_false_of_ne hne]
      | false => simp [hkeep]

/-- A field that is left out has the value for that case. -/
theorem reads_field {fields : List (String × Node)} {name text : String} {kept : Bool}
    {reader : Node → Decode α} {value missing : α}
    (h : fields.lookup name = if kept then some (plain text) else none)
    (hreads : Reads (reader (plain text)) value) :
    Reads (field fields name (some missing) reader) (if kept then value else missing) := by
  unfold field
  rw [h]
  cases kept with
  | false => exact .pure _
  | true => exact hreads

end ShellCompletion.Yaml.Decode

import Mathlib.Data.List.Nodup
import ShellCompletion.Command.Load
import ShellCompletion.Command.Printer
import ShellCompletion.Proofs.Command.Ways
import ShellCompletion.Proofs.FileSystem.Writing
import ShellCompletion.Proofs.Json.ReadBack
import ShellCompletion.Proofs.Text.Joined

/-!
# The text of a command tree

A tree is stored as a JSON object, and a name that is absent or an empty list of values is left out
of it. What is left out on the one side is what the reader takes for granted on the other. The
reader goes only so deep: each command needs two levels, and a flag with values at the lowest
command three more.

* **Depth** (`Command.depth`).
* **Fields** (`fields?_ofMembers`, `field?_optionalText`): a member is found under its key, and what
  is left out is not.
* **Decoding** (`flag?_toJson`, `command?_toJson`), with as many levels as the tree needs.

Main statement: `load_toText`.
-/

namespace ShellCompletion

namespace Command

/-! ### Depth -/

mutual

/-- The number of commands on the longest way down, the first one included. -/
def depth : Command → Nat
  | ⟨_, _, _, subs⟩ => depthAll subs + 1

/-- The number of commands on the longest way down any of the trees. -/
def depthAll : List Command → Nat
  | [] => 0
  | sub :: rest => max sub.depth (depthAll rest)

end

/-- No subcommand is deeper than all of them together. -/
theorem depth_le_depthAll {subs : List Command} {sub : Command} (h : sub ∈ subs) :
    sub.depth ≤ depthAll subs := by
  induction subs with
  | nil => exact absurd h List.not_mem_nil
  | cons first rest ih =>
    rw [depthAll]
    rcases List.mem_cons.mp h with rfl | hrest
    · exact Nat.le_max_left _ _
    · exact Nat.le_trans (ih hrest) (Nat.le_max_right _ _)

/-- The values of a list of commands are those of its entries. -/
theorem toJsonAll_eq_map (subs : List Command) : toJsonAll subs = subs.map toJson := by
  induction subs with
  | nil => rfl
  | cons sub rest ih => rw [toJsonAll, ih, List.map_cons]

end Command

namespace Json

/-! ### Fields -/

/-- An object with some of the named fields, in their order, is taken as it is. -/
theorem fields?_ofMembers {names : List String} {members : List (String × Json)}
    (hnames : names.Nodup) (h : (members.map Prod.fst).Sublist names) :
    (ofMembers members).fields? names = some members := by
  have hkeys : (members.map fun member => (some member.1, member.2)).mapM
      (fun member : Option String × Json => member.1.map fun key => (key, member.2)) =
        some (members.map id) :=
    mapM_map_eq_some fun _ _ => rfl
  have hknown : members.filter (fun member => member.1 ∈ names) = members := by
    apply List.filter_eq_self.mpr
    intro member hmember
    exact decide_eq_true (h.subset (List.mem_map_of_mem hmember))
  rw [ofMembers, fields?, hkeys, List.map_id]
  show (if ((members.filter _).map Prod.fst).Nodup then some (members.filter _) else none) = _
  rw [hknown, if_pos (hnames.sublist h)]

/-- An optional member has its key or is not there. -/
theorem keys_optionalMember_sublist (key : String) (text : Option String) :
    ((optionalMember key text).map Prod.fst).Sublist [key] := by
  cases text with
  | none => exact List.nil_sublist _
  | some text => exact List.Sublist.refl _

/-- What is found under a key that may be left out. -/
theorem lookup_optionalMember_append (key : String) (text : Option String) (name : String)
    (rest : List (String × Json)) :
    (optionalMember key text ++ rest).lookup name =
      if name = key then (text.map ofText).or (rest.lookup name) else rest.lookup name := by
  cases text with
  | none => simp [optionalMember]
  | some text =>
    by_cases h : name = key
    · simp [optionalMember, h]
    · have hne : (name == key) = false := beq_eq_false_iff_ne.mpr h
      simp [optionalMember, h, List.lookup_cons, hne]

/-- A field that is there is read from its value. -/
theorem field?_of_lookup {α : Type} {fields : List (String × Json)} {key : String} {value : Json}
    (h : fields.lookup key = some value) (missing : Option α) (read? : Json → Option α) :
    field? fields key missing read? = read? value := by
  rw [field?, h]

/-- A text that may be absent. -/
theorem field?_optionalText {fields : List (String × Json)} {key : String} {text : Option String}
    (h : fields.lookup key = text.map ofText) :
    field? fields key (some none) optionalText? = some text := by
  unfold field?
  rw [h]
  cases text <;> rfl

/-- An array is read if each of its items is and there is a level for it. -/
theorem list?_map {α : Type} {levels : Nat} {item? : Nat → Json → Option α} {write : α → Json}
    {list : List α} (hlevels : 2 ≤ levels)
    (h : ∀ x ∈ list, item? (levels - 1) (write x) = some x) :
    list? levels item? (.array (list.map write)) = some list := by
  rw [list?, if_neg (by omega), mapM_map_eq_some h, List.map_id']

/-! ### Decoding -/

/-- The word of a kind is read back as the kind. -/
theorem kind?_word (levels : Nat) (kind : ValueKind) :
    kind? levels (ofText kind.word) = some kind :=
  ValueKind.ofWord?_word kind

/-- The values of a flag, which are left out if there are none. -/
def valuesMember (values : List String) : List (String × Json) :=
  if values.isEmpty then [] else [("values", ofTexts values)]

/-- The member for values has its key or is not there. -/
theorem keys_valuesMember_sublist (values : List String) :
    ((valuesMember values).map Prod.fst).Sublist ["values"] := by
  unfold valuesMember
  split
  · exact List.nil_sublist _
  · exact List.Sublist.refl _

/-- Only the key of the values leads to them. -/
theorem lookup_valuesMember_of_ne {name : String} (h : name ≠ "values") (values : List String) :
    (valuesMember values).lookup name = none := by
  have hne : (name == "values") = false := beq_eq_false_iff_ne.mpr h
  unfold valuesMember
  split
  · rfl
  · rw [List.lookup_cons, hne]
    rfl

/-- Values are read back, also if there are none and so no member for them. -/
theorem field?_values {fields : List (String × Json)} {levels : Nat} {values : List String}
    (hlevels : 2 ≤ levels) (h : fields.lookup "values" = (valuesMember values).lookup "values") :
    field? fields "values" (some []) (list? levels fun _ => text?) = some values := by
  unfold field?
  rw [h]
  cases values with
  | nil => rfl
  | cons value rest => exact list?_map hlevels fun _ _ => rfl

/-- A flag is read back with three levels: for itself, for its values, and one that must be left. -/
theorem flag?_toJson {levels : Nat} (hlevels : 3 ≤ levels) (flag : Flag) :
    flag? levels flag.toJson = some flag := by
  obtain ⟨short, long, kind, values⟩ := flag
  let fields := optionalMember "short" short ++ optionalMember "long" long ++
    [("kind", ofText kind.word)] ++ valuesMember values
  have hfields : (ofMembers fields).fields? ["short", "long", "kind", "values"] = some fields := by
    apply fields?_ofMembers (by decide)
    simp only [fields, List.map_append]
    exact (((keys_optionalMember_sublist "short" short).append
      (keys_optionalMember_sublist "long" long)).append (List.Sublist.refl ["kind"])).append
        (keys_valuesMember_sublist values)
  have hshort : fields.lookup "short" = short.map ofText := by
    simp [fields, lookup_optionalMember_append, List.lookup_cons, lookup_valuesMember_of_ne]
  have hlong : fields.lookup "long" = long.map ofText := by
    simp [fields, lookup_optionalMember_append, List.lookup_cons, lookup_valuesMember_of_ne]
  have hkind : fields.lookup "kind" = some (ofText kind.word) := by
    simp [fields, lookup_optionalMember_append]
  have hvalues : fields.lookup "values" = (valuesMember values).lookup "values" := by
    simp [fields, lookup_optionalMember_append, List.lookup_cons]
  have hlist := field?_values (by omega : 2 ≤ levels - 1) hvalues
  show flag? levels (ofMembers fields) = _
  unfold flag?
  rw [if_neg (by omega), hfields]
  simp only [Option.bind_eq_bind, Option.bind_some, field?_optionalText hshort,
    field?_optionalText hlong, field?_of_lookup hkind, kind?_word, hlist]
  rfl

/-- A command is read back if there are levels enough for the tree below it. -/
theorem command?_toJson {levels : Nat} {command : Command}
    (hlevels : 2 * command.depth + 3 ≤ levels) : command? levels command.toJson = some command := by
  induction command using Command.induction generalizing levels with
  | step command ih =>
    obtain ⟨name, short, flags, subs⟩ := command
    have hdepth : 2 * Command.depthAll subs + 5 ≤ levels := by
      rw [Command.depth] at hlevels
      omega
    -- a subcommand stands two levels below: in an array, and in an object of its own
    obtain ⟨lower, rfl⟩ := Nat.exists_eq_add_of_le' (show 2 ≤ levels by omega)
    let fields := [("name", ofText name)] ++ optionalMember "short" short ++
      [("flags", Json.array (flags.map Flag.toJson)),
        ("subcommands", .array (subs.map Command.toJson))]
    have hfields : (ofMembers fields).fields? ["name", "short", "flags", "subcommands"] =
        some fields := by
      apply fields?_ofMembers (by decide)
      simp only [fields, List.map_append]
      exact ((List.Sublist.refl ["name"]).append (keys_optionalMember_sublist "short" short)).append
        (List.Sublist.refl ["flags", "subcommands"])
    have hname : fields.lookup "name" = some (ofText name) := rfl
    have hshort : fields.lookup "short" = short.map ofText := by
      simp [fields, lookup_optionalMember_append, List.lookup_cons]
    have hflags : fields.lookup "flags" = some (.array (flags.map Flag.toJson)) := by
      simp [fields, lookup_optionalMember_append, List.lookup_cons]
    have hsubs : fields.lookup "subcommands" = some (.array (subs.map Command.toJson)) := by
      simp [fields, lookup_optionalMember_append, List.lookup_cons]
    have hflagList : list? (lower + 1) flag? (.array (flags.map Flag.toJson)) = some flags :=
      list?_map (by omega) fun flag _ => flag?_toJson (by omega) flag
    have hsubList : (subs.map Command.toJson).mapM (command? lower) = some (subs.map id) := by
      apply mapM_map_eq_some
      intro sub hsub
      have hlower := Command.depth_le_depthAll hsub
      exact ih sub hsub (by omega)
    have hlower : lower ≠ 0 := by omega
    rw [Command.toJson, Command.toJsonAll_eq_map]
    show command? (lower + 2) (ofMembers fields) = _
    unfold command?
    rw [hfields]
    simp only [Option.bind_eq_bind, Option.bind_some, field?_optionalText hshort,
      field?_of_lookup hname, field?_of_lookup hflags, field?_of_lookup hsubs, hflagList, hlower,
      if_false, hsubList, List.map_id]
    rfl

/-! ### Reading the text -/

/-- The text of an optional member is read back. -/
theorem readsBack_optionalMember (key : String) (text : Option String) :
    ∀ member ∈ optionalMember key text, ReadsBack member.2 := by
  cases text with
  | none => exact List.forall_mem_nil _
  | some text => exact List.forall_mem_singleton.mpr (readsBack_string (some text))

/-- The list of the values is read back. -/
theorem readsBack_valuesMember (values : List String) :
    ∀ member ∈ valuesMember values, ReadsBack member.2 := by
  unfold valuesMember
  split
  · exact List.forall_mem_nil _
  · exact List.forall_mem_singleton.mpr (readsBack_ofTexts values)

/-- The layout of a flag is read back as its value. -/
theorem readsBack_flag (flag : Flag) : ReadsBack flag.toJson := by
  apply readsBack_ofMembers
  rw [List.forall_mem_append, List.forall_mem_append, List.forall_mem_append]
  exact ⟨⟨⟨readsBack_optionalMember "short" flag.short, readsBack_optionalMember "long" flag.long⟩,
    List.forall_mem_singleton.mpr (readsBack_string _)⟩, readsBack_valuesMember flag.values⟩

/-- The layout of a tree is read back as its value. -/
theorem readsBack_command (command : Command) : ReadsBack command.toJson := by
  induction command using Command.induction with
  | step command ih =>
    obtain ⟨name, short, flags, subs⟩ := command
    have hflags : ReadsBack (.array (flags.map Flag.toJson)) := by
      apply readsBack_array
      intro item hitem
      obtain ⟨flag, -, rfl⟩ := List.mem_map.mp hitem
      exact readsBack_flag flag
    have hsubs : ReadsBack (.array (subs.map Command.toJson)) := by
      apply readsBack_array
      intro item hitem
      obtain ⟨sub, hsub, rfl⟩ := List.mem_map.mp hitem
      exact ih sub hsub
    rw [Command.toJson, Command.toJsonAll_eq_map]
    apply readsBack_ofMembers
    rw [List.forall_mem_append, List.forall_mem_append]
    refine ⟨⟨List.forall_mem_singleton.mpr (readsBack_string (some name)),
      readsBack_optionalMember "short" short⟩, ?_⟩
    exact List.forall_mem_cons.mpr ⟨hflags, List.forall_mem_singleton.mpr hsubs⟩

end Json

/-! ### Loading -/

namespace Command

/-- The text of a tree gives the tree back, unless it is too deep for the reader. -/
theorem ofJsonText?_toText {tree : Command} (hdepth : tree.depth ≤ 62) :
    ofJsonText? tree.toText = some tree := by
  unfold ofJsonText? toText
  rw [Json.read?_compact (Json.readsBack_command tree)]
  exact Json.command?_toJson (by rw [Json.maxLevels]; omega)

/-- Different trees have different texts. -/
theorem toText_injective : Function.Injective toText := by
  intro tree other htext
  have htree := Json.read?_compact (Json.readsBack_command tree)
  have hother := Json.read?_compact (Json.readsBack_command other)
  have hvalue : tree.toJson = other.toJson := by
    unfold toText at htext
    rw [htext, hother] at htree
    exact (Option.some.inj htree).symm
  -- Enough levels for both.
  have hlevels : 2 * tree.depth + 3 ≤ 2 * (tree.depth + other.depth) + 3 := by omega
  have hread := Json.command?_toJson hlevels
  rw [hvalue, Json.command?_toJson (by omega)] at hread
  exact (Option.some.inj hread).symm

/-- **A tree is loaded as it was stored.** If a file holds the text of a tree and its extension is
not one of YAML, that tree is loaded from it, and no other tree has this text. The reader goes deep
enough for sixty-two commands one below the other. -/
theorem load_toText {fs : FileSystem} {path : String} {tree : Command}
    (hfile : fs.read (pathBytes path) = .ok tree.toText.toUTF8)
    (hformat : TreeFormat.ofPath path ≠ .yaml) (hdepth : tree.depth ≤ 62) :
    (load path : StateM FileSystem (Except LoadError Command)) fs = (.ok tree, fs) ∧
      ∀ other : Command, other.toText = tree.toText → other = tree := by
  refine ⟨?_, fun other hother => toText_injective hother⟩
  have hjson : TreeFormat.ofPath path = .json := by
    cases hpath : TreeFormat.ofPath path with
    | json => rfl
    | yaml => exact absurd hpath hformat
  have hread := FileSystem.readText_of_read hfile
  rw [load, FileSystem.bind_apply, hread]
  show (pure (ofText (.ofPath path) tree.toText) : StateM FileSystem _) fs = _
  rw [hjson, ofText, ofJsonText?_toText hdepth]
  rfl

/-- A switch with values and an empty name, and texts that need escapes, in a file with no
extension. -/
theorem load_toText_escapes :
    let force : Flag := { short := some "", values := ["\"yes\"", "\x01"] }
    let sub : Command := { name := "a\\b\n", short := some "\t", flags := [force, {}] }
    let tree : Command := { name := "é𝄞", flags := [{ long := some "/" }], subcommands := [sub] }
    let fs : FileSystem := { entries := [([pathBytes "tree"], .file tree.toText.toUTF8)] }
    fs.read (pathBytes "tree") = .ok tree.toText.toUTF8 ∧
      TreeFormat.ofPath "tree" ≠ .yaml ∧ tree.depth ≤ 62 ∧
      (load "tree" : StateM FileSystem (Except LoadError Command)) fs = (.ok tree, fs) := by
  intro force sub tree fs
  have hpath : pathBytes "tree" = [116, 114, 101, 101] := by decide +kernel
  have hthere : fs.node? [pathBytes "tree"] = some (.file tree.toText.toUTF8) := by
    rw [FileSystem.node?, if_neg (by simp)]
    exact List.lookup_cons_self
  have hfile : fs.read (pathBytes "tree") = .ok tree.toText.toUTF8 := by
    rw [hpath] at hthere ⊢
    exact FileSystem.read_of_locate (FileSystem.locate_single rfl rfl (by decide) (by decide)
      (by decide) rfl hthere)
  have hformat : TreeFormat.ofPath "tree" ≠ .yaml := by decide
  have hdepth : tree.depth ≤ 62 := by decide
  exact ⟨hfile, hformat, hdepth, (load_toText hfile hformat hdepth).1⟩

end Command

end ShellCompletion

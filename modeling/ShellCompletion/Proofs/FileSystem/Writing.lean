import Mathlib.Data.List.Basic
import Mathlib.Order.Defs.Unbundled
import ShellCompletion.FileSystem.Access

/-!
# What a written file changes

A path leads to a place by way of directories and links. A file that is put at that place is none of
these, so afterwards the path leads there all the same and finds the new file; and no other place
has changed.

* **One place** (`node?_put`): what is at all others is as before.
* **The way** (`follow_put`), by induction along the steps of the path.
* **Writing and reading** (`exists_of_write`): the new bytes are read back (`read_of_locate`).
* **Directories that are made** (`keepsFiles_makeDirectories`) leave all files as they are.
-/

namespace ShellCompletion

namespace FileSystem

/-- The place that a path leads to. -/
def Destination.place : Destination → List FileName
  | found place _ => place
  | missing directory name => directory ++ [name]

/-- What a path finds at its place. -/
def Destination.node? : Destination → Option Node
  | found _ node => some node
  | missing _ _ => none

variable {fs : FileSystem} {place other : List FileName} {node : Node}

/-! ### One place -/

/-- Anything but the root is looked up among the entries. -/
theorem node?_of_ne_nil (h : place ≠ []) : fs.node? place = fs.entries.lookup place :=
  if_neg h

/-- Putting a node over an entry is seen at that entry's place alone. -/
theorem lookup_map_put (entries : List (List FileName × Node)) (place other : List FileName)
    (node : Node) :
    (entries.map fun entry => if entry.1 = place then (place, node) else entry).lookup other =
      if other = place ∧ (entries.lookup place).isSome then some node
      else entries.lookup other := by
  induction entries with
  | nil => simp
  | cons entry rest ih =>
    obtain ⟨key, old⟩ := entry
    rw [List.map_cons]
    by_cases hkey : key = place
    · subst hkey
      by_cases hother : other = key
      · subst hother
        simp
      · have hbeq : (other == key) = false := beq_false_of_ne hother
        simp only [if_true, List.lookup_cons, hbeq, ih, hother, false_and, if_false]
    · have hbeq : (place == key) = false := beq_false_of_ne (Ne.symm hkey)
      simp only [if_neg hkey, List.lookup_cons, ih, hbeq]
      by_cases hother : other = key
      · subst hother
        simp [hkey]
      · simp [beq_false_of_ne hother]

/-- A node that is put at a place is there, and all other places are as they were. -/
theorem node?_put (h : place ≠ []) (other : List FileName) :
    (fs.put place node).node? other = if other = place then some node else fs.node? other := by
  by_cases hroot : other = []
  · subst hroot
    rw [if_neg (Ne.symm h)]
    rfl
  rw [node?_of_ne_nil hroot, node?_of_ne_nil hroot, put]
  cases hplace : fs.entries.lookup place with
  | some old =>
    dsimp only
    rw [lookup_map_put, hplace]
    simp
  | none =>
    dsimp only
    rw [List.lookup_append]
    by_cases hother : other = place
    · subst hother
      simp [hplace]
    · simp [hother, List.lookup_cons, beq_false_of_ne hother]

/-- A node that is put at a place is there. -/
theorem node?_put_self (h : place ≠ []) : (fs.put place node).node? place = some node := by
  rw [node?_put h, if_pos rfl]

/-- At other places all is as before. -/
theorem node?_put_of_ne (h : place ≠ []) (hother : other ≠ place) :
    (fs.put place node).node? other = fs.node? other := by
  rw [node?_put h, if_neg hother]

/-! ### The way to a place -/

/-- What a path finds at its place is what is there. -/
theorem node?_of_follow {links : Nat} {steps : List FileName} {destination : Destination}
    (h : fs.follow links place steps = .ok destination) :
    fs.node? destination.place = destination.node? := by
  fun_induction follow fs links place steps with
  | case1 links place node hnode =>
    obtain rfl := Except.ok.inj h
    exact hnode
  | case4 links place rest hplace ih => exact ih h
  | case5 links place rest hplace hdot ih => exact ih h
  | case7 links place name hplace hdot hdotDot hlong hnone =>
    obtain rfl := Except.ok.inj h
    exact hnone
  | case10 place name rest hplace hdot hdotDot hlong target hlink links ih => exact ih h
  | case11 links place name rest hplace hdot hdotDot hlong node hlink hnode ih => exact ih h
  | _ => exact absurd h (by simp)

/-- A place that a file can be written to: nothing is there, or a file. -/
def TakesFile (fs : FileSystem) (place : List FileName) : Prop :=
  fs.node? place = none ∨ ∃ bytes, fs.node? place = some (.file bytes)

/-- A place with a directory or a link differs from one that takes a file. -/
theorem TakesFile.ne_of_node? (h : fs.TakesFile place) (hnode : fs.node? other = some node)
    (hfile : ∀ bytes, node ≠ .file bytes) : other ≠ place := by
  rintro rfl
  rcases h with hnone | ⟨bytes, hbytes⟩
  · exact absurd (hnode.symm.trans hnone) (by simp)
  · exact hfile bytes (Option.some.inj (hnode.symm.trans hbytes))

/-- The root takes no file. -/
theorem TakesFile.ne_nil (h : fs.TakesFile place) : place ≠ [] := by
  have hroot : fs.node? [] = some .directory := rfl
  exact (h.ne_of_node? hroot (by simp)).symm

/-- A path leads to a file that has been put where it led before. -/
theorem follow_put {links : Nat} {start steps : List FileName} {destination : Destination}
    {place : List FileName} (bytes : ByteArray)
    (h : fs.follow links start steps = .ok destination) (hplace : destination.place = place)
    (htakes : fs.TakesFile place) :
    (fs.put place (.file bytes)).follow links start steps = .ok (.found place (.file bytes)) := by
  -- directories and links on the way are not touched
  have hkept : ∀ {other node}, fs.node? other = some node → (∀ bytes, node ≠ .file bytes) →
      (fs.put place (.file bytes)).node? other = some node := by
    intro other node hnode hfile
    rw [node?_put_of_ne htakes.ne_nil (htakes.ne_of_node? hnode hfile), hnode]
  have hself : (fs.put place (.file bytes)).node? place = some (.file bytes) :=
    node?_put_self htakes.ne_nil
  fun_induction follow fs links start steps with
  | case1 links start node hnode =>
    obtain rfl := Except.ok.inj h
    obtain rfl : start = place := hplace
    rw [follow, hself]
  | case4 links start rest hdir ih =>
    rw [follow, hkept hdir (by simp)]
    simp only [if_true]
    exact ih h
  | case5 links start rest hdir hdot ih =>
    rw [follow, hkept hdir (by simp)]
    simp only [if_neg hdot, if_true]
    exact ih h
  | case7 links start name hdir hdot hdotDot hlong hnone =>
    obtain rfl := Except.ok.inj h
    obtain rfl : start ++ [name] = place := hplace
    rw [follow, hkept hdir (by simp)]
    simp only [if_neg hdot, if_neg hdotDot, if_neg hlong, hself]
    rw [follow, hself]
  | case10 start name rest hdir hdot hdotDot hlong target hlink links ih =>
    rw [follow, hkept hdir (by simp)]
    simp only [if_neg hdot, if_neg hdotDot, if_neg hlong, hkept hlink (by simp)]
    exact ih h
  | case11 links start name rest hdir hdot hdotDot hlong node hlink hnode ih =>
    rw [follow, hkept hdir (by simp)]
    simp only [if_neg hdot, if_neg hdotDot, if_neg hlong]
    by_cases hnext : start ++ [name] = place
    · have hgo := ih h
      rw [hnext] at hgo
      rw [hnext, hself]
      exact hgo
    · rw [node?_put_of_ne htakes.ne_nil hnext, hnode]
      cases node with
      | link target => exact absurd rfl (hlink target)
      | file old => exact ih h
      | directory => exact ih h
  | _ => exact absurd h (by simp)

/-! ### Writing and reading -/

variable {fs' : FileSystem} {path : List UInt8} {bytes : ByteArray}

/-- A path that leads somewhere is one that the system takes, and its steps lead there. -/
theorem exists_of_locate {destination : Destination} (h : fs.locate path = .ok destination) :
    checkPath path = .ok () ∧
      fs.follow maxLinks (fs.startOf path) (stepsOf path) = .ok destination := by
  unfold locate at h
  cases hcheck : checkPath path with
  | error cause =>
    rw [hcheck] at h
    exact absurd h (by simp [bind, Except.bind])
  | ok _ =>
    rw [hcheck] at h
    exact ⟨rfl, h⟩

/-- A path of one step leads to the file of that name in the directory that it is followed from. -/
theorem locate_single {name : FileName} (hcheck : checkPath path = .ok ())
    (hsteps : stepsOf path = [name]) (hdot : name ≠ dot) (hdotDot : name ≠ dotDot)
    (hlong : name.length ≤ maxNameLength) (hdir : fs.node? (fs.startOf path) = some .directory)
    (hfile : fs.node? (fs.startOf path ++ [name]) = some (.file bytes)) :
    fs.locate path = .ok (.found (fs.startOf path ++ [name]) (.file bytes)) := by
  unfold locate
  rw [hcheck, hsteps]
  show fs.follow maxLinks (fs.startOf path) [name] = _
  rw [follow, hdir]
  simp only [if_neg hdot, if_neg hdotDot, if_neg (Nat.not_lt.mpr hlong), hfile]
  rw [follow, hfile]

/-- What is put somewhere moves neither the root nor the working directory. -/
theorem startOf_put (fs : FileSystem) (place : List FileName) (node : Node) (path : List UInt8) :
    (fs.put place node).startOf path = fs.startOf path := by
  unfold put
  split
  · rfl
  · rfl

/-- A path leads to a file that has been put where it led before. -/
theorem locate_put {destination : Destination} (bytes : ByteArray)
    (h : fs.locate path = .ok destination) (htakes : fs.TakesFile destination.place) :
    (fs.put destination.place (.file bytes)).locate path =
      .ok (.found destination.place (.file bytes)) := by
  obtain ⟨hcheck, hfollow⟩ := exists_of_locate h
  unfold locate
  rw [hcheck, startOf_put]
  exact follow_put bytes hfollow rfl htakes

/-- A path that ends with a slash is not written to. -/
theorem endsInSlash_of_write (h : fs.write path bytes = .ok fs') : endsInSlash path = false := by
  unfold write at h
  cases hslash : endsInSlash path with
  | false => rfl
  | true =>
    rw [hslash] at h
    cases hparent : fs.locateParent path <;> simp [hparent, bind, Except.bind, throw,
      throwThe, MonadExceptOf.throw] at h

/-- A file is written to the place that its path leads to. -/
theorem exists_of_write (h : fs.write path bytes = .ok fs') :
    ∃ destination, fs.locate path = .ok destination ∧ fs.TakesFile destination.place ∧
      fs' = fs.put destination.place (.file bytes) := by
  have hslash := endsInSlash_of_write h
  unfold write at h
  rw [hslash] at h
  cases hlocate : fs.locate path with
  | error cause => simp [hlocate, bind, Except.bind] at h
  | ok destination =>
    have hnode := node?_of_follow (exists_of_locate hlocate).2
    refine ⟨destination, rfl, ?_⟩
    cases destination with
    | missing directory name =>
      refine ⟨.inl hnode, ?_⟩
      rw [hlocate] at h
      exact (Except.ok.inj h).symm
    | found place node =>
      cases node with
      | file old =>
        refine ⟨.inr ⟨old, hnode⟩, ?_⟩
        rw [hlocate] at h
        exact (Except.ok.inj h).symm
      | directory =>
        simp [hlocate, bind, Except.bind, throw, throwThe, MonadExceptOf.throw] at h
      | link target =>
        simp [hlocate, bind, Except.bind, throw, throwThe, MonadExceptOf.throw] at h

/-- A path to a place that takes a file can be written to, unless it ends with a slash. -/
theorem write_of_locate {destination : Destination} (hslash : endsInSlash path = false)
    (h : fs.locate path = .ok destination) (htakes : fs.TakesFile destination.place)
    (bytes : ByteArray) :
    fs.write path bytes = .ok (fs.put destination.place (.file bytes)) := by
  have hnode := node?_of_follow (exists_of_locate h).2
  unfold write
  rw [hslash, h]
  cases destination with
  | missing directory name => rfl
  | found place node =>
    cases node with
    | file old => rfl
    | directory => exact absurd rfl (htakes.ne_of_node? hnode (by simp))
    | link target => exact absurd rfl (htakes.ne_of_node? hnode (by simp))

/-- Whether a file can be written does not depend on what is written. -/
theorem exists_write_of_write (h : fs.write path bytes = .ok fs') (bytes' : ByteArray) :
    ∃ fs'', fs.write path bytes' = .ok fs'' := by
  obtain ⟨destination, hlocate, htakes, -⟩ := exists_of_write h
  exact ⟨_, write_of_locate (endsInSlash_of_write h) hlocate htakes bytes'⟩

/-- A path that leads to a file is read as its bytes. -/
theorem read_of_locate (h : fs.locate path = .ok (.found place (.file bytes))) :
    fs.read path = .ok bytes := by
  unfold read
  rw [h]
  rfl

/-- What is written is read back. -/
theorem read_of_write (h : fs.write path bytes = .ok fs') : fs'.read path = .ok bytes := by
  obtain ⟨destination, hlocate, htakes, rfl⟩ := exists_of_write h
  exact read_of_locate (locate_put bytes hlocate htakes)

/-! ### Runs -/

/-- The second step of a run takes what the first leaves. -/
theorem bind_apply {α β : Type} (first : StateM FileSystem α) (next : α → StateM FileSystem β)
    (fs : FileSystem) : (first >>= next) fs = next (first fs).1 (first fs).2 :=
  rfl

/-- An operation that succeeds. -/
theorem change_of_ok {operation : FileSystem → Except FileError FileSystem}
    (h : operation fs = .ok fs') : change operation fs = (.ok (), fs') := by
  unfold change
  rw [h]

/-- An operation that fails. -/
theorem change_of_error {operation : FileSystem → Except FileError FileSystem} {cause : FileError}
    (h : operation fs = .error cause) : change operation fs = (.error cause, fs) := by
  unfold change
  rw [h]

/-- A change that is made is one that the operation makes. -/
theorem ok_of_change {operation : FileSystem → Except FileError FileSystem}
    (h : change operation fs = (.ok (), fs')) : operation fs = .ok fs' := by
  cases hoperation : operation fs with
  | error cause =>
    rw [change_of_error hoperation] at h
    exact absurd (congrArg Prod.fst h) (by simp)
  | ok changed =>
    rw [change_of_ok hoperation] at h
    exact congrArg Except.ok (congrArg Prod.snd h)

/-- A file that holds the bytes of a text is read as that text. -/
theorem readText_of_read {path text : String} (h : fs.read (pathBytes path) = .ok text.toUTF8) :
    (FileAccess.readText path : StateM FileSystem (Except FileError String)) fs =
      (.ok text, fs) := by
  have hread : (FileAccess.read path : StateM FileSystem _) fs = (.ok text.toUTF8, fs) :=
    congrArg (·, fs) h
  have hutf8 : String.fromUTF8? text.toUTF8 = some text := dif_pos text.isValidUTF8
  rw [FileAccess.readText, bind_apply, hread]
  dsimp only
  rw [hutf8]
  rfl

/-! ### Files that stay as they are -/

/-- Both file systems have the same files, save perhaps at one place. -/
def SameFilesBut (place : List FileName) (fs fs' : FileSystem) : Prop :=
  ∀ other, other ≠ place → ∀ bytes,
    fs'.node? other = some (.file bytes) ↔ fs.node? other = some (.file bytes)

/-- Both file systems have the same files. -/
def SameFiles (fs fs' : FileSystem) : Prop :=
  ∀ place bytes, fs'.node? place = some (.file bytes) ↔ fs.node? place = some (.file bytes)

/-- What is put at a place changes no file elsewhere. -/
theorem sameFilesBut_put (h : place ≠ []) (node : Node) :
    SameFilesBut place fs (fs.put place node) := by
  intro other hother bytes
  rw [node?_put_of_ne h hother]

/-- A change at one place may follow one that leaves all files as they are. -/
theorem SameFiles.trans_but {fs₁ fs₂ fs₃ : FileSystem} (h : SameFiles fs₁ fs₂)
    (h' : SameFilesBut place fs₂ fs₃) : SameFilesBut place fs₁ fs₃ := by
  intro other hother bytes
  rw [h' other hother, h]

/-- Two changes at the same place are a change at that place. -/
theorem SameFilesBut.trans {fs₁ fs₂ fs₃ : FileSystem} (h : SameFilesBut place fs₁ fs₂)
    (h' : SameFilesBut place fs₂ fs₃) : SameFilesBut place fs₁ fs₃ := by
  intro other hother bytes
  rw [h' other hother, h other hother]

/-- A node under a new name takes the place of no file. -/
theorem sameFiles_of_create (h : fs.create path .directory = .ok fs') : SameFiles fs fs' := by
  unfold create at h
  cases hparent : fs.locateParent path with
  | error cause => simp [hparent, bind, Except.bind] at h
  | ok parent =>
    obtain ⟨directory, name⟩ := parent
    simp only [hparent, bind, Except.bind] at h
    split at h
    · exact absurd h (by simp [throw, throwThe, MonadExceptOf.throw])
    · cases hnode : fs.node? (directory ++ [name]) with
      | some node =>
        simp [hnode, throw, throwThe, MonadExceptOf.throw] at h
      | none =>
        simp only [hnode, pure, Except.pure, Except.ok.injEq] at h
        subst h
        have hne : directory ++ [name] ≠ [] := by simp
        intro place bytes
        rw [node?_put hne]
        split
        next heq => simp [heq, hnode]
        next => rfl

instance : IsPreorder FileSystem SameFiles where
  refl _ _ _ := Iff.rfl
  trans _ _ _ h h' place bytes := (h' place bytes).trans (h place bytes)

/-- Whatever the run of `x` begins with, it is related to what the run leaves. -/
def Keeps (r : FileSystem → FileSystem → Prop) {α : Type} (x : StateM FileSystem α) : Prop :=
  ∀ fs, r fs (x fs).2

section Keeps

variable {r : FileSystem → FileSystem → Prop} [IsPreorder FileSystem r] {α β : Type}

/-- A run that does nothing keeps what it began with. -/
theorem Keeps.pure (value : α) : Keeps r (pure value : StateM FileSystem α) :=
  fun fs => refl_of r fs

/-- Runs that keep a relation can be put one after the other. -/
theorem Keeps.bind {first : StateM FileSystem α} {next : α → StateM FileSystem β}
    (h : Keeps r first) (h' : ∀ value, Keeps r (next value)) : Keeps r (first >>= next) :=
  fun fs => trans_of r (h fs) (h' (first fs).1 (first fs).2)

end Keeps

/-- Making a directory changes no file. -/
theorem keepsFiles_makeDirectory (path : String) :
    Keeps SameFiles (FileAccess.makeDirectory path : StateM FileSystem _) := by
  intro fs
  show SameFiles fs (change (·.create (pathBytes path) .directory) fs).2
  cases hcreate : fs.create (pathBytes path) .directory with
  | error cause =>
    rw [change_of_error hcreate]
    exact refl_of SameFiles fs
  | ok fs' =>
    rw [change_of_ok hcreate]
    exact sameFiles_of_create hcreate

/-- Asking for a directory changes no file, whether it is there or not. -/
theorem keepsFiles_ensureDirectory (path : String) :
    Keeps SameFiles (FileAccess.ensureDirectory path : StateM FileSystem _) := by
  refine (keepsFiles_makeDirectory path).bind fun answer => ?_
  split
  · refine Keeps.bind (fun fs => refl_of SameFiles fs) fun isThere => ?_
    split
    · exact .pure _
    · exact .pure _
  · exact .pure _

/-- Looking upwards for a directory that is there changes no file. -/
theorem keepsFiles_climb (paths : List String) :
    Keeps SameFiles (FileAccess.climb paths : StateM FileSystem _) := by
  induction paths with
  | nil => exact .pure _
  | cons path above ih =>
    refine (keepsFiles_ensureDirectory path).bind fun answer => ?_
    split
    · exact .pure _
    · exact ih.bind fun _ => .pure _
    · exact .pure _

/-- Directories made one after the other change no file. -/
theorem keepsFiles_ensureAll (paths : List String) :
    Keeps SameFiles (FileAccess.ensureAll paths : StateM FileSystem _) := by
  induction paths with
  | nil => exact .pure _
  | cons path rest ih =>
    refine (keepsFiles_ensureDirectory path).bind fun answer => ?_
    split
    · exact ih
    · exact .pure _

/-- Directories are made without a change to any file. -/
theorem keepsFiles_makeDirectories (path : String) :
    Keeps SameFiles (FileAccess.makeDirectories path : StateM FileSystem _) := by
  refine (keepsFiles_climb (Path.ancestors path)).bind fun answer => ?_
  split
  · exact .pure _
  · exact keepsFiles_ensureAll _

end FileSystem

end ShellCompletion

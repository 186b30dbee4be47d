import ShellCompletion.Proofs.Matching.Session
import ShellCompletion.Proofs.Text.ByteOrder

/-!
# Which paths are offered

A word that stands for a path is cut behind its last slash. What is offered is put together from the
two parts and what the directory holds, and sorted after that: the order is about whole paths, with
the slash that marks a directory.

* **The cut** (`IsCut`, `isCut_pathParts`): every word has one.
* **Directories** (`Snapshot`): the names are bytes, no two the same and none with a slash. Only
  those that are texts are listed (`Snapshot.mem_texts_iff`).
* **No path twice** (`path_injective`): as no name holds a slash, the slash at the end shows where a
  name ends, so different entries are offered as different paths (`nodup_offered`).

Main statement: `pathsFor_exact`, for every word and any surroundings that list directories.
-/

namespace ShellCompletion

/-! ### The cut -/

/-- The word is cut behind its last slash. -/
structure IsCut (word part typed : String) : Prop where
  /-- The two parts are the word. -/
  append_eq : part ++ typed = word
  /-- No slash follows. -/
  slash_free : '/' ∉ typed.toList
  /-- The first part is empty or ends with a slash. -/
  part_ends : part = "" ∨ ∃ front, part = front ++ "/"

/-- A word is cut behind its last slash. -/
theorem isCut_pathParts (word : String) : IsCut word (pathParts word).1 (pathParts word).2 := by
  have happend := Text.cutAfterLast_append '/' word.toList
  have hends := Text.cutAfterLast_ends '/' word.toList
  refine ⟨?_, ?_, ?_⟩ <;> dsimp only [pathParts]
  · rw [← String.ofList_append, happend, String.ofList_toList]
  · rw [String.toList_ofList]
    exact Text.not_mem_cutAfterLast '/' word.toList
  · rcases hends with hnil | ⟨front, hfront⟩
    · exact .inl (by rw [hnil])
    · exact .inr ⟨String.ofList front, by rw [hfront, String.ofList_append]⟩

/-! ### Directories -/

/-- What a directory holds: names, and for each the answer whether it leads to a directory. -/
structure Snapshot where
  /-- The names with their answers, in the order in which the system tells them. -/
  entries : List (FileName × Bool)
  /-- No name is there twice. -/
  nodup_names : (entries.map Prod.fst).Nodup
  /-- No name holds a slash. -/
  slash_free : ∀ entry ∈ entries, FileSystem.slash ∉ entry.1

/-- The entries whose names are texts. -/
def Snapshot.texts (snapshot : Snapshot) : List DirectoryEntry :=
  snapshot.entries.filterMap fun (name, isDirectory) =>
    (String.fromUTF8? ⟨name.toArray⟩).map fun name => { name, isDirectory }

/-- Bytes are read as the text of which they are the bytes. -/
theorem Text.fromUTF8?_eq_some_iff {name : FileName} {text : String} :
    String.fromUTF8? ⟨name.toArray⟩ = some text ↔ Text.bytes text = name := by
  constructor
  · intro h
    obtain ⟨hvalid, hread⟩ := Option.dite_none_right_eq_some.mp h
    rw [← Option.some.inj hread]
    rfl
  · rintro rfl
    exact dif_pos text.isValidUTF8

/-- A text with a slash has the byte of a slash. -/
theorem Text.slash_mem_bytes {text : String} (h : '/' ∈ text.toList) :
    FileSystem.slash ∈ Text.bytes text := by
  rw [Text.bytes_eq_flatMap]
  exact List.mem_flatMap.mpr ⟨'/', h, by decide⟩

namespace Snapshot

variable (snapshot : Snapshot)

/-- The entries whose names are texts are those of the snapshot with these bytes. -/
theorem mem_texts_iff {entry : DirectoryEntry} :
    entry ∈ snapshot.texts ↔ (Text.bytes entry.name, entry.isDirectory) ∈ snapshot.entries := by
  rw [texts, List.mem_filterMap]
  constructor
  · rintro ⟨⟨name, isDirectory⟩, hmem, hread⟩
    obtain ⟨text, htext, rfl⟩ := Option.map_eq_some_iff.mp hread
    rwa [Text.fromUTF8?_eq_some_iff.mp htext]
  · intro hmem
    refine ⟨_, hmem, Option.map_eq_some_iff.mpr ⟨entry.name, ?_, rfl⟩⟩
    exact Text.fromUTF8?_eq_some_iff.mpr rfl

/-- No name of an entry has a slash in it. -/
theorem slash_not_mem {entry : DirectoryEntry} (h : entry ∈ snapshot.texts) :
    '/' ∉ entry.name.toList := fun hslash =>
  snapshot.slash_free _ ((snapshot.mem_texts_iff).mp h) (Text.slash_mem_bytes hslash)

/-- No two entries have the same name. -/
theorem pairwise_texts : snapshot.texts.Pairwise fun a b => a.name ≠ b.name := by
  have hnames : snapshot.entries.Pairwise fun a b => a.1 ≠ b.1 :=
    List.pairwise_map.mp snapshot.nodup_names
  refine List.pairwise_filterMap.mpr (hnames.imp fun hne a ha b hb hsame => hne ?_)
  obtain ⟨text, htext, rfl⟩ := Option.map_eq_some_iff.mp ha
  obtain ⟨text', htext', rfl⟩ := Option.map_eq_some_iff.mp hb
  obtain rfl : text = text' := hsame
  rw [← Text.fromUTF8?_eq_some_iff.mp htext, Text.fromUTF8?_eq_some_iff.mp htext']

end Snapshot

/-! ### Paths -/

/-- The entry as a path behind the first part of the word. -/
def DirectoryEntry.path (part : String) (entry : DirectoryEntry) : String :=
  part ++ entry.name ++ if entry.isDirectory then "/" else ""

/-- The entry is offered for the second part of the word. -/
def DirectoryEntry.IsOffered (typed : String) (entry : DirectoryEntry) : Prop :=
  typed.toList <+: entry.name.toList ∧
    (entry.name.toList.head? = some '.' → typed.toList.head? = some '.')

/-- A name is hidden if it begins with a dot. -/
theorem isHidden_iff {name : String} : isHidden name = true ↔ name.toList.head? = some '.' := by
  rw [isHidden, Text.startsWith_iff]
  cases name.toList with
  | nil => simp
  | cons c rest => simp [List.cons_prefix_cons, eq_comm]

/-- An entry is listed under its path if it is to be offered, and not at all otherwise. -/
theorem offered?_eq_some_iff {part typed path : String} {entry : DirectoryEntry} :
    offered? part typed entry = some path ↔ entry.IsOffered typed ∧ entry.path part = path := by
  have hoffered : (Text.startsWith entry.name typed &&
      (!isHidden entry.name || isHidden typed)) = true ↔ entry.IsOffered typed := by
    rw [DirectoryEntry.IsOffered, ← isHidden_iff, ← isHidden_iff, ← Text.startsWith_iff,
      Bool.and_eq_true, Bool.or_eq_true, Bool.not_eq_true', ← Bool.not_eq_true,
      ← Decidable.imp_iff_not_or]
  rw [offered?, Option.ite_none_right_eq_some, hoffered, Option.some_inj]
  rfl

/-- The name of an entry is what stands before the first slash of its path, behind the first part of
the word. -/
theorem takeWhile_path {entry : DirectoryEntry} (h : '/' ∉ entry.name.toList) :
    (entry.name ++ if entry.isDirectory then "/" else "").toList.takeWhile (· ≠ '/') =
      entry.name.toList := by
  have hname : ∀ c ∈ entry.name.toList, decide (c ≠ '/') = true :=
    fun c hc => decide_eq_true fun heq => h (heq ▸ hc)
  rw [String.toList_append, List.takeWhile_append_of_pos hname]
  cases entry.isDirectory with
  | true => exact List.append_nil _
  | false => exact List.append_nil _

/-- Different names make different paths, with or without a slash behind them. -/
theorem path_injective {part : String} {entry other : DirectoryEntry}
    (h : '/' ∉ entry.name.toList) (h' : '/' ∉ other.name.toList)
    (hpath : entry.path part = other.path part) : entry.name = other.name := by
  rw [DirectoryEntry.path, DirectoryEntry.path, String.append_assoc, String.append_assoc,
    String.append_right_inj] at hpath
  refine String.toList_injective ?_
  rw [← takeWhile_path h, hpath, takeWhile_path h']

/-- No path is listed twice. -/
theorem nodup_offered (snapshot : Snapshot) (part typed : String) :
    (snapshot.texts.filterMap (offered? part typed)).Nodup := by
  refine List.pairwise_filterMap.mpr (snapshot.pairwise_texts.imp_of_mem ?_)
  intro entry other hentry hother hne path hpath path' hpath' hsame
  obtain ⟨-, rfl⟩ := offered?_eq_some_iff.mp hpath
  obtain ⟨-, rfl⟩ := offered?_eq_some_iff.mp hpath'
  exact hne (path_injective (snapshot.slash_not_mem hentry) (snapshot.slash_not_mem hother) hsame)

/-- The texts in their order, if none is there twice. -/
theorem pairwise_bytes_mergeSort {texts : List String} (h : texts.Nodup) :
    (texts.mergeSort fun a b => a ≤ b).Pairwise fun a b => Text.bytes a < Text.bytes b := by
  have hle : (texts.mergeSort fun a b => a ≤ b).Pairwise (fun a b => a ≤ b) := by
    refine (List.pairwise_mergeSort ?_ ?_ texts).imp of_decide_eq_true
    · intro a b c hab hbc
      exact decide_eq_true (String.le_trans (of_decide_eq_true hab) (of_decide_eq_true hbc))
    · intro a b
      rw [← Bool.decide_or]
      exact decide_eq_true (String.le_total a b)
  have hne : (texts.mergeSort fun a b => a ≤ b).Nodup :=
    (List.mergeSort_perm texts _).nodup_iff.mpr h
  refine (hle.and hne).imp fun ⟨hab, hdiff⟩ => Text.bytes_lt_bytes ?_
  exact String.not_le.mp fun hba => hdiff (String.le_antisymm hab hba)

/-! ### What is offered -/

/-- The paths are what is to be offered for the parts of a word among the entries of a directory. -/
structure IsListing (word part typed : String) (snapshot : Snapshot) (paths : List String) :
    Prop where
  /-- The bytes of the paths rise. -/
  sorted : paths.Pairwise fun a b => Text.bytes a < Text.bytes b
  /-- They are the paths of the entries that begin with the second part of the word, hidden entries
  only if this begins with a dot. -/
  mem_iff : ∀ path, path ∈ paths ↔ ∃ name isDirectory,
    (Text.bytes name, isDirectory) ∈ snapshot.entries ∧
      typed.toList <+: name.toList ∧
      (name.toList.head? = some '.' → typed.toList.head? = some '.') ∧
      path = part ++ name ++ if isDirectory then "/" else ""
  /-- Each of them begins with the word. -/
  begins : ∀ path ∈ paths, word.toList <+: path.toList

/-- The paths among the entries are the listing that is asked for. -/
theorem isListing_pathsAmong (word : String) (snapshot : Snapshot) :
    IsListing word (pathParts word).1 (pathParts word).2 snapshot
      (pathsAmong word snapshot.texts) := by
  have hmem : ∀ path, path ∈ pathsAmong word snapshot.texts ↔ ∃ entry ∈ snapshot.texts,
      entry.IsOffered (pathParts word).2 ∧ entry.path (pathParts word).1 = path := by
    intro path
    rw [pathsAmong, List.mem_mergeSort, List.mem_filterMap]
    simp only [offered?_eq_some_iff]
  refine ⟨pairwise_bytes_mergeSort (nodup_offered snapshot _ _), ?_, ?_⟩
  · intro path
    rw [hmem]
    constructor
    · rintro ⟨entry, hentry, ⟨hbegins, hhidden⟩, rfl⟩
      exact ⟨entry.name, entry.isDirectory, snapshot.mem_texts_iff.mp hentry, hbegins, hhidden, rfl⟩
    · rintro ⟨name, isDirectory, hentry, hbegins, hhidden, rfl⟩
      exact ⟨⟨name, isDirectory⟩, snapshot.mem_texts_iff.mpr hentry, ⟨hbegins, hhidden⟩, rfl⟩
  · intro path hpath
    obtain ⟨entry, -, ⟨hbegins, -⟩, rfl⟩ := (hmem path).mp hpath
    have hword := congrArg String.toList (isCut_pathParts word).append_eq
    rw [String.toList_append] at hword
    rw [← hword, DirectoryEntry.path, String.append_assoc, String.toList_append,
      String.toList_append]
    exact (List.prefix_append_right_inj _).mpr (hbegins.trans (List.prefix_append _ _))

/-- The paths are what is to be offered when a directory is read, or cannot be. -/
def IsAnswer (word part typed : String) (read : Except FileError Snapshot)
    (paths : List String) : Prop :=
  match read with
  | .ok snapshot => IsListing word part typed snapshot paths
  | .error _ => paths = []

/-- What the surroundings list decides what is offered. -/
theorem run_pathsFor {σ : Type} [FileAccess (StateM σ)] (word : String) (state : σ) :
    ((pathsFor word : StateM σ (List String)).run state).1 =
      match ((FileAccess.list (searchedDirectory (pathParts word).1) : StateM σ _).run state).1 with
      | .ok entries => pathsAmong word entries
      | .error _ => [] := by
  rw [pathsFor, StateT.run_bind]
  generalize (FileAccess.list (searchedDirectory (pathParts word).1) : StateM σ _).run state =
    answer
  obtain ⟨listed, state'⟩ := answer
  cases listed with
  | ok entries => rfl
  | error cause => rfl

/-- Whatever the files are kept in, the paths for a word answer what the directory lists. -/
theorem isAnswer_run_pathsFor {σ : Type} [FileAccess (StateM σ)] (word : String) (state : σ)
    (read : Except FileError Snapshot)
    (h : ((FileAccess.list (searchedDirectory (pathParts word).1) : StateM σ _).run state).1 =
      read.map Snapshot.texts) :
    IsAnswer word (pathParts word).1 (pathParts word).2 read
      ((pathsFor word : StateM σ (List String)).run state).1 := by
  rw [run_pathsFor, h]
  cases read with
  | ok snapshot => exact isListing_pathsAmong word snapshot
  | error cause => exact rfl

/-- A file system lists the entries of a directory whose names are texts. -/
theorem run_list_of_list {files : FileSystem} {path : String} {read : Except FileError Snapshot}
    (h : files.list (pathBytes path) = read.map Snapshot.entries) :
    ((FileAccess.list path : StateM FileSystem _).run files).1 = read.map Snapshot.texts := by
  have hlist : ((FileAccess.list path : StateM FileSystem _).run files).1 =
      (files.list (pathBytes path)).map fun entries =>
        entries.filterMap fun (name, isDirectory) =>
          (String.fromUTF8? ⟨name.toArray⟩).map fun name => { name, isDirectory } := rfl
  rw [hlist, h]
  cases read with
  | ok snapshot => rfl
  | error cause => rfl

/-- **The listing of paths is exact and sorted.** Every word is cut behind its last slash. Whatever
the surroundings hold for the directory that the first part names, the paths of exactly those of its
entries are offered that begin with the second part and are not hidden, unless this begins with a
dot; their bytes rise, and each begins with the word. Nothing is offered if the directory cannot be
read. In a file system the entries are those whose names are texts. -/
theorem pathsFor_exact (word : String) :
    let part := (pathParts word).1
    let typed := (pathParts word).2
    IsCut word part typed ∧
      (∀ (σ : Type) [FileAccess (StateM σ)] (state : σ) (read : Except FileError Snapshot),
        ((FileAccess.list (if part = "" then "." else part) : StateM σ _).run state).1 =
            read.map Snapshot.texts →
          IsAnswer word part typed read ((pathsFor word : StateM σ (List String)).run state).1) ∧
      ∀ (files : FileSystem) (read : Except FileError Snapshot),
        files.list (pathBytes (if part = "" then "." else part)) = read.map Snapshot.entries →
          IsAnswer word part typed read (pathsIn files word) := by
  intro part typed
  refine ⟨isCut_pathParts word, ?_, ?_⟩
  · intro σ _ state read hread
    exact isAnswer_run_pathsFor word state read hread
  · intro files read hread
    exact isAnswer_run_pathsFor word files read (run_list_of_list hread)

/-- Beside a directory and a file, the directory holds a hidden file, a name that is no text, and a
link. The slash behind a name is sorted as part of the path. -/
theorem pathsFor_exact_slash :
    let files : FileSystem :=
      { entries := [([[97]], .directory), ([[97, 45, 98]], .file ⟨#[]⟩),
          ([[46, 115]], .file ⟨#[]⟩), ([[97, 255]], .directory), ([[97, 108]], .link [97])] }
    let entries : List (FileName × Bool) :=
      [([97], true), ([97, 45, 98], false), ([46, 115], false), ([97, 255], true),
        ([97, 108], true)]
    ∃ snapshot : Snapshot, snapshot.entries = entries ∧
      files.list (pathBytes ".") = (Except.ok snapshot).map Snapshot.entries ∧
      pathsIn files "a" = ["a-b", "a/", "al/"] ∧
      IsAnswer "a" "" "a" (.ok snapshot) (pathsIn files "a") := by
  intro files entries
  have hdot : pathBytes "." = [46] := by decide +kernel
  have hlist : files.list (pathBytes ".") = .ok entries := by
    rw [hdot]
    have hroot : files.locate [46] = .ok (.found [] .directory) := by
      show files.follow FileSystem.maxLinks [] [FileSystem.dot] = _
      simp [FileSystem.follow, FileSystem.node?]
    rw [FileSystem.list, hroot]
    simp [bind, Except.bind, pure, Except.pure, files, entries, FileSystem.namesBelow,
      FileSystem.follow, FileSystem.node?, FileSystem.maxLinks, FileSystem.dot, FileSystem.dotDot,
      FileSystem.maxNameLength, FileSystem.isAbsolute, FileSystem.stepsOf, FileSystem.namesOf,
      FileSystem.splitAtSlashes, FileSystem.endsInSlash, FileSystem.slash, List.lookup_cons]
  let snapshot : Snapshot := ⟨entries, by decide, by decide⟩
  have hparts : pathParts "a" = ("", "a") := by decide
  -- neither the hidden file nor the name that is no text is offered
  have hoffered : snapshot.texts.filterMap (offered? "" "a") = ["a/", "a-b", "al/"] := by
    decide +kernel
  have hpaths : pathsIn files "a" = ["a-b", "a/", "al/"] := by
    have hread : files.list (pathBytes (searchedDirectory "")) =
        (Except.ok snapshot).map Snapshot.entries := hlist
    show ((pathsFor "a" : StateM FileSystem _).run files).1 = _
    rw [run_pathsFor, hparts, run_list_of_list hread]
    show pathsAmong "a" snapshot.texts = _
    rw [pathsAmong, hparts]
    show (snapshot.texts.filterMap (offered? "" "a")).mergeSort _ = _
    rw [hoffered]
    simp [List.mergeSort]
  obtain ⟨-, -, hfiles⟩ := pathsFor_exact "a"
  rw [hparts] at hfiles
  exact ⟨snapshot, rfl, hlist, hpaths, hfiles files _ hlist⟩

end ShellCompletion

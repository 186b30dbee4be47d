import ShellCompletion.CommandLine.Run
import ShellCompletion.Proofs.Command.TreeText
import ShellCompletion.Proofs.FileSystem.Writing
import ShellCompletion.Proofs.Script.BufferPool

/-!
# A script is written only for a request that is in order

A request for a script can be refused for what it says and for what is in the files that it names.
All of this is looked at before the output is opened: up to that point the run only reads, so a
refusal leaves the file system as it is. Behind that point nothing but the output is written, first
empty and then with the script, and the second time the path leads to the same place.

* **Steps of a run** (`bind_run_of_ok`, `bind_run_of_error`).
* **What is looked at** (`resolveTunables_cases`, `loadChecked_cases`, put together in
  `generate_cases`): the run stops, or the request is `Prepared`, and then nothing is `Refused`.
* **What is written** (`openOutput_cases`, `writeScript_run`, put together in `outputStage_cases`).

Main statement: `run_generate_output`.
-/

namespace ShellCompletion

namespace FileSystem

/-! ### Reading leaves all as it is -/

/-- The run of `x` leaves the file system as it is. -/
abbrev OnlyReads {α : Type} (x : StateM FileSystem α) : Prop :=
  Keeps Eq x

/-- The text of a file is read without a change to any. -/
theorem onlyReads_readText (path : String) :
    OnlyReads (FileAccess.readText path : StateM FileSystem (Except FileError String)) := by
  refine Keeps.bind (fun _ => rfl) fun answer => ?_
  split
  · exact .pure _
  · split
    · exact .pure _
    · exact .pure _

/-- Tunables are loaded without a change to any file. -/
theorem onlyReads_loadTunables (path : String) :
    OnlyReads (Tunables.load path : StateM FileSystem (Except Tunables.Error Tunables)) := by
  refine (onlyReads_readText path).bind fun answer => ?_
  split
  · exact .pure _
  · exact .pure _
  · exact .pure _
  · exact .pure _

/-- A tree is loaded without a change to any file. -/
theorem onlyReads_loadCommand (path : String) :
    OnlyReads (Command.load path : StateM FileSystem (Except LoadError Command)) := by
  refine (onlyReads_readText path).bind fun answer => ?_
  split
  · exact .pure _
  · exact .pure _

end FileSystem

namespace CommandLine

variable {α β ε : Type} {fs fs' : FileSystem}

/-! ### Steps of a run -/

/-- What runs on a file system that is a value, and may fail. -/
abbrev Run : Type → Type :=
  ExceptT Failure (StateM FileSystem)

section Steps

variable {first : Run α} {next : α → Run β}

/-- Where the first step succeeds, the run goes on with what it leaves. -/
theorem bind_run_of_ok {value : α} (h : first.run fs = (.ok value, fs')) :
    (first >>= next).run fs = (next value).run fs' := by
  change (ExceptT.bindCont next (first.run fs).1).run (first.run fs).2 = _
  rw [h]
  rfl

/-- Where the first step fails, the run stops with what it leaves. -/
theorem bind_run_of_error {failure : Failure} (h : first.run fs = (.error failure, fs')) :
    (first >>= next).run fs = (.error failure, fs') := by
  change (ExceptT.bindCont next (first.run fs).1).run (first.run fs).2 = _
  rw [h]
  rfl

/-- An answer turns into a run that touches no file. -/
theorem orFail_run (failure : ε → Failure) (answer : Except ε α) (fs : FileSystem) :
    (orFail failure answer : Run α).run fs =
      (answer.mapError failure, fs) :=
  rfl

/-- A question turns into a run that ends as the question does, and fails in its own words. -/
theorem ask_run (failure : ε → Failure) (question : StateM FileSystem (Except ε α))
    (fs : FileSystem) :
    (ask failure question).run fs = ((question fs).1.mapError failure, (question fs).2) :=
  rfl

end Steps

/-! ### What is looked at -/

/-- The tunables that a request starts from: those in the file that it names, or the defaults. -/
inductive Base (fs : FileSystem) (tuning : Tuning) : Tunables → Prop
  | file {path : String} {base : Tunables} (hfile : tuning.file = some path)
      (hload : ((Tunables.load path : StateM FileSystem _) fs).1 = .ok base) : Base fs tuning base
  | defaults (hfile : tuning.file = none) : Base fs tuning {}

/-- Each tunable is the one that is given for it, or else that of the base. -/
structure Merged (tuning : Tuning) (base tunables : Tunables) : Prop where
  fuzzyEnabled : tunables.fuzzyEnabled = if tuning.noFuzzy then false else base.fuzzyEnabled
  maxCandidates : tunables.maxCandidates = tuning.maxCandidates.getD base.maxCandidates
  minPatternLength : tunables.minPatternLength = tuning.minPatternLength.getD base.minPatternLength
  scoreThreshold : tunables.scoreThreshold = tuning.scoreThreshold.getD base.scoreThreshold
  maxResults : tunables.maxResults = tuning.maxResults.getD base.maxResults
  cacheMaxSize : tunables.cacheMaxSize = tuning.cacheMaxSize.getD base.cacheMaxSize

/-- A request that is refused, for what it says or for what is in a file that it names. -/
inductive Refused (fs : FileSystem) (request : ScriptRequest) : Prop
  /-- There is no such shell. -/
  | shell (h : Shell.ofName? request.shell = none)
  /-- The file of the tunables cannot be read, holds none, or holds one out of its range. -/
  | tunablesFile {path : String} {cause : Tunables.Error}
      (hfile : request.tuning.file = some path)
      (hload : ((Tunables.load path : StateM FileSystem _) fs).1 = .error cause)
  /-- With what is given in the place of others, a tunable is out of its range. -/
  | tunables {base tunables : Tunables} {cause : Tunables.OutOfRange}
      (hbase : Base fs request.tuning base) (hmerged : Merged request.tuning base tunables)
      (hcheck : tunables.check = .error cause)
  /-- The file of the tree cannot be read, or holds none. -/
  | treeFile {cause : LoadError}
      (hload : ((Command.load request.input : StateM FileSystem _) fs).1 = .error cause)
  /-- The tree breaks a rule, and it is to be checked. -/
  | tree {tree : Command} {fault : Fault} (hskip : request.skipValidation = false)
      (hload : ((Command.load request.input : StateM FileSystem _) fs).1 = .ok tree)
      (hcheck : tree.check = .error fault)

/-- A request that is in order, with the shell, the tunables and the tree that it asks for. -/
structure Prepared (fs : FileSystem) (request : ScriptRequest) (shell : Shell)
    (tunables : Tunables) (tree : Command) : Prop where
  named : Shell.ofName? request.shell = some shell
  merged : ∃ base, Base fs request.tuning base ∧ Merged request.tuning base tunables
  inRange : tunables.check = .ok ()
  loaded : ((Command.load request.input : StateM FileSystem _) fs).1 = .ok tree
  valid : request.skipValidation = false → tree.check = .ok ()

/-- Merging is overriding the base, tunable by tunable. -/
theorem merged_iff {tuning : Tuning} {base tunables : Tunables} :
    Merged tuning base tunables ↔ tunables = tuning.override base := by
  constructor
  · intro h
    obtain ⟨h₁, h₂, h₃, h₄, h₅, h₆⟩ := h
    cases tunables
    simp only at h₁ h₂ h₃ h₄ h₅ h₆
    subst h₁ h₂ h₃ h₄ h₅ h₆
    unfold Tuning.override
    cases tuning.noFuzzy <;> simp
  · rintro rfl
    refine ⟨?_, rfl, rfl, rfl, rfl, rfl⟩
    unfold Tuning.override
    cases tuning.noFuzzy <;> simp

/-- There is only one base for a request. -/
theorem Base.unique {tuning : Tuning} {base other : Tunables} (h : Base fs tuning base)
    (h' : Base fs tuning other) : base = other := by
  cases h with
  | file hfile hload =>
    cases h' with
    | file hfile' hload' =>
      obtain rfl := Option.some.inj (hfile.symm.trans hfile')
      exact Except.ok.inj (hload.symm.trans hload')
    | defaults hfile' => exact absurd (hfile.symm.trans hfile') (by simp)
  | defaults hfile =>
    cases h' with
    | file hfile' _ => exact absurd (hfile.symm.trans hfile') (by simp)
    | defaults _ => rfl

/-- A request that is in order is not refused. -/
theorem Prepared.not_refused {request : ScriptRequest} {shell : Shell} {tunables : Tunables}
    {tree : Command} (h : Prepared fs request shell tunables tree) : ¬Refused fs request := by
  obtain ⟨base, hbase, hmerged⟩ := h.merged
  intro hrefused
  cases hrefused with
  | shell hshell => exact absurd (hshell.symm.trans h.named) (by simp)
  | tunablesFile hfile hload =>
    cases hbase with
    | file hfile' hload' =>
      obtain rfl := Option.some.inj (hfile.symm.trans hfile')
      exact absurd (hload.symm.trans hload') (by simp)
    | defaults hfile' => exact absurd (hfile.symm.trans hfile') (by simp)
  | tunables hbase' hmerged' hcheck =>
    obtain rfl := hbase.unique hbase'
    rw [merged_iff.mp hmerged', ← merged_iff.mp hmerged, h.inRange] at hcheck
    exact absurd hcheck (by simp)
  | treeFile hload => exact absurd (hload.symm.trans h.loaded) (by simp)
  | tree hskip hload hcheck =>
    obtain rfl := Except.ok.inj (hload.symm.trans h.loaded)
    exact absurd (hcheck.symm.trans (h.valid hskip)) (by simp)

/-- The run fails, and leaves `fs'`. -/
def FailsTo (fs fs' : FileSystem) (x : Run α) : Prop :=
  ∃ failure, x.run fs = (.error failure, fs')

/-- A run fails if its first step does. -/
theorem FailsTo.bind {first : Run α} (h : FailsTo fs fs' first) (next : α → Run β) :
    FailsTo fs fs' (first >>= next) := by
  obtain ⟨failure, hrun⟩ := h
  exact ⟨failure, bind_run_of_error hrun⟩

/-- A run fails if it fails behind a step that succeeds. -/
theorem FailsTo.bind_of_ok {fs'' : FileSystem} {first : Run α} {next : α → Run β} {value : α}
    (h : first.run fs = (.ok value, fs')) (h' : FailsTo fs' fs'' (next value)) :
    FailsTo fs fs'' (first >>= next) := by
  obtain ⟨failure, hrun⟩ := h'
  exact ⟨failure, (bind_run_of_ok h).trans hrun⟩

/-- An answer that is no failure is gone on with. -/
theorem orFail_cases (failure : ε → Failure) (answer : Except ε α) (fs : FileSystem) :
    (∃ cause, answer = .error cause ∧ FailsTo fs fs (orFail failure answer)) ∨
      ∃ value, answer = .ok value ∧ (orFail failure answer : Run α).run fs = (.ok value, fs) := by
  cases answer with
  | error cause => exact .inl ⟨cause, rfl, failure cause, rfl⟩
  | ok value => exact .inr ⟨value, rfl, rfl⟩

/-- A question that only reads. -/
theorem ask_cases (failure : ε → Failure) {question : StateM FileSystem (Except ε α)}
    (hreads : FileSystem.OnlyReads question) (fs : FileSystem) :
    (∃ cause, (question fs).1 = .error cause ∧ FailsTo fs fs (ask failure question)) ∨
      ∃ value, (question fs).1 = .ok value ∧
        (ask failure question).run fs = (.ok value, fs) := by
  have hrun := ask_run failure question fs
  rw [← hreads fs] at hrun
  cases hanswer : (question fs).1 with
  | error cause =>
    rw [hanswer] at hrun
    exact .inl ⟨cause, rfl, failure cause, hrun⟩
  | ok value =>
    rw [hanswer] at hrun
    exact .inr ⟨value, rfl, hrun⟩

variable {request : ScriptRequest} {shell : Shell} {tunables : Tunables} {tree : Command}

/-- The base is found, or the run stops. -/
theorem baseTunables_cases (request : ScriptRequest) (fs : FileSystem) :
    (Refused fs request ∧ FailsTo fs fs (baseTunables request.tuning)) ∨
      ∃ base, Base fs request.tuning base ∧
        (baseTunables request.tuning : Run Tunables).run fs = (.ok base, fs) := by
  unfold baseTunables
  split
  next path hfile =>
    rcases ask_cases (.tunables path) (FileSystem.onlyReads_loadTunables path) fs with
      ⟨cause, hload, hstops⟩ | ⟨base, hload, hrun⟩
    · exact .inl ⟨.tunablesFile hfile hload, hstops⟩
    · exact .inr ⟨base, .file hfile hload, hrun⟩
  next hfile => exact .inr ⟨{}, .defaults hfile, rfl⟩

/-- The tunables are merged and in their ranges, or the run stops. -/
theorem resolveTunables_cases (request : ScriptRequest) (fs : FileSystem) :
    (Refused fs request ∧ FailsTo fs fs (resolveTunables request.tuning)) ∨
      ∃ tunables,
        (∃ base, Base fs request.tuning base ∧ Merged request.tuning base tunables) ∧
          tunables.check = .ok () ∧
            (resolveTunables request.tuning : Run Tunables).run fs = (.ok tunables, fs) := by
  unfold resolveTunables
  rcases baseTunables_cases request fs with ⟨hrefused, hstops⟩ | ⟨base, hbase, hrun⟩
  · exact .inl ⟨hrefused, hstops.bind _⟩
  have hmerged : Merged request.tuning base (request.tuning.override base) := merged_iff.mpr rfl
  rcases orFail_cases (fun cause => .script (.outOfRange cause))
    (request.tuning.override base).check fs with ⟨cause, hcheck, hstops⟩ | ⟨_, hcheck, hpass⟩
  · exact .inl ⟨.tunables hbase hmerged hcheck, .bind_of_ok hrun (hstops.bind _)⟩
  · refine .inr ⟨request.tuning.override base, ⟨base, hbase, hmerged⟩, hcheck, ?_⟩
    rw [bind_run_of_ok hrun, bind_run_of_ok hpass]
    rfl

/-- The tree is loaded, or the run stops. -/
theorem loadTree_cases (request : ScriptRequest) (fs : FileSystem) :
    (Refused fs request ∧ FailsTo fs fs (loadTree request.input)) ∨
      ∃ tree, ((Command.load request.input : StateM FileSystem _) fs).1 = .ok tree ∧
        (loadTree request.input : Run Command).run fs = (.ok tree, fs) := by
  unfold loadTree
  rcases ask_cases (.tree request.input) (FileSystem.onlyReads_loadCommand request.input) fs with
    ⟨cause, hload, hstops⟩ | hloaded
  · exact .inl ⟨.treeFile hload, hstops⟩
  · exact .inr hloaded

/-- The tree is loaded, and checked if it is to be, or the run stops. -/
theorem loadChecked_cases (request : ScriptRequest) (fs : FileSystem) :
    (Refused fs request ∧ FailsTo fs fs (loadChecked request.input !request.skipValidation)) ∨
      ∃ tree, ((Command.load request.input : StateM FileSystem _) fs).1 = .ok tree ∧
        (request.skipValidation = false → tree.check = .ok ()) ∧
          (loadChecked request.input !request.skipValidation : Run Command).run fs =
            (.ok tree, fs) := by
  unfold loadChecked
  cases hskip : request.skipValidation with
  | true =>
    rcases loadTree_cases request fs with hrefused | ⟨tree, hload, hrun⟩
    · exact .inl hrefused
    · exact .inr ⟨tree, hload, fun h => absurd h (by simp), hrun⟩
  | false =>
    show (_ ∧ FailsTo fs fs (loadValidTree request.input)) ∨
      ∃ tree, _ ∧ _ ∧ (loadValidTree request.input : Run Command).run fs = _
    unfold loadValidTree
    rcases loadTree_cases request fs with ⟨hrefused, hstops⟩ | ⟨tree, hload, hrun⟩
    · exact .inl ⟨hrefused, hstops.bind _⟩
    rcases orFail_cases (.invalidTree request.input) tree.check fs with
      ⟨fault, hcheck, hstops⟩ | ⟨_, hcheck, hpass⟩
    · exact .inl ⟨.tree hskip hload hcheck, .bind_of_ok hrun (hstops.bind _)⟩
    · refine .inr ⟨tree, hload, fun _ => hcheck, ?_⟩
      rw [bind_run_of_ok hrun, bind_run_of_ok hpass]
      rfl

/-- The shell is known, or the run stops. -/
theorem shellOfName_cases (request : ScriptRequest) (fs : FileSystem) :
    (Refused fs request ∧ FailsTo fs fs (orFail .script (Script.shellOfName request.shell))) ∨
      ∃ shell, Shell.ofName? request.shell = some shell ∧
        (orFail .script (Script.shellOfName request.shell) : Run Shell).run fs =
          (.ok shell, fs) := by
  unfold Script.shellOfName
  cases hname : Shell.ofName? request.shell with
  | none => exact .inl ⟨.shell hname, _, rfl⟩
  | some shell => exact .inr ⟨shell, rfl, rfl⟩

/-- What is done for a request that is in order. -/
def outputStage (executable path : String) (shell : Shell) (tunables : Tunables)
    (tree : Command) : Run Outcome := do
  openOutput path
  writeScript path executable tree shell tunables
  return {
    notes := "Wrote " ++ shell.name ++ " completion for '" ++ tree.name ++ "' to '" ++ path ++
      "'.\n" }

/-- The request is refused, and the run stops before the output is opened, or it is in order. -/
theorem generate_cases {path : String} (executable : String)
    (houtput : request.output = some path) (fs : FileSystem) :
    (Refused fs request ∧ FailsTo fs fs (generate executable request)) ∨
      ∃ shell tunables tree, Prepared fs request shell tunables tree ∧
        (generate executable request : Run Outcome).run fs =
          (outputStage executable path shell tunables tree).run fs := by
  unfold generate
  rcases shellOfName_cases request fs with ⟨hrefused, hstops⟩ | ⟨shell, hname, hrun₁⟩
  · exact .inl ⟨hrefused, hstops.bind _⟩
  rcases resolveTunables_cases request fs with
    ⟨hrefused, hstops⟩ | ⟨tunables, hmerged, hcheck, hrun₂⟩
  · exact .inl ⟨hrefused, .bind_of_ok hrun₁ (hstops.bind _)⟩
  rcases loadChecked_cases request fs with ⟨hrefused, hstops⟩ | ⟨tree, hload, hvalid, hrun₃⟩
  · exact .inl ⟨hrefused, .bind_of_ok hrun₁ (.bind_of_ok hrun₂ (hstops.bind _))⟩
  refine .inr ⟨shell, tunables, tree, ⟨hname, hmerged, hcheck, hload, hvalid⟩, ?_⟩
  rw [bind_run_of_ok hrun₁, bind_run_of_ok hrun₂, bind_run_of_ok hrun₃, houtput]
  rfl

/-! ### What is written -/

/-- The path leads to a file with these bytes, and no file at another place differs from `fs`. -/
def Wrote (fs : FileSystem) (path : String) (bytes : ByteArray) (place : List FileName)
    (fs' : FileSystem) : Prop :=
  fs'.locate (pathBytes path) = .ok (.found place (.file bytes)) ∧
    FileSystem.SameFilesBut place fs fs'

/-- The directory above the output is made without a change to any file. -/
theorem keepsFiles_makeParent (path : String) :
    FileSystem.Keeps FileSystem.SameFiles (makeParent path : Run Unit).run := by
  unfold makeParent
  split
  next parent _ =>
    intro fs
    rw [ask_run]
    exact FileSystem.keepsFiles_makeDirectories parent fs
  next => exact .pure _

/-- Where a file is written, its path leads to the bytes, and no other file has changed. -/
theorem wrote_of_write {path : String} {bytes : ByteArray}
    (h : fs.write (pathBytes path) bytes = .ok fs') : ∃ place, Wrote fs path bytes place fs' := by
  obtain ⟨destination, hlocate, htakes, rfl⟩ := FileSystem.exists_of_write h
  exact ⟨destination.place, FileSystem.locate_put bytes hlocate htakes,
    FileSystem.sameFilesBut_put htakes.ne_nil _⟩

/-- A file that has been written can be written once more, and stays at its place. -/
theorem Wrote.again {path : String} {bytes : ByteArray} {place : List FileName}
    (h : Wrote fs path bytes place fs')
    (hslash : FileSystem.endsInSlash (pathBytes path) = false) (bytes' : ByteArray) :
    ∃ fs'', fs'.write (pathBytes path) bytes' = .ok fs'' ∧ Wrote fs path bytes' place fs'' := by
  have htakes : fs'.TakesFile place :=
    .inr ⟨bytes, FileSystem.node?_of_follow (FileSystem.exists_of_locate h.1).2⟩
  exact ⟨_, FileSystem.write_of_locate hslash h.1 htakes bytes',
    FileSystem.locate_put bytes' h.1 htakes,
    h.2.trans (FileSystem.sameFilesBut_put htakes.ne_nil _)⟩

/-- A file that can be written is written by the run. -/
theorem write_run_of_ok {path : String} {bytes : ByteArray} (failure : FileError → Failure)
    (h : fs.write (pathBytes path) bytes = .ok fs') :
    (ask failure (FileAccess.write path bytes) : Run Unit).run fs = (.ok (), fs') := by
  have hrun := ask_run failure (FileSystem.change (·.write (pathBytes path) bytes)) fs
  rw [FileSystem.change_of_ok h] at hrun
  exact hrun

/-- A file is written, or the run fails. -/
theorem write_cases (failure : FileError → Failure) (path : String) (bytes : ByteArray)
    (fs : FileSystem) :
    FailsTo fs fs (ask failure (FileAccess.write path bytes)) ∨
      ∃ fs', fs.write (pathBytes path) bytes = .ok fs' ∧
        (ask failure (FileAccess.write path bytes) : Run Unit).run fs = (.ok (), fs') := by
  cases hwrite : fs.write (pathBytes path) bytes with
  | error cause =>
    have hrun := ask_run failure (FileSystem.change (·.write (pathBytes path) bytes)) fs
    rw [FileSystem.change_of_error hwrite] at hrun
    exact .inl ⟨failure cause, hrun⟩
  | ok fs' => exact .inr ⟨fs', rfl, write_run_of_ok failure hwrite⟩

/-- The directory above the output is there in the end, and all files are as before, or the run
fails. -/
theorem makeParent_cases (path : String) (fs : FileSystem) :
    (∃ fs', FailsTo fs fs' (makeParent path)) ∨
      ∃ fs', fs.SameFiles fs' ∧ (makeParent path : Run Unit).run fs = (.ok (), fs') := by
  have hkeeps := keepsFiles_makeParent path fs
  cases hrun : (makeParent path : Run Unit).run fs with
  | mk answer fs' =>
    rw [hrun] at hkeeps
    cases answer with
    | error failure => exact .inl ⟨fs', failure, hrun⟩
    | ok _ => exact .inr ⟨fs', hkeeps, rfl⟩

/-- An output that is opened is empty, and can be written. -/
theorem openOutput_cases (path : String) (fs : FileSystem) :
    (∃ fs', FailsTo fs fs' (openOutput path)) ∨
      ∃ place fs', Wrote fs path .empty place fs' ∧
        FileSystem.endsInSlash (pathBytes path) = false ∧
          (openOutput path : Run Unit).run fs = (.ok (), fs') := by
  unfold openOutput
  rcases makeParent_cases path fs with ⟨fs₁, hfails⟩ | ⟨fs₁, hsame, hrun⟩
  · exact .inl ⟨fs₁, hfails.bind _⟩
  rcases write_cases (.output path) path .empty fs₁ with hstops | ⟨fs₂, hwrite, hrun'⟩
  · exact .inl ⟨fs₁, .bind_of_ok hrun hstops⟩
  · obtain ⟨place, hlocate, hbut⟩ := wrote_of_write hwrite
    exact .inr ⟨place, fs₂, ⟨hlocate, hsame.trans_but hbut⟩,
      FileSystem.endsInSlash_of_write hwrite, (bind_run_of_ok hrun).trans hrun'⟩

/-- An output that is open is filled with the script. -/
theorem writeScript_run {executable path script : String} {bytes : ByteArray}
    {place : List FileName} (h : Wrote fs path bytes place fs')
    (hslash : FileSystem.endsInSlash (pathBytes path) = false)
    (hscript : Script.generateWith executable (some tree) shell tunables = .ok script) :
    ∃ fs'', Wrote fs path script.toUTF8 place fs'' ∧
      (writeScript path executable tree shell tunables : Run Unit).run fs' = (.ok (), fs'') := by
  obtain ⟨fs'', hwrite, hwrote⟩ := h.again hslash script.toUTF8
  have hpass : (orFail .script (Script.generateWith executable (some tree) shell tunables) :
      Run String).run fs' = (.ok script, fs') := by
    rw [hscript, orFail_run]
    rfl
  exact ⟨fs'', hwrote,
    (bind_run_of_ok hpass).trans (write_run_of_ok (fun cause => .script (.file cause)) hwrite)⟩

/-- The output is filled with the script if it can be opened; otherwise the run fails. -/
theorem outputStage_cases {executable path script : String}
    (hscript : Script.generateWith executable (some tree) shell tunables = .ok script)
    (fs : FileSystem) :
    (∃ fs', FailsTo fs fs' (openOutput path) ∧
      FailsTo fs fs' (outputStage executable path shell tunables tree)) ∨
      ∃ place outcome fs', Wrote fs path script.toUTF8 place fs' ∧ outcome.exitCode = 0 ∧
        (outputStage executable path shell tunables tree).run fs = (.ok outcome, fs') := by
  unfold outputStage
  rcases openOutput_cases path fs with ⟨fs₁, hfails⟩ | ⟨place, fs₁, hopen, hslash, hrun⟩
  · exact .inl ⟨fs₁, hfails, hfails.bind _⟩
  · obtain ⟨fs₂, hwrote, hrun'⟩ := writeScript_run hopen hslash hscript
    refine .inr ⟨place, ?outcome, fs₂, hwrote, ?exitCode, ?run⟩
    case run =>
      rw [bind_run_of_ok hrun, bind_run_of_ok hrun']
      rfl
    case exitCode => rfl

/-! ### The program -/

section Program

variable {arguments : List String} {executable : String}

/-- A request that fails ends with the exit code 1, and nothing is printed. -/
theorem run_of_error {invocation : Invocation} {failure : Failure}
    (hparse : parse arguments = .ok invocation)
    (h : (invocation.run executable : Run Outcome).run fs = (.error failure, fs')) :
    (run executable arguments : StateM FileSystem Outcome) fs = (failure.outcome, fs') := by
  unfold run
  simp only [hparse]
  rw [FileSystem.bind_apply, h]
  rfl

/-- A request that succeeds is the outcome of the program. -/
theorem run_of_ok {invocation : Invocation} {outcome : Outcome}
    (hparse : parse arguments = .ok invocation)
    (h : (invocation.run executable : Run Outcome).run fs = (.ok outcome, fs')) :
    (run executable arguments : StateM FileSystem Outcome) fs = (outcome, fs') := by
  unfold run
  simp only [hparse]
  rw [FileSystem.bind_apply, h]
  rfl

/-- **A request for a script is refused before anything is written.** A request that is refused
ends with the exit code 1, prints nothing and leaves the file system as it is. If the exit code is
0, the request was in order, the output holds the script for it, and no other file has changed. And
it is 0 if the request is in order and the output can be opened. -/
theorem run_generate_output {path : String} (executable : String)
    (hparse : parse arguments = .ok (.generate request)) (houtput : request.output = some path)
    (fs : FileSystem) :
    (Refused fs request →
      ∃ outcome, (run executable arguments : StateM FileSystem Outcome) fs = (outcome, fs) ∧
        outcome.exitCode = 1 ∧ outcome.output = "") ∧
    (∀ outcome fs', (run executable arguments : StateM FileSystem Outcome) fs = (outcome, fs') →
      outcome.exitCode = 0 →
        ∃ shell tunables tree script place, Prepared fs request shell tunables tree ∧
          Script.generateWith executable (some tree) shell tunables = .ok script ∧
          Wrote fs path script.toUTF8 place fs') ∧
    ∀ shell tunables tree opened, Prepared fs request shell tunables tree →
      (openOutput path : Run Unit).run fs = (.ok (), opened) →
        ((run executable arguments : StateM FileSystem Outcome) fs).1.exitCode = 0 := by
  rcases generate_cases executable houtput fs with
    ⟨hrefused, failure, hstops⟩ | ⟨shell, tunables, tree, hprepared, hstage⟩
  · have hrun := run_of_error hparse hstops
    refine ⟨fun _ => ⟨failure.outcome, hrun, rfl, rfl⟩, fun outcome fs' hend hzero => ?_,
      fun _ _ _ _ hprepared _ => absurd hrefused hprepared.not_refused⟩
    obtain rfl : failure.outcome = outcome := congrArg Prod.fst (hrun.symm.trans hend)
    exact absurd hzero (by simp [Failure.outcome])
  -- past this point the request is in order, so only the output can fail
  have hscript : Script.generateWith executable (some tree) shell tunables = .ok _ :=
    Script.generateWith_of_check hprepared.inRange
  refine ⟨fun hrefused => absurd hrefused hprepared.not_refused, ?_⟩
  rcases outputStage_cases hscript fs with
    ⟨fs₁, ⟨_, hclosed⟩, failure, hfails⟩ | ⟨place, told, fs₁, hwrote, htold, hrun⟩
  · have hrun := run_of_error hparse (hstage.trans hfails)
    refine ⟨fun outcome fs' hend hzero => ?_, fun _ _ _ opened _ hopen => ?_⟩
    · obtain rfl : failure.outcome = outcome := congrArg Prod.fst (hrun.symm.trans hend)
      exact absurd hzero (by simp [Failure.outcome])
    · exact absurd (congrArg Prod.fst (hclosed.symm.trans hopen)) (by simp)
  · have hrun := run_of_ok hparse (hstage.trans hrun)
    refine ⟨fun outcome fs' hend _ => ?_, fun _ _ _ _ _ _ => ?_⟩
    · obtain rfl : fs₁ = fs' := congrArg Prod.snd (hrun.symm.trans hend)
      exact ⟨shell, tunables, tree, _, place, hprepared, hscript, hwrote⟩
    · rw [hrun]
      exact htold

/-- A tree is there in the working directory, and an output in the root. For Bash the output is
written anew; for a shell that is unknown it stays as it is. -/
theorem run_generate_output_bash :
    let text : String := "\x7b\"name\":\"a\",\"flags\":[],\"subcommands\":[]\x7d"
    let fs : FileSystem :=
      { entries := [([[119]], .directory), ([[119], [116]], .file text.toUTF8),
          ([[111]], .file "old".toUTF8)]
        workingDirectory := [[119]] }
    let request (shell : String) : ScriptRequest := { shell, input := "t", output := some "/o" }
    let arguments (shell : String) : List String :=
      ["generate", "--shell", shell, "--input", "t", "--output", "/o"]
    (parse (arguments "fish") = .ok (.generate (request "fish")) ∧ Refused fs (request "fish") ∧
      ∃ outcome, (run "x" (arguments "fish") : StateM FileSystem Outcome) fs = (outcome, fs) ∧
        outcome.exitCode = 1 ∧ outcome.output = "") ∧
    (parse (arguments "bash") = .ok (.generate (request "bash")) ∧
      ∃ outcome fs',
        (run "x" (arguments "bash") : StateM FileSystem Outcome) fs = (outcome, fs') ∧
          outcome.exitCode = 0 ∧
          ∃ shell tunables tree script place, Prepared fs (request "bash") shell tunables tree ∧
            Script.generateWith "x" (some tree) shell tunables = .ok script ∧
            Wrote fs "/o" script.toUTF8 place fs') := by
  intro text fs request arguments
  have hfish : parse (arguments "fish") = .ok (.generate (request "fish")) := by decide +kernel
  have hbash : parse (arguments "bash") = .ok (.generate (request "bash")) := by decide +kernel
  have hrefused : Refused fs (request "fish") := .shell (by decide)
  have hinput : pathBytes "t" = [116] := by decide +kernel
  have houtput : pathBytes "/o" = [47, 111] := by decide +kernel
  have hread : fs.read (pathBytes "t") = .ok text.toUTF8 := by
    rw [hinput]
    exact FileSystem.read_of_locate (FileSystem.locate_single rfl rfl (by decide) (by decide)
      (by decide) rfl rfl)
  have htree : ((Command.load "t" : StateM FileSystem _) fs).1 = .ok { name := "a" } := by
    rw [Command.load, FileSystem.bind_apply, FileSystem.readText_of_read hread]
    have hformat : TreeFormat.ofPath "t" = .json := by decide +kernel
    have htext : ({ name := "a" } : Command).toText = text := by decide +kernel
    show Command.ofText (.ofPath "t") text = _
    rw [hformat, Command.ofText, ← htext, Command.ofJsonText?_toText (by decide)]
  have hprepared : Prepared fs (request "bash") .bash {} { name := "a" } :=
    ⟨by decide, ⟨{}, .defaults rfl, merged_iff.mpr rfl⟩, rfl, htree, fun _ => rfl⟩
  have hwrite : fs.write (pathBytes "/o") .empty = .ok (fs.put [[111]] (.file .empty)) := by
    rw [houtput]
    exact FileSystem.write_of_locate rfl (FileSystem.locate_single rfl rfl (by decide) (by decide)
      (by decide) rfl rfl) (.inr ⟨_, rfl⟩) _
  -- the output stands in the root, above which nothing is made
  have habove : Path.parent? "/o" = some "/" := by decide +kernel
  have hroot : Path.ancestors "/" = [] := by
    have hnone : Path.parent? "/" = none := by decide +kernel
    rw [Path.ancestors, hnone]
  have hparent : (makeParent "/o" : Run Unit).run fs = (.ok (), fs) := by
    rw [makeParent, habove]
    show (ask _ (FileAccess.makeDirectories "/") : Run Unit).run fs = _
    rw [ask_run, FileAccess.makeDirectories, hroot]
    rfl
  have hopen : (openOutput "/o" : Run Unit).run fs = (.ok (), fs.put [[111]] (.file .empty)) :=
    (bind_run_of_ok hparent).trans (write_run_of_ok (.output "/o") hwrite)
  obtain ⟨-, hwritten, hdone⟩ := run_generate_output "x" hbash rfl fs
  have hzero := hdone _ _ _ _ hprepared hopen
  exact ⟨⟨hfish, hrefused, (run_generate_output "x" hfish rfl fs).1 hrefused⟩,
    hbash, _, _, rfl, hzero, hwritten _ _ rfl hzero⟩

end Program

end CommandLine

end ShellCompletion

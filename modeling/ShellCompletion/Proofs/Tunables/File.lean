import ShellCompletion.Proofs.FileSystem.Writing
import ShellCompletion.Proofs.Yaml.Decode
import ShellCompletion.Tunables.File

/-!
# Tunables are loaded as they were saved

Tunables are saved in lines with a name and a value each, and loading reads a mapping of words from
them. A name that is missing is no fault; its tunable has the default. So the same argument serves
for the whole file and for any choice of its lines.

* **Lines** (`keptLines_eq`): the lines of saved tunables are those of `entries`.
* **Reading** (`reads_decode`): what is kept is read, and the rest has its defaults.
* **Judging** (`judged_ofText`): the ranges are checked in a fixed order.

Main statement: `load_saved`.
-/

namespace ShellCompletion

namespace Tunables

open Yaml

/-! ### Lines -/

/-- A number is a word. -/
theorem isWord_toString (n : Nat) : IsWord (toString n).toList := by
  rw [Nat.toString_eq_ofList_toDigits, String.toList_ofList]
  refine ⟨Nat.toDigits_ne_nil, fun c hc => ?_⟩
  exact isWordChar_of_isDigit (Nat.isDigit_of_mem_toDigits (by decide) (by decide) hc)

/-- Characters of words make a word if there is at least one. -/
theorem isWord_of_all {cs : List Char} (hne : cs ≠ []) (h : cs.all isWordChar = true) :
    IsWord cs :=
  ⟨hne, List.all_eq_true.mp h⟩

/-- Both truth values are words. -/
theorem isWord_truth (value : Bool) : IsWord (if value then "true" else "false").toList := by
  cases value with
  | false => exact isWord_of_all (by decide) (by decide)
  | true => exact isWord_of_all (by decide) (by decide)

/-- The name of a tunable is a word. -/
theorem isWord_of_mem_names {name : String} (h : name ∈ names) : IsWord name.toList := by
  have hne : names.all (fun name => name.toList ≠ []) = true := by decide +kernel
  have hall : names.all (fun name => name.toList.all isWordChar) = true := by decide +kernel
  exact isWord_of_all (by simpa using List.all_eq_true.mp hne name h)
    (List.all_eq_true.mp hall name h)

/-- The name of a tunable is short enough for a key. -/
theorem length_le_of_mem_names {name : String} (h : name ∈ names) :
    name.length ≤ Scanner.maxKeyLength := by
  have hall : names.all (fun name => name.length ≤ Scanner.maxKeyLength) = true := by
    decide +kernel
  simpa using List.all_eq_true.mp hall name h

/-- The entry of a tunable. -/
def entry (name value : String) (hname : name ∈ names) (hvalue : IsWord value.toList) : Entry :=
  ⟨name, value, isWord_of_mem_names hname, length_le_of_mem_names hname, hvalue⟩

/-- The entry of a number. -/
def numberEntry (name : String) (hname : name ∈ names) (n : Nat) : Entry :=
  entry name (toString n) hname (isWord_toString n)

/-- The entries in which tunables are saved. -/
def entries (tunables : Tunables) : List Entry :=
  [entry "fuzzy_enabled" (if tunables.fuzzyEnabled then "true" else "false") (by decide)
      (isWord_truth tunables.fuzzyEnabled),
    numberEntry "max_candidates" (by decide) tunables.maxCandidates.toNat,
    numberEntry "min_pattern_length" (by decide) tunables.minPatternLength.toNat,
    numberEntry "score_threshold" (by decide) tunables.scoreThreshold.toNat,
    numberEntry "max_results" (by decide) tunables.maxResults.toNat,
    numberEntry "cache_max_size" (by decide) tunables.cacheMaxSize.toNat]

/-- Each tunable has an entry, in the order of the names. -/
theorem key_entries (tunables : Tunables) : tunables.entries.map Entry.key = names :=
  rfl

/-- No two entries have the same name. -/
theorem nodup_key_entries (tunables : Tunables) : (tunables.entries.map Entry.key).Nodup := by
  rw [key_entries]
  decide

/-- The lines of saved tunables whose names are kept. -/
def keptLines (keep : String → Bool) (tunables : Tunables) : List String :=
  ((names.zip tunables.lines).filter (keep ·.1)).map Prod.snd

/-- The tunables whose names are kept, and the defaults of all others. -/
def restrict (keep : String → Bool) (tunables : Tunables) : Tunables :=
  let missing : Tunables := {}
  { fuzzyEnabled := if keep "fuzzy_enabled" then tunables.fuzzyEnabled else missing.fuzzyEnabled
    maxCandidates := if keep "max_candidates" then tunables.maxCandidates else missing.maxCandidates
    minPatternLength :=
      if keep "min_pattern_length" then tunables.minPatternLength else missing.minPatternLength
    scoreThreshold :=
      if keep "score_threshold" then tunables.scoreThreshold else missing.scoreThreshold
    maxResults := if keep "max_results" then tunables.maxResults else missing.maxResults
    cacheMaxSize := if keep "cache_max_size" then tunables.cacheMaxSize else missing.cacheMaxSize }

/-- The lines that are kept are those of the entries that are kept. -/
theorem keptLines_eq (keep : String → Bool) (tunables : Tunables) :
    tunables.keptLines keep = (tunables.entries.filter (keep ·.key)).map Entry.line := by
  have hzip : names.zip tunables.lines =
      tunables.entries.map fun entry => (entry.key, entry.line) := rfl
  rw [keptLines, hzip, List.filter_map, List.map_map]
  rfl

/-! ### Reading them -/

/-- A number of 64 bits is read back from its digits. -/
theorem reads_word64 (value : UInt64) :
    Decode.Reads (word64 (Decode.plain (toString value.toNat))) value := by
  refine (Decode.reads_natural value.toNat_lt).bind ?_
  rw [UInt64.ofNat_toNat]
  exact .pure value

/-- A number of 32 bits is read back from its digits. -/
theorem reads_word32 (value : UInt32) :
    Decode.Reads (word32 (Decode.plain (toString value.toNat))) value := by
  refine (Decode.reads_natural value.toNat_lt).bind ?_
  rw [UInt32.ofNat_toNat]
  exact .pure value

/-- The names with the words that are saved under them. -/
theorem words_entries (tunables : Tunables) :
    tunables.entries.map (fun entry => (entry.key, entry.value)) =
      [("fuzzy_enabled", if tunables.fuzzyEnabled then "true" else "false"),
        ("max_candidates", toString tunables.maxCandidates.toNat),
        ("min_pattern_length", toString tunables.minPatternLength.toNat),
        ("score_threshold", toString tunables.scoreThreshold.toNat),
        ("max_results", toString tunables.maxResults.toNat),
        ("cache_max_size", toString tunables.cacheMaxSize.toNat)] :=
  rfl

/-- A tunable is read from what is kept, or it has its default. -/
theorem reads_kept {α : Type} (keep : String → Bool) {tunables : Tunables} {name text : String}
    {reader : Yaml.Node → Decode α} {value missing : α}
    (h : (name, text) ∈ tunables.entries.map fun entry => (entry.key, entry.value))
    (hreads : Decode.Reads (reader (Decode.plain text)) value) :
    Decode.Reads
      (Decode.field (Decode.fieldsOf (tunables.entries.filter (keep ·.key))) name (some missing)
        reader)
      (if keep name then value else missing) := by
  obtain ⟨entry, hentry, heq⟩ := List.mem_map.mp h
  obtain ⟨rfl, rfl⟩ := Prod.mk.inj heq
  exact Decode.reads_field
    (Decode.lookup_fieldsOf_filter (nodup_key_entries tunables) hentry keep) hreads

/-- What is kept is read, and the rest has its defaults. -/
theorem reads_decode (keep : String → Bool) (tunables : Tunables) :
    Decode.Reads
      (decode (.mapping none ((tunables.entries.filter (keep ·.key)).map Entry.nodes)))
      (tunables.restrict keep) := by
  have hkept : ((tunables.entries.filter (keep ·.key)).map Entry.key).Nodup :=
    (nodup_key_entries tunables).sublist (List.filter_sublist.map Entry.key)
  have hnames : ∀ entry ∈ tunables.entries.filter (keep ·.key), entry.key ∈ names := by
    intro entry hentry
    rw [← key_entries tunables]
    exact List.mem_map_of_mem (List.mem_of_mem_filter hentry)
  have hwords := words_entries tunables
  refine (Decode.reads_fields (by decide) hkept hnames).bind ?_
  refine (reads_kept keep (by simp [hwords]) (Decode.reads_bool tunables.fuzzyEnabled)).bind ?_
  refine (reads_kept keep (by simp [hwords]) (reads_word64 tunables.maxCandidates)).bind ?_
  refine (reads_kept keep (by simp [hwords]) (reads_word64 tunables.minPatternLength)).bind ?_
  refine (reads_kept keep (by simp [hwords]) (reads_word32 tunables.scoreThreshold)).bind ?_
  refine (reads_kept keep (by simp [hwords]) (reads_word64 tunables.maxResults)).bind ?_
  refine (reads_kept keep (by simp [hwords]) (reads_word64 tunables.cacheMaxSize)).bind ?_
  exact .pure _

/-- The lines that are kept give these tunables back, and those of the others their defaults. -/
theorem ofText?_keptLines {keep : String → Bool} {tunables : Tunables}
    (h : tunables.keptLines keep ≠ []) :
    ofText? (Text.ofLines (tunables.keptLines keep)) = some (tunables.restrict keep) := by
  rw [keptLines_eq] at h ⊢
  have hne : tunables.entries.filter (keep ·.key) ≠ [] := fun heq => h (by rw [heq]; rfl)
  have hreads := reads_decode keep tunables
    (Entry.document (tunables.entries.filter (keep ·.key))) 0
  rw [ofText?, read?_ofLines hne]
  show Option.map (·.1) (decode _ _ 0) = _
  rw [hreads]
  rfl

/-! ### Loading -/

/-- What loading answers for tunables that are in a file. They are loaded if they pass the check;
if not, the answer names the first that is out of its range, in a fixed order. -/
structure Judged (tunables : Tunables) (answer : Except Error Tunables) : Prop where
  accepted : tunables.check = .ok () → answer = .ok tunables
  maxCandidates : tunables.maxCandidates = 0 → answer = .error (.outOfRange .maxCandidates)
  maxResults : tunables.maxCandidates ≠ 0 → tunables.maxResults = 0 →
    answer = .error (.outOfRange .maxResults)
  scoreThreshold : tunables.maxCandidates ≠ 0 → tunables.maxResults ≠ 0 →
    100 < tunables.scoreThreshold →
      answer = .error (.outOfRange (.scoreThreshold tunables.scoreThreshold))

section Text

variable {text : String} {tunables : Tunables} (h : ofText? text = some tunables)

include h

/-- Tunables within their ranges are taken as they are read. -/
theorem ofText_of_check_eq_ok (hcheck : tunables.check = .ok ()) :
    ofText text = .ok tunables := by
  unfold ofText
  simp only [h, hcheck]
  rfl

/-- Tunables out of their ranges are refused, with the cause that the check gives. -/
theorem ofText_of_check_eq_error {cause : OutOfRange} (hcheck : tunables.check = .error cause) :
    ofText text = .error (.outOfRange cause) := by
  unfold ofText
  simp only [h, hcheck]
  rfl

/-- What is read from a text is judged. -/
theorem judged_ofText : Judged tunables (ofText text) where
  accepted hcheck := ofText_of_check_eq_ok h hcheck
  maxCandidates hzero := ofText_of_check_eq_error h (by rw [check, if_pos hzero])
  maxResults hpos hzero := ofText_of_check_eq_error h (by rw [check, if_neg hpos, if_pos hzero])
  scoreThreshold hpos hpos' hlt :=
    ofText_of_check_eq_error h (by rw [check, if_neg hpos, if_neg hpos', if_pos hlt])

end Text

/-- Loading a file is reading its text and then the tunables in it. -/
theorem load_of_read {fs : FileSystem} {path text : String}
    (h : fs.read (pathBytes path) = .ok text.toUTF8) :
    (load path : StateM FileSystem (Except Error Tunables)) fs = (ofText text, fs) := by
  rw [load, FileSystem.bind_apply, FileSystem.readText_of_read h]
  rfl

/-- Saving is one writing of the whole text. -/
theorem save_apply (tunables : Tunables) (path : String) (fs : FileSystem) :
    (save tunables path : StateM FileSystem (Except FileError Unit)) fs =
      FileSystem.change (·.write (pathBytes path) tunables.toText.toUTF8) fs :=
  rfl

/-- What has been saved is read. -/
theorem read_of_save {tunables : Tunables} {path : String} {fs fs' : FileSystem}
    (h : (save tunables path : StateM FileSystem (Except FileError Unit)) fs = (.ok (), fs')) :
    fs'.read (pathBytes path) = .ok tunables.toText.toUTF8 := by
  rw [save_apply] at h
  exact FileSystem.read_of_write (FileSystem.ok_of_change h)

/-- Tunables can be saved wherever a file can be written. -/
theorem exists_save (tunables : Tunables) {path : String} {fs opened : FileSystem}
    (h : fs.write (pathBytes path) .empty = .ok opened) :
    ∃ fs', (save tunables path : StateM FileSystem (Except FileError Unit)) fs =
      (.ok (), fs') := by
  obtain ⟨fs', hwrite⟩ := FileSystem.exists_write_of_write h tunables.toText.toUTF8
  exact ⟨fs', (save_apply tunables path fs).trans (FileSystem.change_of_ok hwrite)⟩

/-- All lines are kept if nothing is left out. -/
theorem keptLines_all (tunables : Tunables) :
    tunables.keptLines (fun _ => true) = tunables.lines :=
  rfl

/-- All tunables are kept if nothing is left out. -/
theorem restrict_all (tunables : Tunables) : tunables.restrict (fun _ => true) = tunables :=
  rfl

/-- **Tunables are loaded as they were saved.** Whatever they are, they are saved wherever a file
can be written. Then they are loaded from that file or, if one is out of its range, the first that
is so is named. If only some of the lines are kept, the tunables of the others have their defaults,
and these are judged likewise. -/
theorem load_saved (tunables : Tunables) (path : String) :
    (∀ fs opened : FileSystem, fs.write (pathBytes path) .empty = .ok opened →
      ∃ fs', (save tunables path : StateM FileSystem (Except FileError Unit)) fs =
        (.ok (), fs')) ∧
    (∀ fs fs' : FileSystem,
      (save tunables path : StateM FileSystem (Except FileError Unit)) fs = (.ok (), fs') →
        ∃ answer, (load path : StateM FileSystem (Except Error Tunables)) fs' = (answer, fs') ∧
          Judged tunables answer) ∧
    ∀ keep : String → Bool, tunables.keptLines keep ≠ [] → ∀ fs : FileSystem,
      fs.read (pathBytes path) = .ok (Text.ofLines (tunables.keptLines keep)).toUTF8 →
        ∃ answer, (load path : StateM FileSystem (Except Error Tunables)) fs = (answer, fs) ∧
          Judged (tunables.restrict keep) answer := by
  have hkept : ∀ keep : String → Bool, tunables.keptLines keep ≠ [] → ∀ fs : FileSystem,
      fs.read (pathBytes path) = .ok (Text.ofLines (tunables.keptLines keep)).toUTF8 →
        ∃ answer, (load path : StateM FileSystem (Except Error Tunables)) fs = (answer, fs) ∧
          Judged (tunables.restrict keep) answer := by
    intro keep hne fs hread
    exact ⟨_, load_of_read hread, judged_ofText (ofText?_keptLines hne)⟩
  refine ⟨fun fs opened hopen => exists_save tunables hopen, fun fs fs' hsave => ?_, hkept⟩
  -- the whole file is the case in which all lines are kept
  have hall := hkept (fun _ => true)
  rw [keptLines_all, restrict_all] at hall
  exact hall (List.cons_ne_nil _ _) fs' (read_of_save hsave)

/-- A threshold that is out of its range beside the greatest number of candidates. Both are saved;
if only the line of the number is kept, it is loaded. -/
theorem load_saved_threshold :
    let tunables : Tunables := { maxCandidates := 18446744073709551615, scoreThreshold := 101 }
    let keep (name : String) : Bool := name == "max_candidates"
    let holding (bytes : ByteArray) : FileSystem :=
      { entries := [([[99]], .file bytes)] }
    let saved := holding tunables.toText.toUTF8
    let kept := holding (Text.ofLines (tunables.keptLines keep)).toUTF8
    (save tunables "c" : StateM FileSystem (Except FileError Unit)) (holding .empty) =
        (.ok (), saved) ∧
      (load "c" : StateM FileSystem (Except Error Tunables)) saved =
        (.error (.outOfRange (.scoreThreshold 101)), saved) ∧
      (load "c" : StateM FileSystem (Except Error Tunables)) kept =
        (.ok { maxCandidates := 18446744073709551615 }, kept) := by
  intro tunables keep holding saved kept
  have hpath : pathBytes "c" = [99] := by decide +kernel
  have hlocate (bytes : ByteArray) :
      (holding bytes).locate (pathBytes "c") = .ok (.found [[99]] (.file bytes)) := by
    rw [hpath]
    exact FileSystem.locate_single rfl rfl (by decide) (by decide) (by decide) rfl rfl
  have hwrite (bytes bytes' : ByteArray) :
      (holding bytes).write (pathBytes "c") bytes' = .ok (holding bytes') := by
    rw [FileSystem.write_of_locate (by rw [hpath]; rfl) (hlocate bytes) (.inr ⟨bytes, rfl⟩)]
    rfl
  have hsave : (save tunables "c" : StateM FileSystem (Except FileError Unit)) (holding .empty) =
      (.ok (), saved) := by
    rw [save_apply]
    exact FileSystem.change_of_ok (hwrite _ _)
  obtain ⟨-, hsaved, hkept⟩ := load_saved tunables "c"
  obtain ⟨answer, hload, hjudged⟩ := hsaved _ _ hsave
  obtain ⟨answer', hload', hjudged'⟩ := hkept keep (by decide) kept
    (FileSystem.read_of_locate (hlocate _))
  refine ⟨hsave, ?_, ?_⟩
  · rw [hload, hjudged.scoreThreshold (by decide) (by decide) (by decide)]
  · rw [hload', hjudged'.accepted rfl]
    rfl

end Tunables

end ShellCompletion

import IndexFleet.ClusterCommand.Plan
import IndexFleet.Proofs.FileTree.Resolution
import IndexFleet.Proofs.Text.ByteOrder
import Mathlib.Data.List.Nodup

namespace IndexFleet.FileTree

variable {tree other : FileTree} {location : Location} {path name : String} {entry : FileEntry}

theorem IsSound.entry?_eq_some_iff (hsound : tree.IsSound) (hbelow : location ≠ []) :
    tree.entry? location = some entry ↔ (location, entry) ∈ tree.entries := by
  have hlookup : tree.entry? location = tree.entries.lookup location := by
    cases location with
    | nil => exact absurd rfl hbelow
    | cons first rest => rfl
  rw [hlookup]
  refine ⟨fun hfound => ?_, lookup_of_mem hsound.distinct⟩
  obtain ⟨before, after, hentries, _⟩ := List.lookup_eq_some_iff.mp hfound
  rw [hentries]
  exact List.mem_append_right before List.mem_cons_self

theorem IsSound.mem_fileNames_iff (hsound : tree.IsSound) :
    name ∈ tree.fileNames location ↔
      ∃ data, tree.entry? (location ++ [name]) = some (.file data) := by
  rw [FileTree.mem_fileNames_iff]
  refine exists_congr fun data => (hsound.entry?_eq_some_iff ?_).symm
  exact List.append_ne_nil_of_right_ne_nil _ (List.cons_ne_nil _ _)

theorem nodup_filterMap_fileNameAt {entries : List (Location × FileEntry)}
    (hdistinct : (entries.map (·.1)).Nodup) :
    (entries.filterMap (fileNameAt location)).Nodup := by
  induction entries with
  | nil => exact List.nodup_nil
  | cons first rest ih =>
      obtain ⟨hfirst, hrest⟩ := List.nodup_cons.mp hdistinct
      cases hname : fileNameAt location first with
      | none => simpa [hname] using ih hrest
      | some name =>
          rw [List.filterMap_cons_some hname]
          refine List.nodup_cons.mpr ⟨fun hmem => hfirst ?_, ih hrest⟩
          obtain ⟨second, hsecond, hsame⟩ := List.mem_filterMap.mp hmem
          obtain ⟨hplace, -⟩ := fileNameAt_eq_some_iff.mp hname
          obtain ⟨hother, -⟩ := fileNameAt_eq_some_iff.mp hsame
          exact List.mem_map.mpr ⟨second, hsecond, hother.trans hplace.symm⟩

theorem pairwise_fileNames_le (tree : FileTree) (location : Location) :
    (tree.fileNames location).Pairwise (· ≤ ·) := by
  have hsorted : (tree.fileNames location).Pairwise fun a b => decide (a ≤ b) = true :=
    List.pairwise_mergeSort
      (by simpa only [decide_eq_true_eq] using fun _ _ _ => String.le_trans)
      (by simpa only [Bool.or_eq_true, decide_eq_true_eq] using String.le_total) _
  simpa only [decide_eq_true_eq] using hsorted

theorem IsSound.nodup_fileNames (hsound : tree.IsSound) (location : Location) :
    (tree.fileNames location).Nodup :=
  (perm_fileNames tree location).nodup_iff.mpr (nodup_filterMap_fileNameAt hsound.distinct)

-- The names of files are in the order of their bytes, and none of them comes twice.
theorem IsSound.pairwise_fileNames (hsound : tree.IsSound) (location : Location) :
    (tree.fileNames location).Pairwise fun name other => Text.utf8 name < Text.utf8 other := by
  refine List.Pairwise.imp₂ (fun name other hle hne => ?_)
    (pairwise_fileNames_le tree location) (hsound.nodup_fileNames location)
  refine Text.utf8_lt_utf8 (String.not_le.mp fun hback => hne ?_)
  exact String.le_antisymm hle hback

section Order

variable (hhome : other.home = tree.home)

theorem IsSound.of_perm (hsound : tree.IsSound) (hperm : other.entries.Perm tree.entries) :
    other.IsSound where
  distinct := (hperm.map _).nodup_iff.mpr hsound.distinct
  names entry hentry := hsound.names entry (hperm.mem_iff.mp hentry)

theorem IsSound.entry?_of_perm (hsound : tree.IsSound) (hperm : other.entries.Perm tree.entries)
    (location : Location) : other.entry? location = tree.entry? location := by
  by_cases hbelow : location = []
  · rw [hbelow]
    rfl
  · refine Option.ext fun entry => ?_
    rw [(hsound.of_perm hperm).entry?_eq_some_iff hbelow, hsound.entry?_eq_some_iff hbelow,
      hperm.mem_iff]

theorem fileNames_of_perm (hperm : other.entries.Perm tree.entries) (location : Location) :
    other.fileNames location = tree.fileNames location := by
  have hnames : (other.fileNames location).Perm (tree.fileNames location) :=
    ((perm_fileNames other location).trans (hperm.filterMap _)).trans
      (perm_fileNames tree location).symm
  exact hnames.eq_of_pairwise (fun _ _ _ _ => String.le_antisymm)
    (pairwise_fileNames_le other location) (pairwise_fileNames_le tree location)

-- A walk asks for nothing but entries.
theorem Moves.congr {count : Nat} {here place : Location} {names left : List String}
    (hmoves : Moves tree count here names place left)
    (hentries : ∀ location, other.entry? location = tree.entry? location) :
    Moves other count here names place left := by
  induction hmoves with
  | stay => exact .stay
  | same hplace _ ih => exact .same (hentries _ ▸ hplace) ih
  | up hplace _ ih => exact .up (hentries _ ▸ hplace) ih
  | down hplace hname hentry hlink _ ih =>
      exact .down (hentries _ ▸ hplace) hname (hentries _ ▸ hentry) hlink ih
  | follow hplace hname hentry _ ih =>
      exact .follow (hentries _ ▸ hplace) hname (hentries _ ▸ hentry) ih

theorem Ends.congr {links : Nat} {here : Location} {names : List String}
    {outcome : Except FileFault Location} (hends : Ends tree links here names outcome)
    (hentries : ∀ location, other.entry? location = tree.entry? location) :
    Ends other links here names outcome := by
  cases hends with
  | there => exact .there
  | notDirectory hplace => exact .notDirectory (hentries _ ▸ hplace)
  | tooLong hplace hname hlong => exact .tooLong (hentries _ ▸ hplace) hname hlong
  | missing hplace hname hentry => exact .missing (hentries _ ▸ hplace) hname (hentries _ ▸ hentry)
  | looping hplace hname hentry => exact .looping (hentries _ ▸ hplace) hname (hentries _ ▸ hentry)

include hhome

theorem find_congr (hentries : ∀ location, other.entry? location = tree.entry? location)
    (path : String) : other.find path = tree.find path := by
  have hwalk : ∀ links here names, walk other links here names = walk tree links here names := by
    intro links here names
    obtain ⟨count, rest, place, left, hlinks, hmoves, hends⟩ :=
      walk_eq_iff.mp (rfl : walk tree links here names = _)
    exact walk_eq_iff.mpr
      ⟨count, rest, place, left, hlinks, hmoves.congr hentries, hends.congr hentries⟩
  simp only [find, locate, current, hwalk, hentries, hhome]

variable (hsound : tree.IsSound) (hperm : other.entries.Perm tree.entries)

include hsound hperm

theorem inputFiles_of_perm (path : String) : other.inputFiles path = tree.inputFiles path := by
  simp only [inputFiles, find_congr hhome (hsound.entry?_of_perm hperm),
    fileNames_of_perm hperm]

-- The order of the entries is of no account to a plan.
theorem plan_of_perm (command : ClusterCommand) : command.plan other = command.plan tree := by
  have hread : ∀ path, other.content path = tree.content path := by
    simp only [content, find_congr hhome (hsound.entry?_of_perm hperm), implies_true]
  have hsource : ∀ path, Source.ofFile other path = Source.ofFile tree path := by
    simp only [Source.ofFile, hread, implies_true]
  have hadd : command.addFile other = command.addFile tree :=
    funext₂ fun targets path => by rw [ClusterCommand.addFile, hsource, ClusterCommand.addFile]
  have hdelete : command.deleteFile other = command.deleteFile tree :=
    funext₂ fun targets path => by
      rw [ClusterCommand.deleteFile, hsource, ClusterCommand.deleteFile]
  simp only [ClusterCommand.plan, ClusterCommand.planFor, ClusterCommand.forSources, hadd, hdelete,
    inputFiles_of_perm hhome hsound hperm]

end Order

section Outcome

variable (hleads : tree.Leads path location entry)

include hleads

theorem inputFiles_of_file {content : FileContent} (hentry : entry = .file content) :
    (tree.inputFiles path).1 = .ok [path] := by
  subst hentry
  simp only [inputFiles, find_eq_ok_iff.mpr hleads]

theorem inputFiles_of_directory (hentry : entry = .directory) :
    (tree.inputFiles path).1 =
      if tree.fileNames location = [] then .error (.noInputFiles path)
      else .ok ((tree.fileNames location).map (join path)) := by
  subst hentry
  simp only [inputFiles, find_eq_ok_iff.mpr hleads, List.isEmpty_iff]
  split <;> rfl

theorem inputFiles_of_other (hfile : ∀ data, entry ≠ .file data) (hdirectory : entry ≠ .directory) :
    (tree.inputFiles path).1 = .error (.io FileFault.notDirectory.message) := by
  simp only [inputFiles, find_eq_ok_iff.mpr hleads]
  cases entry with
  | file data => exact absurd rfl (hfile data)
  | directory => exact absurd rfl hdirectory
  | link | device => rfl

end Outcome

theorem inputFiles_of_nowhere (hnowhere : ∀ location entry, ¬tree.Leads path location entry) :
    (tree.inputFiles path).1 = .error (.noInputFiles path) := by
  obtain ⟨fault, hfault⟩ := exists_fault_iff.mpr hnowhere
  simp only [inputFiles, hfault]

theorem IsSound.fileNames_eq_nil_iff (hsound : tree.IsSound) :
    tree.fileNames location = [] ↔
      ∀ name data, tree.entry? (location ++ [name]) ≠ some (.file data) := by
  simp only [List.eq_nil_iff_forall_not_mem, hsound.mem_fileNames_iff, not_exists, ne_eq]

theorem IsSound.noInputFiles_iff (hsound : tree.IsSound) {named : String} :
    (tree.inputFiles path).1 = .error (.noInputFiles named) ↔ named = path ∧
      ((∀ location entry, ¬tree.Leads path location entry) ∨
        ∃ location, tree.Leads path location .directory ∧
          ∀ name data, tree.entry? (location ++ [name]) ≠ some (.file data)) := by
  constructor
  · intro hresult
    by_cases hnowhere : ∀ location entry, ¬tree.Leads path location entry
    · rw [inputFiles_of_nowhere hnowhere] at hresult
      cases hresult
      exact ⟨rfl, .inl hnowhere⟩
    · push Not at hnowhere
      obtain ⟨location, entry, hleads⟩ := hnowhere
      cases entry with
      | file data => cases (inputFiles_of_file hleads rfl).symm.trans hresult
      | link target =>
          cases (inputFiles_of_other hleads (fun _ => by simp) (by simp)).symm.trans hresult
      | device => cases (inputFiles_of_other hleads (fun _ => by simp) (by simp)).symm.trans hresult
      | directory =>
          rw [inputFiles_of_directory hleads rfl] at hresult
          split at hresult
          case isFalse => cases hresult
          case isTrue hnone =>
              cases hresult
              exact ⟨rfl, .inr ⟨location, hleads, hsound.fileNames_eq_nil_iff.mp hnone⟩⟩
  · rintro ⟨rfl, hnowhere | ⟨location, hleads, hnone⟩⟩
    · exact inputFiles_of_nowhere hnowhere
    · rw [inputFiles_of_directory hleads rfl, if_pos (hsound.fileNames_eq_nil_iff.mpr hnone)]

-- Below a directory the joined path of a file leads to it, unless it is too long.
theorem IsSound.leads_join (hsound : tree.IsSound) {content : FileContent}
    (hleads : tree.Leads path location .directory)
    (hfile : tree.entry? (location ++ [name]) = some (.file content))
    (hshort : (join path name).utf8ByteSize < maxPath) :
    tree.Leads (join path name) (location ++ [name]) (.file content) := by
  have hname := hsound.isName_of_mem_fileNames (hsound.mem_fileNames_iff.mpr ⟨content, hfile⟩)
  have hlocate := locate_join (find_eq_ok_iff.mpr hleads) hname hfile hshort
  exact ⟨locate_eq_iff.mp hlocate, hfile⟩

theorem inputFiles_of_circle {count links : Nat} {here : Location} {names more : List String}
    (hmoves : Moves tree links (start tree path) (steps path) here names)
    (hcircle : Moves tree (count + 1) here names here (names ++ more)) :
    (tree.inputFiles path).1 = .error (.noInputFiles path) := by
  have hwalk : walk tree maxLinks (start tree path) (steps path) = .error .linkLoop := by
    by_cases hfew : maxLinks < links
    · exact walk_of_few hmoves hfew
    · obtain ⟨rest, hrest⟩ := Nat.exists_eq_add_of_le (Nat.not_lt.mp hfew)
      rw [hrest, walk_of_moves hmoves, walk_of_circle hcircle]
  refine inputFiles_of_nowhere fun location entry hleads => ?_
  cases hleads.1 with
  | walked _ _ _ hlinks hgoes hends =>
      cases hwalk.symm.trans (walk_eq_iff.mpr ⟨_, _, _, _, hlinks, hgoes, hends⟩)

-- The input files behind a path. What it leads to is found with every link followed, but a link in
-- a directory is no file of it. Names are in the order of their bytes, whatever the order in which
-- the directory is told.
structure ListsInputs (tree : FileTree) (path : String) : Prop where
  resolved : ∀ outcome, tree.locate path = outcome ↔ tree.Resolves path outcome
  file : ∀ location data, tree.Leads path location (.file data) →
    (tree.inputFiles path).1 = .ok [path]
  directory : ∀ location, tree.Leads path location .directory →
    (∃ name data, tree.entry? (location ++ [name]) = some (.file data)) →
      ∃ names : List String, (tree.inputFiles path).1 = .ok (names.map (join path)) ∧
        (∀ name, name ∈ names ↔
          ∃ data, tree.entry? (location ++ [name]) = some (.file data)) ∧
        names.Pairwise fun name other => Text.utf8 name < Text.utf8 other
  joined : ∀ location name data, tree.Leads path location .directory →
    tree.entry? (location ++ [name]) = some (.file data) →
      (join path name).utf8ByteSize < maxPath →
        tree.Leads (join path name) (location ++ [name]) (.file data)
  missing : ∀ named, (tree.inputFiles path).1 = .error (.noInputFiles named) ↔ named = path ∧
    ((∀ location entry, ¬tree.Leads path location entry) ∨
      ∃ location, tree.Leads path location .directory ∧
        ∀ name data, tree.entry? (location ++ [name]) ≠ some (.file data))
  circle : ∀ links count here names more,
    Moves tree links (start tree path) (steps path) here names →
      Moves tree (count + 1) here names here (names ++ more) →
        (tree.inputFiles path).1 = .error (.noInputFiles path)
  other : ∀ location entry, tree.Leads path location entry → (∀ data, entry ≠ .file data) →
    entry ≠ .directory → ∃ reason, (tree.inputFiles path).1 = .error (.io reason)
  anyOrder : ∀ other : FileTree, other.home = tree.home → other.entries.Perm tree.entries →
    other.inputFiles path = tree.inputFiles path ∧
      ∀ command : ClusterCommand, command.plan other = command.plan tree

theorem listsInputs_of_isSound (hsound : tree.IsSound) (path : String) :
    tree.ListsInputs path where
  resolved _ := locate_eq_iff
  file _ _ hleads := inputFiles_of_file hleads rfl
  directory location hleads := by
    rintro ⟨name, data, hfile⟩
    have hgiven : tree.fileNames location ≠ [] :=
      List.ne_nil_of_mem (hsound.mem_fileNames_iff.mpr ⟨data, hfile⟩)
    refine ⟨tree.fileNames location, ?_, fun _ => hsound.mem_fileNames_iff,
      hsound.pairwise_fileNames location⟩
    rw [inputFiles_of_directory hleads rfl, if_neg hgiven]
  joined _ _ _ := hsound.leads_join
  missing _ := hsound.noInputFiles_iff
  circle _ _ _ _ _ := inputFiles_of_circle
  other _ _ hleads hfile hdirectory := ⟨_, inputFiles_of_other hleads hfile hdirectory⟩
  anyOrder _ hhome hperm :=
    ⟨inputFiles_of_perm hhome hsound hperm path, plan_of_perm hhome hsound hperm⟩

-- A directory behind a link, with files, a directory that has a file, and a link to a file.
def linked : FileTree :=
  ⟨[(["d", "b"], .file ⟨[], none⟩), (["d", "sub", "c"], .file ⟨[], none⟩), (["d"], .directory),
    (["d", "link"], .link "b"), (["d", "sub"], .directory), (["to"], .link "d"),
    (["d", "a"], .file ⟨[], none⟩)], []⟩

theorem listsInputs_linked :
    linked.IsSound ∧ linked.ListsInputs "to" ∧
      (linked.inputFiles "to").1 = .ok ["to/a", "to/b"] := by
  have hname : ∀ entry ∈ linked.entries, ∀ name ∈ entry.1, IsName name := by
    have hall : ∀ entry ∈ linked.entries, ∀ name ∈ entry.1, name ≠ "" ∧ '/' ∉ name.toList ∧
        '\x00' ∉ name.toList ∧ name ≠ "." ∧ name ≠ ".." ∧ name.utf8ByteSize ≤ maxName := by
      decide
    intro entry hentry name hmem
    obtain ⟨hgiven, hsingle, hproper, hhere, hup, hshort⟩ := hall entry hentry name hmem
    exact ⟨hgiven, hsingle, hproper, hhere, hup, hshort⟩
  have hsound : linked.IsSound :=
    ⟨by decide, fun entry hentry => ⟨by revert entry; decide, hname entry hentry⟩⟩
  have hleads : linked.Leads "to" ["d"] .directory := by
    have hsteps : steps "to" = ["to"] ∧ steps "d" ++ [] = ["d"] := by decide
    have hlink : linked.entry? ["to"] = some (.link "d") := rfl
    have hdirectory : linked.entry? ["d"] = some .directory := rfl
    have hmoves : Moves linked 1 (start linked "to") (steps "to") ["d"] [] := by
      rw [hsteps.1]
      refine .follow rfl (by decide) hlink ?_
      rw [hsteps.2]
      exact .down rfl (by decide) hdirectory (by simp) .stay
    exact ⟨.walked (by decide) (by decide) (by decide) (rfl : 1 + 39 = maxLinks) hmoves .there, rfl⟩
  have hnames : linked.fileNames ["d"] = ["a", "b"] := by
    simp [fileNames, children, linked, List.mergeSort]
  refine ⟨hsound, listsInputs_of_isSound hsound "to", ?_⟩
  rw [inputFiles_of_directory hleads rfl, hnames]
  decide

end IndexFleet.FileTree

import IndexFleet.Source
import IndexFleet.Source.Listing
import Mathlib.Data.List.Basic

namespace IndexFleet.FileTree

-- A name that something in a directory can have.
structure IsName (name : String) : Prop where
  given : name ≠ ""
  single : '/' ∉ name.toList
  proper : '\x00' ∉ name.toList
  not_here : name ≠ "."
  not_up : name ≠ ".."
  short : name.utf8ByteSize ≤ maxName

-- A tree as a file system has it: there is one thing at each place below the root, under names.
structure IsSound (tree : FileTree) : Prop where
  distinct : (tree.entries.map (·.1)).Nodup
  names : ∀ entry ∈ tree.entries, entry.1 ≠ [] ∧ ∀ name ∈ entry.1, IsName name

variable {tree : FileTree} {location : Location} {path name : String}

theorem lookup_of_mem {entries : List (Location × FileEntry)} {entry : FileEntry}
    (hdistinct : (entries.map (·.1)).Nodup) (hmem : (location, entry) ∈ entries) :
    entries.lookup location = some entry := by
  induction entries with
  | nil => exact nomatch hmem
  | cons first rest ih =>
      obtain ⟨hfirst, hrest⟩ := List.nodup_cons.mp hdistinct
      rcases List.mem_cons.mp hmem with rfl | hmore
      · simp
      · have hother : (location == first.1) = false := by
          refine beq_eq_false_iff_ne.mpr fun hsame => hfirst ?_
          exact List.mem_map.mpr ⟨(location, entry), hmore, hsame⟩
        rw [List.lookup_cons, hother]
        exact ih hrest hmore

-- The name under which an entry is a file of a directory.
def fileNameAt (location : Location) (entry : Location × FileEntry) : Option String :=
  match entry.1.getLast?, entry.2 with
  | some name, .file _ => if entry.1.dropLast == location then some name else none
  | _, _ => none

theorem fileNameAt_eq_some_iff {entry : Location × FileEntry} :
    fileNameAt location entry = some name ↔
      entry.1 = location ++ [name] ∧ ∃ data, entry.2 = .file data := by
  constructor
  · intro hname
    unfold fileNameAt at hname
    split at hname
    case h_1 last data hlast hfile =>
        have hwhole : entry.1.dropLast ++ [last] = entry.1 :=
          List.dropLast_append_getLast? last hlast
        simp only [beq_iff_eq, Option.ite_none_right_eq_some, Option.some_inj] at hname
        obtain ⟨rfl, rfl⟩ := hname
        exact ⟨hwhole.symm, data, hfile⟩
    case h_2 => cases hname
  · rintro ⟨hplace, data, hfile⟩
    simp [fileNameAt, hplace, hfile]

theorem perm_fileNames (tree : FileTree) (location : Location) :
    (tree.fileNames location).Perm (tree.entries.filterMap (fileNameAt location)) := by
  refine (List.mergeSort_perm _ _).trans (List.Perm.of_eq ?_)
  rw [children, List.filterMap_filterMap]
  refine List.filterMap_congr fun entry _ => ?_
  obtain ⟨place, found⟩ := entry
  cases hlast : place.getLast? with
  | none => simp [fileNameAt, hlast]
  | some last => cases found <;> by_cases hplace : place.dropLast = location <;>
      simp [fileNameAt, hlast, hplace]

theorem mem_fileNames_iff :
    name ∈ tree.fileNames location ↔
      ∃ data, (location ++ [name], FileEntry.file data) ∈ tree.entries := by
  rw [(perm_fileNames tree location).mem_iff, List.mem_filterMap]
  simp only [fileNameAt_eq_some_iff]
  constructor
  · rintro ⟨⟨place, found⟩, hmem, rfl, data, rfl⟩
    exact ⟨data, hmem⟩
  · rintro ⟨data, hmem⟩
    exact ⟨_, hmem, rfl, data, rfl⟩

theorem IsSound.isName_of_mem_fileNames (hsound : tree.IsSound)
    (hname : name ∈ tree.fileNames location) : IsName name := by
  obtain ⟨data, hmem⟩ := mem_fileNames_iff.mp hname
  exact (hsound.names _ hmem).2 name (List.mem_append_right _ List.mem_cons_self)

theorem IsSound.entry?_of_mem_fileNames (hsound : tree.IsSound)
    (hname : name ∈ tree.fileNames location) :
    ∃ data, tree.entry? (location ++ [name]) = some (.file data) := by
  obtain ⟨data, hmem⟩ := mem_fileNames_iff.mp hname
  refine ⟨data, ?_⟩
  cases location with
  | nil => exact lookup_of_mem hsound.distinct hmem
  | cons first rest => exact lookup_of_mem hsound.distinct hmem

-- The names of a path that are not empty.
def namesOf (path : String) : List String :=
  ((path.toList.splitOn '/').map String.ofList).filter (!·.isEmpty)

theorem join_of_slash (hslash : path.toList.getLast? = some '/') :
    join path name = path ++ name := by
  simp only [join, hslash, beq_self_eq_true, if_true]

theorem join_of_no_slash (hslash : path.toList.getLast? ≠ some '/') :
    join path name = path ++ "/" ++ name := by
  rw [join, if_neg (by simpa using hslash)]

theorem namesOf_of_split {front last : List Char} (hpath : path.toList = front ++ '/' :: last)
    (hsingle : '/' ∉ last) :
    namesOf path = ((front.splitOn '/').map String.ofList).filter (!·.isEmpty) ++
      [String.ofList last].filter (!·.isEmpty) := by
  rw [namesOf, hpath, List.splitOn_append_cons_self, List.splitOn_eq_singleton hsingle,
    List.map_append, List.filter_append, List.map_singleton]

theorem steps_join (hgiven : name ≠ "") (hsingle : '/' ∉ name.toList) :
    steps (join path name) = namesOf path ++ [name] := by
  have hletters : name.toList ≠ [] := by simpa using hgiven
  have hkept : [name].filter (!·.isEmpty) = [name] := by simp [hgiven]
  have hsplit : ∃ front, (join path name).toList = front ++ '/' :: name.toList ∧
      namesOf path = ((front.splitOn '/').map String.ofList).filter (!·.isEmpty) := by
    by_cases hslash : path.toList.getLast? = some '/'
    · have hpath : path.toList.dropLast ++ ['/'] = path.toList :=
        List.dropLast_append_getLast? '/' hslash
      refine ⟨path.toList.dropLast, ?_, ?_⟩
      · rw [join_of_slash hslash, String.toList_append, List.append_cons, hpath]
      · rw [namesOf_of_split hpath.symm List.not_mem_nil]
        simp
    · refine ⟨path.toList, ?_, rfl⟩
      rw [join_of_no_slash hslash]
      simp
  obtain ⟨front, hjoin, hnames⟩ := hsplit
  have hlast : (join path name).toList.getLast? ≠ some '/' := by
    rw [hjoin, List.append_cons, List.getLast?_append_of_ne_nil _ hletters]
    exact fun hslash => hsingle (List.mem_of_getLast? hslash)
  have hsteps : steps (join path name) = namesOf (join path name) ++
    (if (join path name).toList.getLast? == some '/' then ["."] else []) := rfl
  rw [hsteps, if_neg (by simpa using hlast), List.append_nil, namesOf_of_split hjoin hsingle,
    String.ofList_toList, hkept, hnames]

-- Where a path leads is settled name by name: after the first names it no longer matters how they
-- were gone.
theorem walk_append (tree : FileTree) (links : Nat) (here : Location) (names : List String) :
    (∃ fault, ∀ more, walk tree links here (names ++ more) = .error fault) ∨
      ∃ left place, ∀ more, walk tree links here (names ++ more) = walk tree left place more := by
  induction links, here, names using walk.induct tree with
  | case1 => exact .inr ⟨_, _, fun _ => rfl⟩
  | case2 links here name rest hplace =>
      refine .inl ⟨.notDirectory, fun more => ?_⟩
      rw [List.cons_append, walk, if_pos hplace]
  | case3 links here name rest hplace hname ih =>
      simpa only [List.cons_append, walk, if_neg hplace, if_pos hname] using ih
  | case4 links here name rest hplace hname hup ih =>
      simpa only [List.cons_append, walk, if_neg hplace, if_neg hname, if_pos hup] using ih
  | case5 links here name rest hplace hname hup hlong =>
      refine .inl ⟨.nameTooLong, fun more => ?_⟩
      rw [List.cons_append, walk, if_neg hplace, if_neg hname, if_neg hup, if_pos hlong]
  | case6 links here name rest hplace hname hup hlong hentry =>
      refine .inl ⟨.notFound, fun more => ?_⟩
      simp only [List.cons_append, walk, if_neg hplace, if_neg hname, if_neg hup, if_neg hlong,
        hentry]
  | case7 here name rest hplace hname hup hlong target hentry =>
      refine .inl ⟨.linkLoop, fun more => ?_⟩
      simp only [List.cons_append, walk, if_neg hplace, if_neg hname, if_neg hup, if_neg hlong,
        hentry]
  | case8 here name rest hplace hname hup hlong target hentry links ih =>
      simpa only [List.cons_append, walk, if_neg hplace, if_neg hname, if_neg hup, if_neg hlong,
        hentry, List.append_assoc, dite_eq_ite] using ih
  | case9 links here name rest hplace hname hup hlong entry hlink hentry ih =>
      have hstep : ∀ more, walk tree links here (name :: rest ++ more) =
          walk tree links (here ++ [name]) (rest ++ more) := by
        intro more
        rw [List.cons_append, walk, if_neg hplace, if_neg hname, if_neg hup, if_neg hlong, hentry]
        cases entry with
        | link target => exact (hlink target rfl).elim
        | file | directory | device => rfl
      simpa only [hstep] using ih

theorem entry?_of_find {entry : FileEntry} (hfind : tree.find path = .ok (location, entry)) :
    tree.locate path = .ok location ∧ tree.entry? location = some entry := by
  unfold find at hfind
  cases hlocate : tree.locate path with
  | error fault => simp [hlocate, bind, Except.bind] at hfind
  | ok place =>
      cases hentry : tree.entry? place with
      | none => simp [hlocate, hentry, bind, Except.bind] at hfind
      | some found =>
          simp only [hlocate, hentry, bind, Except.bind, Except.ok.injEq, Prod.mk.injEq] at hfind
          obtain ⟨rfl, rfl⟩ := hfind
          exact ⟨rfl, hentry⟩

theorem find_of_locate {entry : FileEntry} (hlocate : tree.locate path = .ok location)
    (hentry : tree.entry? location = some entry) : tree.find path = .ok (location, entry) := by
  simp only [find, hlocate, hentry, bind, Except.bind]

theorem locate_eq (hproper : '\x00' ∉ path.toList) (hgiven : path ≠ "") :
    tree.locate path = if maxPath ≤ path.utf8ByteSize then .error .nameTooLong
      else walk tree maxLinks (if isAbsolute path then [] else tree.current) (steps path) := by
  have hnul : path.toList.contains '\x00' = false := by simpa using hproper
  have hempty : path.isEmpty = false := by simpa using hgiven
  simp only [locate, hnul, hempty, Bool.false_eq_true, if_false]

theorem proper_of_locate (hlocate : tree.locate path = .ok location) :
    '\x00' ∉ path.toList ∧ path ≠ "" ∧ path.utf8ByteSize < maxPath := by
  unfold locate at hlocate
  split at hlocate
  case isTrue => exact nomatch hlocate
  case isFalse hnul =>
      split at hlocate
      case isTrue => exact nomatch hlocate
      case isFalse hempty =>
          split at hlocate
          case isTrue => exact nomatch hlocate
          case isFalse hshort => exact ⟨by simpa using hnul, by simpa using hempty, by omega⟩

theorem isAbsolute_join (hgiven : path ≠ "") : isAbsolute (join path name) = isAbsolute path := by
  have hletters : path.toList ≠ [] := by simpa using hgiven
  obtain ⟨first, rest, hpath⟩ := List.exists_cons_of_ne_nil hletters
  unfold isAbsolute join
  split <;> simp [hpath]

theorem proper_join (hpath : '\x00' ∉ path.toList) (hname : '\x00' ∉ name.toList) :
    '\x00' ∉ (join path name).toList := by
  unfold join
  split <;> simp [hpath, hname]

theorem join_ne_empty (hgiven : name ≠ "") : join path name ≠ "" := by
  unfold join
  split <;> simp [hgiven]

theorem eq_of_walk_here {links : Nat} {place : Location} {isOpen : Bool}
    (hwalk : walk tree links place (if isOpen then ["."] else []) = .ok location) :
    place = location := by
  cases isOpen with
  | false =>
      simp only [Bool.false_eq_true, if_false, walk] at hwalk
      exact Except.ok.inj hwalk
  | true =>
      rw [if_pos rfl, walk] at hwalk
      split at hwalk
      case isTrue => cases hwalk
      case isFalse =>
          simp only [beq_self_eq_true, if_true, walk] at hwalk
          exact Except.ok.inj hwalk

theorem walk_file (links : Nat) {content : FileContent} (hname : IsName name)
    (hplace : tree.entry? location = some .directory)
    (hfile : tree.entry? (location ++ [name]) = some (.file content)) :
    walk tree links location [name] = .ok (location ++ [name]) := by
  have hhere : (name == ".") = false := beq_eq_false_iff_ne.mpr hname.not_here
  have hup : (name == "..") = false := beq_eq_false_iff_ne.mpr hname.not_up
  have hshort : ¬maxName < name.utf8ByteSize := Nat.not_lt.mpr hname.short
  simp only [walk, hplace, hhere, hup, hshort, hfile, bne_self_eq_false, Bool.false_eq_true,
    if_false]

-- Below a directory that a path leads to, its files are where their own paths lead to.
theorem locate_join {content : FileContent} (hfind : tree.find path = .ok (location, .directory))
    (hname : IsName name) (hfile : tree.entry? (location ++ [name]) = some (.file content))
    (hshort : (join path name).utf8ByteSize < maxPath) :
    tree.locate (join path name) = .ok (location ++ [name]) := by
  obtain ⟨hlocate, hplace⟩ := entry?_of_find hfind
  obtain ⟨hproper, hgiven, hsize⟩ := proper_of_locate hlocate
  rw [locate_eq hproper hgiven, if_neg (by omega)] at hlocate
  rw [locate_eq (proper_join hproper hname.proper) (join_ne_empty hname.given), if_neg (by omega),
    isAbsolute_join hgiven, steps_join hname.given hname.single]
  have hsteps : steps path = namesOf path ++
    (if path.toList.getLast? == some '/' then ["."] else []) := rfl
  rw [hsteps] at hlocate
  rcases walk_append tree maxLinks (if isAbsolute path then [] else tree.current)
      (namesOf path) with
    ⟨fault, hfails⟩ | ⟨left, place, hgoes⟩
  · exact nomatch (hfails _).symm.trans hlocate
  · rw [hgoes] at hlocate ⊢
    rw [eq_of_walk_here hlocate]
    exact walk_file left hname hplace hfile

theorem find_of_long (hproper : '\x00' ∉ path.toList) (hgiven : path ≠ "")
    (hlong : maxPath ≤ path.utf8ByteSize) : tree.find path = .error .nameTooLong := by
  have hlocate : tree.locate path = .error .nameTooLong := by
    rw [locate_eq hproper hgiven, if_pos hlong]
  simp only [find, hlocate, bind, Except.bind]

theorem inputFiles_of_long (hproper : '\x00' ∉ path.toList) (hgiven : path ≠ "")
    (hlong : maxPath ≤ path.utf8ByteSize) :
    (tree.inputFiles path).1 = .error (.noInputFiles path) := by
  simp only [inputFiles, find_of_long hproper hgiven hlong]

theorem ofFile_of_long (hproper : '\x00' ∉ path.toList) (hgiven : path ≠ "")
    (hlong : maxPath ≤ path.utf8ByteSize) :
    (Source.ofFile tree path).1 = .error (.io FileFault.nameTooLong.message) := by
  simp only [Source.ofFile, content, find_of_long hproper hgiven hlong, bind, Except.bind]

-- How the path of a file fares by itself: it is its own only source, or it is too long to be used.
inductive Fares (tree : FileTree) (path : String) : Prop
  | found (hpaths : (tree.inputFiles path).1 = .ok [path])
  | long (hlong : maxPath ≤ path.utf8ByteSize)
      (hpaths : (tree.inputFiles path).1 = .error (.noInputFiles path))
      (hsource : (Source.ofFile tree path).1 = .error (.io FileFault.nameTooLong.message))

theorem paths_of_directory {argument : String} {paths : List String}
    (hfind : tree.find argument = .ok (location, .directory))
    (hpaths : (tree.inputFiles argument).1 = .ok paths) :
    paths = (tree.fileNames location).map (join argument) ∧ paths ≠ [] := by
  simp only [inputFiles, hfind] at hpaths
  split at hpaths
  case isTrue => exact nomatch hpaths
  case isFalse hnames =>
      obtain rfl := Except.ok.inj hpaths
      exact ⟨rfl, by simpa using hnames⟩

theorem IsSound.fares (hsound : tree.IsSound) {argument : String} {paths : List String}
    (hfind : tree.find argument = .ok (location, .directory))
    (hpaths : (tree.inputFiles argument).1 = .ok paths) : ∀ path ∈ paths, tree.Fares path := by
  obtain ⟨rfl, _⟩ := paths_of_directory hfind hpaths
  intro path hpath
  obtain ⟨name, hname, rfl⟩ := List.mem_map.mp hpath
  have hproper := hsound.isName_of_mem_fileNames hname
  obtain ⟨data, hfile⟩ := hsound.entry?_of_mem_fileNames hname
  by_cases hshort : (join argument name).utf8ByteSize < maxPath
  · have hplace := locate_join hfind hproper hfile hshort
    have hfound := find_of_locate hplace hfile
    exact .found (by simp only [inputFiles, hfound])
  · have hlong : maxPath ≤ (join argument name).utf8ByteSize := Nat.le_of_not_lt hshort
    obtain ⟨hargument, _, _⟩ := proper_of_locate (entry?_of_find hfind).1
    have hwhole := proper_join hargument hproper.proper
    have hgiven : join argument name ≠ "" := join_ne_empty hproper.given
    exact .long hlong (inputFiles_of_long hwhole hgiven hlong) (ofFile_of_long hwhole hgiven hlong)

def twoFiles : FileTree :=
  ⟨[(["d"], .directory), (["d", "first"], .file ⟨[105, 100, 10, 49, 10], none⟩),
    (["d", "second"], .file ⟨[105, 100, 10, 50, 10], none⟩)], []⟩

theorem isSound_twoFiles : twoFiles.IsSound where
  distinct := by decide
  names := by
    have hdirectory : IsName "d" := by constructor <;> decide
    have hfirst : IsName "first" := by constructor <;> decide
    have hsecond : IsName "second" := by constructor <;> decide
    simp only [twoFiles, List.forall_mem_cons, List.not_mem_nil, false_implies, implies_true,
      and_true]
    exact ⟨⟨List.cons_ne_nil _ _, hdirectory⟩, ⟨List.cons_ne_nil _ _, hdirectory, hfirst⟩,
      ⟨List.cons_ne_nil _ _, hdirectory, hsecond⟩⟩

-- A path to a directory may end in any number of slashes, and so have any length.
def slashed (count : Nat) : String := "d" ++ String.ofList (List.replicate count '/')

def filePaths (count : Nat) : List String := ["first", "second"].map (join (slashed count))

theorem toList_slashed (count : Nat) :
    (slashed count).toList = 'd' :: List.replicate count '/' := by
  simp [slashed]

theorem namesOf_slashed (count : Nat) : namesOf (slashed count) = ["d"] := by
  induction count with
  | zero => decide
  | succ count ih =>
      have hpath : (slashed (count + 1)).toList = (slashed count).toList ++ ['/'] := by
        rw [toList_slashed, toList_slashed, List.replicate_succ', List.cons_append]
      rw [namesOf_of_split hpath List.not_mem_nil, ← namesOf, ih]
      rfl

theorem utf8ByteSize_slashed (count : Nat) : (slashed count).utf8ByteSize = count + 1 := by
  induction count with
  | zero => decide
  | succ count ih =>
      have hpath : slashed (count + 1) = slashed count ++ "/" := by
        simp [slashed, List.replicate_succ', String.ofList_append, String.append_assoc]
      rw [hpath, String.utf8ByteSize_append, ih]
      rfl

theorem proper_slashed (count : Nat) : '\x00' ∉ (slashed count).toList := by
  simp [toList_slashed, List.mem_replicate]

theorem isLong_of_slashed {count : Nat} (hmany : 4090 < count) :
    ∀ path ∈ filePaths count, maxPath ≤ path.utf8ByteSize := by
  have hslash : (slashed count).toList.getLast? = some '/' := by
    obtain ⟨more, rfl⟩ := Nat.exists_eq_add_of_lt hmany
    rw [toList_slashed, List.replicate_succ', ← List.cons_append, List.getLast?_concat]
  have hsizes : ∀ name ∈ ["first", "second"], 5 ≤ name.utf8ByteSize := by decide
  intro path hpath
  obtain ⟨name, hname, rfl⟩ := List.mem_map.mp hpath
  have hsize := hsizes name hname
  rw [join_of_slash hslash, String.utf8ByteSize_append, utf8ByteSize_slashed, maxPath]
  omega

theorem find_slashed {count : Nat} (hshort : count + 1 < maxPath) :
    twoFiles.find (slashed count) = .ok (["d"], .directory) := by
  have hgiven : slashed count ≠ "" := by simp [slashed]
  have hsize : (slashed count).utf8ByteSize < maxPath := utf8ByteSize_slashed count ▸ hshort
  have hstart : isAbsolute (slashed count) = false := by simp [isAbsolute, toList_slashed]
  have hsteps : steps (slashed count) = ["d"] ++
      (if (slashed count).toList.getLast? == some '/' then ["."] else []) := by
    rw [steps]
    exact congrArg (· ++ _) (namesOf_slashed count)
  have hname : ¬maxName < "d".utf8ByteSize := by decide
  refine find_of_locate ?_ rfl
  rw [locate_eq (proper_slashed count) hgiven, if_neg (by omega), hstart, hsteps]
  generalize ((slashed count).toList.getLast? == some '/') = isOpen
  cases isOpen <;> simp [walk, twoFiles, current, entry?, hname]

theorem inputFiles_slashed {count : Nat} (hshort : count + 1 < maxPath) :
    (twoFiles.inputFiles (slashed count)).1 = .ok (filePaths count) := by
  have hnames : twoFiles.fileNames ["d"] = ["first", "second"] := by
    simp [fileNames, children, twoFiles, List.mergeSort]
  simp [inputFiles, find_slashed hshort, hnames, filePaths]

end IndexFleet.FileTree

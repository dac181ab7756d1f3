import IndexFleet.Proofs.FileTree

namespace IndexFleet.FileTree

-- A name that asks for an entry of a directory, rather than for the directory or the one above.
def AsksEntry (name : String) : Prop := name ≠ "." ∧ name ≠ ".." ∧ name.utf8ByteSize ≤ maxName

instance (name : String) : Decidable (AsksEntry name) :=
  inferInstanceAs (Decidable (_ ∧ _ ∧ _))

-- How a walk along names gets on from place to place, with the number of links that it follows. The
-- target of a link takes the place of its name.
inductive Moves (tree : FileTree) : Nat → Location → List String → Location → List String → Prop
  | stay {here : Location} {names : List String} : Moves tree 0 here names here names
  | same {count : Nat} {here place : Location} {names left : List String}
      (hplace : tree.entry? here = some .directory)
      (hrest : Moves tree count here names place left) :
      Moves tree count here ("." :: names) place left
  | up {count : Nat} {here place : Location} {names left : List String}
      (hplace : tree.entry? here = some .directory)
      (hrest : Moves tree count here.dropLast names place left) :
      Moves tree count here (".." :: names) place left
  | down {count : Nat} {here place : Location} {name : String} {names left : List String}
      {entry : FileEntry} (hplace : tree.entry? here = some .directory) (hname : AsksEntry name)
      (hentry : tree.entry? (here ++ [name]) = some entry) (hlink : ∀ target, entry ≠ .link target)
      (hrest : Moves tree count (here ++ [name]) names place left) :
      Moves tree count here (name :: names) place left
  | follow {count : Nat} {here place : Location} {name target : String} {names left : List String}
      (hplace : tree.entry? here = some .directory) (hname : AsksEntry name)
      (hentry : tree.entry? (here ++ [name]) = some (.link target))
      (hrest : Moves tree count (if isAbsolute target then [] else here) (steps target ++ names)
        place left) :
      Moves tree (count + 1) here (name :: names) place left

-- Where a walk ends that may follow so many links more: behind the last name, or at a name along
-- which it cannot go.
inductive Ends (tree : FileTree) :
    Nat → Location → List String → Except FileFault Location → Prop
  | there {links : Nat} {here : Location} : Ends tree links here [] (.ok here)
  | notDirectory {links : Nat} {here : Location} {name : String} {names : List String}
      (hplace : tree.entry? here ≠ some .directory) :
      Ends tree links here (name :: names) (.error .notDirectory)
  | tooLong {links : Nat} {here : Location} {name : String} {names : List String}
      (hplace : tree.entry? here = some .directory) (hname : name ≠ "." ∧ name ≠ "..")
      (hlong : maxName < name.utf8ByteSize) :
      Ends tree links here (name :: names) (.error .nameTooLong)
  | missing {links : Nat} {here : Location} {name : String} {names : List String}
      (hplace : tree.entry? here = some .directory) (hname : AsksEntry name)
      (hentry : tree.entry? (here ++ [name]) = none) :
      Ends tree links here (name :: names) (.error .notFound)
  | looping {here : Location} {name target : String} {names : List String}
      (hplace : tree.entry? here = some .directory) (hname : AsksEntry name)
      (hentry : tree.entry? (here ++ [name]) = some (.link target)) :
      Ends tree 0 here (name :: names) (.error .linkLoop)

theorem AsksEntry.of_tests {name : String} (hname : ¬(name == ".") = true)
    (hup : ¬(name == "..") = true) (hlong : ¬maxName < name.utf8ByteSize) : AsksEntry name :=
  ⟨mt beq_iff_eq.mpr hname, mt beq_iff_eq.mpr hup, Nat.not_lt.mp hlong⟩

theorem directory_of_test {tree : FileTree} {here : Location}
    (hplace : ¬(tree.entry? here != some .directory) = true) :
    tree.entry? here = some .directory :=
  not_not.mp (mt bne_iff_ne.mpr hplace)

variable {tree : FileTree} {here place location : Location} {names left more : List String}
  {path name target : String} {count links : Nat} {entry : FileEntry}
  {outcome : Except FileFault Location}

theorem walk_nil : walk tree links here [] = .ok here := by
  rw [walk]

theorem walk_of_not_directory (hplace : tree.entry? here ≠ some .directory) :
    walk tree links here (name :: names) = .error .notDirectory := by
  rw [walk, if_pos (bne_iff_ne.mpr hplace)]

section Directory

variable (hplace : tree.entry? here = some .directory)

include hplace

theorem walk_same : walk tree links here ("." :: names) = walk tree links here names := by
  rw [walk, hplace]
  rfl

theorem walk_up : walk tree links here (".." :: names) = walk tree links here.dropLast names := by
  rw [walk, hplace]
  rfl

theorem walk_of_long (hname : name ≠ "." ∧ name ≠ "..") (hlong : maxName < name.utf8ByteSize) :
    walk tree links here (name :: names) = .error .nameTooLong := by
  rw [walk]
  simp only [hplace, beq_iff_eq, hname, hlong, bne_self_eq_false, Bool.false_eq_true, if_false,
    if_true]

variable (hname : AsksEntry name)

include hname

theorem walk_of_missing (hentry : tree.entry? (here ++ [name]) = none) :
    walk tree links here (name :: names) = .error .notFound := by
  rw [walk]
  simp only [hplace, beq_iff_eq, hname.1, hname.2.1, Nat.not_lt.mpr hname.2.2, hentry,
    bne_self_eq_false, Bool.false_eq_true, if_false]

theorem walk_of_looping (hentry : tree.entry? (here ++ [name]) = some (.link target)) :
    walk tree 0 here (name :: names) = .error .linkLoop := by
  rw [walk]
  simp only [hplace, beq_iff_eq, hname.1, hname.2.1, Nat.not_lt.mpr hname.2.2, hentry,
    bne_self_eq_false, Bool.false_eq_true, if_false]

theorem walk_follow (hentry : tree.entry? (here ++ [name]) = some (.link target)) :
    walk tree (links + 1) here (name :: names) =
      walk tree links (if isAbsolute target then [] else here) (steps target ++ names) := by
  rw [walk]
  simp only [hplace, beq_iff_eq, hname.1, hname.2.1, Nat.not_lt.mpr hname.2.2, hentry,
    bne_self_eq_false, Bool.false_eq_true, if_false]

theorem walk_down (hentry : tree.entry? (here ++ [name]) = some entry)
    (hlink : ∀ target, entry ≠ .link target) :
    walk tree links here (name :: names) = walk tree links (here ++ [name]) names := by
  rw [walk]
  simp only [hplace, beq_iff_eq, hname.1, hname.2.1, Nat.not_lt.mpr hname.2.2, hentry,
    bne_self_eq_false, Bool.false_eq_true, if_false]

end Directory

-- A walk goes on from where it has got to.
theorem walk_of_moves (hmoves : Moves tree count here names place left) :
    walk tree (count + links) here names = walk tree links place left := by
  induction hmoves with
  | stay => rw [Nat.zero_add]
  | same hplace _ ih => rw [walk_same hplace, ih]
  | up hplace _ ih => rw [walk_up hplace, ih]
  | down hplace hname hentry hlink _ ih => rw [walk_down hplace hname hentry hlink, ih]
  | follow hplace hname hentry _ ih =>
      rw [Nat.add_right_comm, walk_follow hplace hname hentry, ih]

theorem walk_of_ends (hends : Ends tree links place left outcome) :
    walk tree links place left = outcome := by
  cases hends with
  | there => exact walk_nil
  | notDirectory hplace => exact walk_of_not_directory hplace
  | tooLong hplace hname hlong => exact walk_of_long hplace hname hlong
  | missing hplace hname hentry => exact walk_of_missing hplace hname hentry
  | looping hplace hname hentry => exact walk_of_looping hplace hname hentry

-- Every walk comes to an end.
theorem exists_ends (tree : FileTree) (links : Nat) (here : Location) (names : List String) :
    ∃ count rest place left outcome, count + rest = links ∧
      Moves tree count here names place left ∧ Ends tree rest place left outcome := by
  induction links, here, names using walk.induct tree with
  | case1 links here => exact ⟨0, links, here, [], _, Nat.zero_add _, .stay, .there⟩
  | case2 links here name names hplace =>
      exact ⟨0, links, _, _, _, Nat.zero_add _, .stay, .notDirectory (bne_iff_ne.mp hplace)⟩
  | case3 links here name names hplace hname ih =>
      obtain ⟨count, rest, place, left, outcome, hcount, hmoves, hends⟩ := ih
      rw [beq_iff_eq] at hname
      exact ⟨count, rest, place, left, outcome, hcount,
        hname ▸ .same (directory_of_test hplace) hmoves, hends⟩
  | case4 links here name names hplace hname hup ih =>
      obtain ⟨count, rest, place, left, outcome, hcount, hmoves, hends⟩ := ih
      rw [beq_iff_eq] at hup
      exact ⟨count, rest, place, left, outcome, hcount,
        hup ▸ .up (directory_of_test hplace) hmoves, hends⟩
  | case5 links here name names hplace hname hup hlong =>
      exact ⟨0, links, _, _, _, Nat.zero_add _, .stay,
        .tooLong (directory_of_test hplace) ⟨mt beq_iff_eq.mpr hname, mt beq_iff_eq.mpr hup⟩ hlong⟩
  | case6 links here name names hplace hname hup hlong hentry =>
      exact ⟨0, links, _, _, _, Nat.zero_add _, .stay,
        .missing (directory_of_test hplace) (.of_tests hname hup hlong) hentry⟩
  | case7 here name names hplace hname hup hlong target hentry =>
      exact ⟨0, 0, _, _, _, rfl, .stay,
        .looping (directory_of_test hplace) (.of_tests hname hup hlong) hentry⟩
  | case8 here name names hplace hname hup hlong target hentry links ih =>
      obtain ⟨count, rest, place, left, outcome, hcount, hmoves, hends⟩ := ih
      refine ⟨count + 1, rest, place, left, outcome, by omega,
        .follow (directory_of_test hplace) (.of_tests hname hup hlong) hentry ?_, hends⟩
      simpa only [dite_eq_ite] using hmoves
  | case9 links here name names hplace hname hup hlong entry hlink hentry ih =>
      obtain ⟨count, rest, place, left, outcome, hcount, hmoves, hends⟩ := ih
      exact ⟨count, rest, place, left, outcome, hcount,
        .down (directory_of_test hplace) (.of_tests hname hup hlong) hentry hlink hmoves, hends⟩

theorem walk_eq_iff :
    walk tree links here names = outcome ↔ ∃ count rest place left, count + rest = links ∧
      Moves tree count here names place left ∧ Ends tree rest place left outcome := by
  constructor
  · intro hwalk
    obtain ⟨count, rest, place, left, found, hcount, hmoves, hends⟩ :=
      exists_ends tree links here names
    have hfound : found = outcome := by
      rw [← hwalk, ← hcount, walk_of_moves hmoves, walk_of_ends hends]
    exact ⟨count, rest, place, left, hcount, hmoves, hfound ▸ hends⟩
  · rintro ⟨count, rest, place, left, rfl, hmoves, hends⟩
    rw [walk_of_moves hmoves, walk_of_ends hends]

-- Names behind those that are gone along change nothing.
theorem Moves.append (hmoves : Moves tree count here names place left) (more : List String) :
    Moves tree count here (names ++ more) place (left ++ more) := by
  induction hmoves with
  | stay => exact .stay
  | same hplace _ ih => exact .same hplace ih
  | up hplace _ ih => exact .up hplace ih
  | down hplace hname hentry hlink _ ih => exact .down hplace hname hentry hlink ih
  | follow hplace hname hentry _ ih =>
      rw [List.append_assoc] at ih
      exact .follow hplace hname hentry ih

theorem walk_of_few (hmoves : Moves tree count here names place left) (hfew : links < count) :
    walk tree links here names = .error .linkLoop := by
  induction hmoves generalizing links with
  | stay => exact absurd hfew (Nat.not_lt_zero _)
  | same hplace _ ih => rw [walk_same hplace, ih hfew]
  | up hplace _ ih => rw [walk_up hplace, ih hfew]
  | down hplace hname hentry hlink _ ih => rw [walk_down hplace hname hentry hlink, ih hfew]
  | follow hplace hname hentry _ ih =>
      cases links with
      | zero => exact walk_of_looping hplace hname hentry
      | succ links => rw [walk_follow hplace hname hentry, ih (Nat.lt_of_succ_lt_succ hfew)]

-- Where links lead round in a circle no number of them is enough.
theorem walk_of_circle (hcircle : Moves tree (count + 1) here names here (names ++ more))
    (links : Nat) : walk tree links here names = .error .linkLoop := by
  have hall : ∀ suffix, walk tree links here (names ++ suffix) = .error .linkLoop := by
    induction links using Nat.strongRecOn with
    | ind links ih =>
        intro suffix
        have hround := hcircle.append suffix
        by_cases hfew : links < count + 1
        · exact walk_of_few hround hfew
        · obtain ⟨rest, rfl⟩ := Nat.exists_eq_add_of_le (Nat.not_lt.mp hfew)
          rw [walk_of_moves hround, List.append_assoc]
          exact ih rest (by omega) (more ++ suffix)
  simpa using hall []

-- Where a path starts from.
def start (tree : FileTree) (path : String) : Location :=
  if isAbsolute path then [] else tree.current

-- What comes of a path that is gone along, with every link followed and at most so many of them.
inductive Resolves (tree : FileTree) (path : String) : Except FileFault Location → Prop
  | improper (hnul : '\x00' ∈ path.toList) : Resolves tree path (.error .nulInPath)
  | empty (hempty : path = "") : Resolves tree path (.error .notFound)
  | tooLong (hproper : '\x00' ∉ path.toList) (hlong : maxPath ≤ path.utf8ByteSize) :
      Resolves tree path (.error .nameTooLong)
  | walked {count rest : Nat} {place : Location} {left : List String}
      {outcome : Except FileFault Location} (hproper : '\x00' ∉ path.toList) (hgiven : path ≠ "")
      (hshort : path.utf8ByteSize < maxPath) (hlinks : count + rest = maxLinks)
      (hmoves : Moves tree count (start tree path) (steps path) place left)
      (hends : Ends tree rest place left outcome) : Resolves tree path outcome

theorem locate_eq_iff : tree.locate path = outcome ↔ tree.Resolves path outcome := by
  by_cases hnul : '\x00' ∈ path.toList
  · have hlocate : tree.locate path = .error .nulInPath := if_pos (by simpa using hnul)
    rw [hlocate]
    refine ⟨fun houtcome => houtcome ▸ .improper hnul, fun hresolves => ?_⟩
    cases hresolves with
    | improper => rfl
    | empty hempty => simp [hempty] at hnul
    | tooLong hproper => exact absurd hnul hproper
    | walked hproper => exact absurd hnul hproper
  by_cases hempty : path = ""
  · have hlocate : tree.locate path = .error .notFound := by rw [hempty]; rfl
    rw [hlocate]
    refine ⟨fun houtcome => houtcome ▸ .empty hempty, fun hresolves => ?_⟩
    cases hresolves with
    | improper hmem => exact absurd hmem hnul
    | empty => rfl
    | tooLong _ hlong => exact absurd hlong (by rw [hempty]; decide)
    | walked _ hgiven => exact absurd hempty hgiven
  rw [locate_eq hnul hempty]
  by_cases hlong : maxPath ≤ path.utf8ByteSize
  · rw [if_pos hlong]
    refine ⟨fun houtcome => houtcome ▸ .tooLong hnul hlong, fun hresolves => ?_⟩
    cases hresolves with
    | improper hmem => exact absurd hmem hnul
    | empty hnone => exact absurd hnone hempty
    | tooLong => rfl
    | walked _ _ hshort => omega
  · rw [if_neg hlong, ← start, walk_eq_iff]
    constructor
    · rintro ⟨count, rest, place, left, hlinks, hmoves, hends⟩
      exact .walked hnul hempty (Nat.not_le.mp hlong) hlinks hmoves hends
    · intro hresolves
      cases hresolves with
      | improper hmem => exact absurd hmem hnul
      | empty hnone => exact absurd hnone hempty
      | tooLong _ htoo => exact absurd htoo hlong
      | walked _ _ _ hlinks hmoves hends => exact ⟨_, _, _, _, hlinks, hmoves, hends⟩

-- A path leads to what is at the place that it comes to.
def Leads (tree : FileTree) (path : String) (location : Location) (entry : FileEntry) : Prop :=
  tree.Resolves path (.ok location) ∧ tree.entry? location = some entry

theorem find_eq_ok_iff :
    tree.find path = .ok (location, entry) ↔ tree.Leads path location entry := by
  rw [Leads, ← locate_eq_iff]
  exact ⟨entry?_of_find, fun ⟨hlocate, hentry⟩ => find_of_locate hlocate hentry⟩

theorem exists_fault_iff :
    (∃ fault, tree.find path = .error fault) ↔
      ∀ location entry, ¬tree.Leads path location entry := by
  simp only [← find_eq_ok_iff]
  cases tree.find path with
  | error fault => simp
  | ok found => simpa using ⟨found.1, found.2, rfl⟩

end IndexFleet.FileTree

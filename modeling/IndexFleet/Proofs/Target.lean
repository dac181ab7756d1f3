import IndexFleet.Proofs.Database
import IndexFleet.Proofs.Text.Items
import IndexFleet.Target
import Mathlib.Data.List.Forall2

namespace IndexFleet.Database

variable {database : Database} {nodes : List Node} {target : String} {names : List String}

theorem named_eq_ok_iff :
    database.named names = .ok nodes ↔
      List.Forall₂ (fun name node => database.find? name = some node) names nodes := by
  induction names generalizing nodes with
  | nil => simp [named, eq_comm]
  | cons name names ih =>
      rw [named, List.forall₂_cons_left_iff]
      simp only [← ih]
      cases hfind : database.find? name with
      | none => simp
      | some node =>
          cases hrest : database.named names with
          | error fault => simp [Except.map]
          | ok rest => simp [Except.map, eq_comm]

-- The first name that is not known is the one that is told.
theorem named_eq_error_iff {fault : TargetFault} :
    database.named names = .error fault ↔
      ∃ known name rest, names = known ++ name :: rest ∧
        (∀ one ∈ known, ∃ node, database.find? one = some node) ∧
        database.find? name = none ∧ fault = .unknownNode name := by
  induction names with
  | nil => simp [named]
  | cons first names ih =>
      rw [named]
      cases hfind : database.find? first with
      | none =>
          constructor
          · intro hfault
            exact ⟨[], first, names, rfl, by simp, hfind, (Except.error.inj hfault).symm⟩
          · rintro ⟨known, name, rest, hnames, hknown, hname, rfl⟩
            cases known with
            | nil =>
                obtain ⟨rfl, rfl⟩ := List.cons.inj hnames
                rfl
            | cons one known =>
                obtain ⟨rfl, rfl⟩ := List.cons.inj hnames
                obtain ⟨node, hnode⟩ := hknown first List.mem_cons_self
                exact nomatch hfind.symm.trans hnode
      | some node =>
          have hrest : (database.named names).map (node :: ·) = .error fault ↔
              database.named names = .error fault := by
            cases database.named names <;> simp [Except.map]
          dsimp only
          rw [hrest, ih]
          constructor
          · rintro ⟨known, name, rest, rfl, hknown, hname⟩
            exact ⟨first :: known, name, rest, rfl,
              List.forall_mem_cons.mpr ⟨⟨node, hfind⟩, hknown⟩, hname⟩
          · rintro ⟨known, name, rest, hnames, hknown, hname⟩
            cases known with
            | nil =>
                obtain ⟨rfl, rfl⟩ := List.cons.inj hnames
                exact nomatch hfind.symm.trans hname.1
            | cons one known =>
                obtain ⟨rfl, rfl⟩ := List.cons.inj hnames
                exact ⟨known, name, rest, rfl, (List.forall_mem_cons.mp hknown).2, hname⟩

-- The words that mean nodes by what they are there for.
def keywords (database : Database) : List (String × List Node) :=
  [("master", database.nodes.filter (·.roles.has .master)),
    ("slave", database.nodes.filter (·.roles.has .slave)), ("all", database.nodes)]

-- What is neither a keyword nor blank lists names.
def IsListed (target : String) : Prop := Text.trim target ∉ ["", "master", "slave", "all"]

theorem sublist_of_keyword {keyword : String} {meant : List Node}
    (hkeyword : (keyword, meant) ∈ database.keywords) : meant.Sublist database.nodes := by
  simp only [keywords, List.mem_cons, List.not_mem_nil, or_false, Prod.mk.injEq] at hkeyword
  rcases hkeyword with ⟨_, rfl⟩ | ⟨_, rfl⟩ | ⟨_, rfl⟩
  · exact List.filter_sublist
  · exact List.filter_sublist
  · exact List.Sublist.refl _

theorem targets_of_keyword (hindex : IsIndexOf database nodes) {keyword : String}
    {meant : List Node} (hkeyword : (keyword, meant) ∈ database.keywords)
    (htrim : Text.trim target = keyword) :
    database.targets target =
      if meant.isEmpty then .error (.noNodes target) else .ok meant := by
  simp only [keywords, hindex.all, ← hindex.masters, ← hindex.slaves, List.mem_cons,
    List.not_mem_nil, or_false, Prod.mk.injEq] at hkeyword
  rcases hkeyword with ⟨rfl, rfl⟩ | ⟨rfl, rfl⟩ | ⟨rfl, rfl⟩ <;>
  · simp only [targets, htrim, hindex.all]
    rfl

theorem targets_of_blank (htrim : Text.trim target = "") :
    database.targets target = .error .unspecified := by
  simp only [targets, htrim]
  rfl

-- A list has at least one item.
theorem ne_nil_of_named_items (hnamed : database.named (Text.items ',' target) = .ok nodes) :
    nodes ≠ [] := by
  rintro rfl
  have hlength := (named_eq_ok_iff.mp hnamed).length_eq
  rw [Text.length_items, List.length_nil] at hlength
  omega

theorem targets_of_listed (hlisted : IsListed target) :
    database.targets target = database.named (Text.items ',' target) := by
  simp only [IsListed, List.mem_cons, List.not_mem_nil, or_false, not_or] at hlisted
  obtain ⟨hblank, hmaster, hslave, hall⟩ := hlisted
  have hmatch : database.targets target = (do
      let nodes ← database.named (Text.items ',' target)
      if nodes.isEmpty then .error (.noNodes target) else .ok nodes) := by
    unfold targets
    split
    case h_1 hkeyword => exact absurd hkeyword hmaster
    case h_2 hkeyword => exact absurd hkeyword hslave
    case h_3 hkeyword => exact absurd hkeyword hall
    case h_4 hempty => exact absurd hempty hblank
    case h_5 => rfl
  rw [hmatch]
  cases hnamed : database.named (Text.items ',' target) with
  | error fault => rfl
  | ok nodes => simp [bind, Except.bind, ne_nil_of_named_items hnamed]

-- A target is a keyword, blank or a list.
theorem keyword_or_blank_or_isListed (database : Database) (target : String) :
    (∃ keyword meant, (keyword, meant) ∈ database.keywords ∧ Text.trim target = keyword) ∨
      Text.trim target = "" ∨ IsListed target := by
  by_cases hlisted : IsListed target
  · exact .inr (.inr hlisted)
  · have hreserved : Text.trim target ∈ ["", "master", "slave", "all"] := not_not.mp hlisted
    simp only [List.mem_cons, List.not_mem_nil, or_false] at hreserved
    rcases hreserved with hblank | hmaster | hslave | hall
    · exact .inr (.inl hblank)
    · exact .inl ⟨"master", _, .head _, hmaster⟩
    · exact .inl ⟨"slave", _, .tail _ (.head _), hslave⟩
    · exact .inl ⟨"all", _, .tail _ (.tail _ (.head _)), hall⟩

-- What a target means is never nothing.
theorem nonempty_of_targets (htargets : database.targets target = .ok nodes) :
    0 < nodes.length := by
  unfold targets at htargets
  split at htargets <;>
  · obtain ⟨meant, -, hmeant⟩ := bind_eq_ok_iff.mp htargets
    obtain ⟨hnonempty, hsame⟩ := ite_error_eq_ok_iff.mp hmeant
    obtain rfl := Except.ok.inj hsame
    exact List.length_pos_iff.mpr (by simpa using hnonempty)

theorem IsIndexOf.mem_of_targets {all : List Node} (hindex : IsIndexOf database all)
    (htargets : database.targets target = .ok nodes) : ∀ node ∈ nodes, node ∈ all := by
  rcases database.keyword_or_blank_or_isListed target with
    ⟨keyword, meant, hkeyword, htrim⟩ | hblank | hlisted
  · rw [targets_of_keyword hindex hkeyword htrim, ite_error_eq_ok_iff] at htargets
    obtain rfl := Except.ok.inj htargets.2
    have hsublist := sublist_of_keyword hkeyword
    exact hindex.all ▸ hsublist.subset
  · rw [targets_of_blank hblank] at htargets
    cases htargets
  · rw [targets_of_listed hlisted, named_eq_ok_iff] at htargets
    generalize Text.items ',' target = items at htargets
    induction htargets with
    | nil => exact List.forall_mem_nil _
    | @cons key node _ _ hfind _ ih =>
        have hmem : node ∈ all.filter fun node => key ∈ node.keys := by
          rw [hindex.find, hfind]
          exact List.mem_singleton_self node
        exact List.forall_mem_cons.mpr ⟨List.mem_of_mem_filter hmem, ih⟩

-- In a database that is accepted, every node has an address of its own.
theorem nodup_addresses_of_targets {told : Log} {all : List Node}
    (hall : ofNodes all = .ok (database, told)) (htargets : database.targets target = .ok nodes)
    (hdistinct : nodes.Nodup) : (nodes.map (·.address)).Nodup := by
  obtain ⟨hcluster, rfl⟩ := ofNodes_eq_ok_iff.mp ⟨told, hall⟩
  have hmem := hcluster.isIndexOf.mem_of_targets htargets
  refine hdistinct.map_on fun node hnode other hother hsame => ?_
  exact List.inj_on_of_nodup_map hcluster.nodup_addresses (hmem node hnode) (hmem other hother)
    hsame

end IndexFleet.Database

import IndexFleet.Database
import IndexFleet.Proofs.Node
import Mathlib.Data.List.Enum
import Mathlib.Data.List.Nodup

namespace IndexFleet

theorem bind_eq_ok_iff {ε α β : Type} {first : Except ε α} {next : α → Except ε β} {value : β} :
    first >>= next = .ok value ↔ ∃ middle, first = .ok middle ∧ next middle = .ok value := by
  cases first <;> simp [bind, Except.bind]

theorem ite_error_eq_ok_iff {ε α : Type} {fails : Prop} [Decidable fails] {fault : ε}
    {rest : Except ε α} {value : α} :
    (if fails then .error fault else rest) = .ok value ↔ ¬fails ∧ rest = .ok value := by
  split <;> simp [*]

theorem lookup_cons_eq_ite {α β : Type} [BEq α] [LawfulBEq α] [DecidableEq α] (row : α × β)
    (rows : List (α × β)) (key : α) :
    (row :: rows).lookup key = if key = row.1 then some row.2 else rows.lookup key := by
  obtain ⟨first, value⟩ := row
  rw [List.lookup_cons]
  by_cases hkey : key = first
  · rw [if_pos hkey, beq_iff_eq.mpr hkey]
  · rw [if_neg hkey, beq_eq_false_iff_ne.mpr hkey]

namespace NodesByKey

variable {table : NodesByKey} {nodes : List Node} {node : Node} {key : String}

theorem mem_keys_put {other : String} :
    other ∈ (table.put key node).map Prod.fst ↔ other = key ∨ other ∈ table.map Prod.fst := by
  induction table with
  | nil => simp [put]
  | cons row table ih =>
      obtain ⟨first, nodes⟩ := row
      rw [put]
      split
      case isTrue hsame => simp [hsame]
      case isFalse =>
          split
          case isTrue => simp
          case isFalse => simp only [List.map_cons, List.mem_cons, ih, or_left_comm]

theorem pairwise_put (hsorted : (table.map Prod.fst).Pairwise (· < ·)) :
    ((table.put key node).map Prod.fst).Pairwise (· < ·) := by
  induction table with
  | nil => simp [put]
  | cons row table ih =>
      obtain ⟨first, nodes⟩ := row
      obtain ⟨hfirst, htable⟩ := List.pairwise_cons.mp hsorted
      rw [put]
      split
      case isTrue => exact hsorted
      case isFalse hother =>
          split
          case isTrue hless =>
              refine List.pairwise_cons.mpr ⟨fun other hmem => ?_, hsorted⟩
              obtain rfl | hlater := List.mem_cons.mp hmem
              · exact hless
              · exact String.lt_trans hless (hfirst other hlater)
          case isFalse hless =>
              have hgreater : first < key := by
                by_contra hnot
                exact hother (String.le_antisymm (String.not_lt.mp hnot) (String.not_lt.mp hless))
              refine List.pairwise_cons.mpr ⟨fun other hmem => ?_, ih htable⟩
              obtain rfl | hlater := mem_keys_put.mp hmem
              · exact hgreater
              · exact hfirst other hlater

theorem lookup_eq_none_of_forall_ne (hnone : ∀ other ∈ table.map Prod.fst, key ≠ other) :
    table.lookup key = none := by
  refine List.lookup_eq_none_iff.mpr fun row hrow => ?_
  simpa using hnone row.1 (List.mem_map_of_mem hrow)

theorem lookup_put (hsorted : (table.map Prod.fst).Pairwise (· < ·)) (other : String) :
    (table.put key node).lookup other =
      if other = key then some ((table.lookup key).getD [] ++ [node]) else table.lookup other := by
  induction table with
  | nil => simp [put, lookup_cons_eq_ite]
  | cons row table ih =>
      obtain ⟨first, nodes⟩ := row
      obtain ⟨hfirst, htable⟩ := List.pairwise_cons.mp hsorted
      rw [put]
      split
      case isTrue hsame =>
          subst hsame
          by_cases hkey : other = key <;> simp [lookup_cons_eq_ite, hkey]
      case isFalse hother =>
          split
          case isTrue hless =>
              have hnone : table.lookup key = none := lookup_eq_none_of_forall_ne fun later hmem =>
                String.ne_of_lt (String.lt_trans hless (hfirst later hmem))
              by_cases hkey : other = key <;> simp [lookup_cons_eq_ite, hkey, hother, hnone]
          case isFalse =>
              rw [lookup_cons_eq_ite, ih htable]
              by_cases hkey : other = key <;> simp [lookup_cons_eq_ite, hkey, hother]

-- Each key that one of the nodes has leads to all that have it, in their order.
structure Files (table : NodesByKey) (keyOf : Node → String) (nodes : List Node) : Prop where
  sorted : (table.map Prod.fst).Pairwise (· < ·)
  lookup : ∀ key found, table.lookup key = some found ↔
    found = nodes.filter (keyOf · = key) ∧ found ≠ []

variable {keyOf : Node → String}

theorem files_nil (keyOf : Node → String) : Files [] keyOf [] where
  sorted := .nil
  lookup key found := by
    constructor
    · exact fun hfound => nomatch hfound
    · rintro ⟨rfl, hsome⟩
      exact absurd rfl hsome

theorem Files.getD_lookup (hfiles : table.Files keyOf nodes) (key : String) :
    (table.lookup key).getD [] = nodes.filter (keyOf · = key) := by
  cases hfound : table.lookup key with
  | some found => exact ((hfiles.lookup key found).mp hfound).1
  | none =>
      by_contra hsome
      have hfiled := (hfiles.lookup key _).mpr ⟨rfl, Ne.symm hsome⟩
      exact Option.some_ne_none _ (hfiled.symm.trans hfound)

theorem Files.put (hfiles : table.Files keyOf nodes) (node : Node) :
    (table.put (keyOf node) node).Files keyOf (nodes ++ [node]) where
  sorted := pairwise_put hfiles.sorted
  lookup key found := by
    rw [lookup_put hfiles.sorted, List.filter_append]
    split
    case isTrue hkey =>
        subst hkey
        have hone : [node].filter (keyOf · = keyOf node) = [node] := by simp
        rw [hfiles.getD_lookup, hone, Option.some_inj]
        refine ⟨fun hfound => ⟨hfound.symm, ?_⟩, fun hfound => hfound.1.symm⟩
        rw [← hfound]
        exact List.concat_ne_nil _ _
    case isFalse hkey =>
        have hnone : [node].filter (keyOf · = key) = [] := by simpa using Ne.symm hkey
        rw [hnone, List.append_nil]
        exact hfiles.lookup key found

theorem Files.mem_keys_iff (hfiles : table.Files keyOf nodes) :
    key ∈ table.map Prod.fst ↔ ∃ node ∈ nodes, keyOf node = key := by
  have hkeys : key ∈ table.map Prod.fst ↔ table.lookup key ≠ none := by
    rw [Ne, List.lookup_eq_none_iff]
    simp
  rw [hkeys, Option.ne_none_iff_exists']
  simp only [hfiles.lookup]
  simp [List.filter_eq_nil_iff]

end NodesByKey

namespace Database

variable {database made : Database} {seen nodes : List Node} {node : Node}

-- The tables hold what there is to know of the nodes that have been seen, and the keys of these
-- lead to them.
structure HasFiled (database : Database) (seen : List Node) : Prop where
  names : ∀ key, database.byName.lookup key = seen.zipIdx.find? fun node => key ∈ node.1.keys
  hosts : database.byHost.Files (·.host) seen
  masters : database.masters = seen.filter (·.roles.has .master)
  slaves : database.slaves = seen.filter (·.roles.has .slave)
  backups : database.backups = seen.filter (·.roles.has .backup)
  groups : database.bySlaveGroup.Files (·.group) (seen.filter (·.roles.has .slave))

theorem hasFiled_blank (nodes : List Node) : HasFiled (blank nodes) [] where
  names _ := rfl
  hosts := NodesByKey.files_nil _
  masters := rfl
  slaves := rfl
  backups := rfl
  groups := NodesByKey.files_nil _

-- What becomes of the tables with a node that is let in.
def filed (database : Database) (node : Node × Nat) : Database :=
  ((database.withKey node.1.name node).withKey node.1.address node).shelve node.1

theorem lookup_filed (key : String) (node : Node × Nat) :
    (database.filed node).byName.lookup key =
      if key ∈ node.1.keys then some node else database.byName.lookup key := by
  simp only [filed, shelve, withKey, lookup_cons_eq_ite, Node.keys, List.mem_cons,
    List.not_mem_nil, or_false]
  by_cases haddress : key = node.1.address <;> simp [haddress]

theorem HasFiled.filed (hfiled : HasFiled database seen)
    (happart : ∀ other ∈ seen, other.keys.Disjoint node.keys) :
    HasFiled (database.filed (node, seen.length)) (seen ++ [node]) where
  names key := by
    rw [lookup_filed, hfiled.names, List.zipIdx_append, List.find?_append]
    by_cases hkey : key ∈ node.keys
    · have hnone : seen.zipIdx.find? (fun node => key ∈ node.1.keys) = none := by
        refine List.find?_eq_none.mpr fun other hother => ?_
        have hseen : other.1 ∈ seen := List.fst_mem_of_mem_zipIdx hother
        simpa using fun hmem => happart other.1 hseen hmem hkey
      simp [hkey, hnone]
    · simp [hkey]
  hosts := hfiled.hosts.put node
  masters := by
    rw [List.filter_append, ← hfiled.masters]
    by_cases hrole : node.roles.has .master <;> simp [Database.filed, shelve, withKey, hrole]
  slaves := by
    rw [List.filter_append, ← hfiled.slaves]
    by_cases hrole : node.roles.has .slave <;> simp [Database.filed, shelve, withKey, hrole]
  backups := by
    rw [List.filter_append, ← hfiled.backups]
    by_cases hrole : node.roles.has .backup <;> simp [Database.filed, shelve, withKey, hrole]
  groups := by
    rw [List.filter_append]
    by_cases hrole : node.roles.has .slave
    · simpa [Database.filed, shelve, withKey, hrole] using hfiled.groups.put node
    · simpa [Database.filed, shelve, withKey, hrole] using hfiled.groups

theorem bindName_eq_ok_iff {key : String} {entry : Node × Nat} :
    database.bindName key entry = .ok made ↔
      (∀ other, database.byName.lookup key = some other → other.2 = entry.2) ∧
        made = database.withKey key entry := by
  unfold bindName
  cases database.byName.lookup key with
  | none => simp [eq_comm]
  | some other =>
      simp only [Option.some.injEq, forall_eq']
      split
      case isTrue hsame => simp [hsame, eq_comm]
      case isFalse hother => simp [hother]

theorem HasFiled.lt_of_lookup (hfiled : HasFiled database seen) {key : String}
    {entry : Node × Nat} (hfound : database.byName.lookup key = some entry) :
    entry.2 < seen.length := by
  rw [hfiled.names] at hfound
  simpa using List.snd_lt_of_mem_zipIdx (List.mem_of_find?_eq_some hfound)

-- What a key stands for is never the node that comes next, so that it has to be free for it.
theorem HasFiled.free_iff (hfiled : HasFiled database seen) {key : String} :
    (∀ entry, database.byName.lookup key = some entry → entry.2 = seen.length) ↔
      ∀ other ∈ seen, key ∉ other.keys := by
  have hnone : (∀ other ∈ seen, key ∉ other.keys) ↔ database.byName.lookup key = none := by
    rw [hfiled.names, List.find?_eq_none, List.forall_mem_zipIdx']
    simp [List.forall_mem_iff_getElem]
  rw [hnone, Option.eq_none_iff_forall_ne_some]
  exact forall_congr' fun entry =>
    ⟨fun hsame hfound => Nat.ne_of_lt (hfiled.lt_of_lookup hfound) (hsame hfound),
      fun hother hfound => absurd hfound hother⟩

-- A node is let in if it is complete and neither its name nor its address is taken. The address may
-- be the name, which stands for the node itself by then.
theorem HasFiled.addNode_eq_ok_iff (hfiled : HasFiled database seen) :
    database.addNode (node, seen.length) = .ok made ↔
      (node.host ≠ "" ∧ node.port ≠ 0) ∧ (∀ other ∈ seen, other.keys.Disjoint node.keys) ∧
        made = database.filed (node, seen.length) := by
  have hdisjoint : (∀ other ∈ seen, other.keys.Disjoint node.keys) ↔
      (∀ other ∈ seen, node.name ∉ other.keys) ∧ ∀ other ∈ seen, node.address ∉ other.keys := by
    rw [← forall₂_and]
    refine forall₂_congr fun other _ => ?_
    rw [List.disjoint_comm, Node.keys, List.disjoint_cons_left, List.singleton_disjoint]
  have haddress (hname : ∀ other ∈ seen, node.name ∉ other.keys) :
      (∀ entry, (database.withKey node.name (node, seen.length)).byName.lookup node.address =
        some entry → entry.2 = seen.length) ↔ ∀ other ∈ seen, node.address ∉ other.keys := by
    simp only [withKey, lookup_cons_eq_ite]
    by_cases hsame : node.address = node.name
    · simpa [hsame] using hname
    · simp only [if_neg hsame, hfiled.free_iff]
  have hcomplete : ¬(node.host.isEmpty || node.port == 0) ↔ node.host ≠ "" ∧ node.port ≠ 0 := by
    simp
  simp only [addNode, ite_error_eq_ok_iff, hcomplete, bind_eq_ok_iff, bindName_eq_ok_iff,
    hfiled.free_iff, hdisjoint]
  refine and_congr_right fun _ => ⟨?_, ?_⟩
  · rintro ⟨_, ⟨hname, rfl⟩, _, ⟨hbound, rfl⟩, hmade⟩
    exact ⟨⟨hname, (haddress hname).mp hbound⟩, (Except.ok.inj hmade).symm⟩
  · rintro ⟨⟨hname, hfree⟩, rfl⟩
    exact ⟨_, ⟨hname, rfl⟩, _, ⟨(haddress hname).mpr hfree, rfl⟩, rfl⟩

-- The tables of nodes that are all let in.
def indexed (nodes : List Node) : Database := nodes.zipIdx.foldl filed (blank nodes)

theorem HasFiled.foldl (hfiled : HasFiled database seen)
    (happart : (seen ++ nodes).Pairwise (·.keys.Disjoint ·.keys)) :
    HasFiled ((nodes.zipIdx seen.length).foldl Database.filed database) (seen ++ nodes) := by
  induction nodes generalizing database seen with
  | nil => simpa using hfiled
  | cons node nodes ih =>
      have hnode : ∀ other ∈ seen, other.keys.Disjoint node.keys := fun other hother =>
        (List.pairwise_append.mp happart).2.2 other hother node List.mem_cons_self
      have hmore := ih (hfiled.filed hnode) (by simpa using happart)
      simpa [List.zipIdx_cons] using hmore

-- All nodes are let in exactly if each is complete and no two of them share a key.
theorem HasFiled.foldlM_eq_ok_iff (hfiled : HasFiled database seen) :
    (nodes.zipIdx seen.length).foldlM addNode database = .ok made ↔
      ((∀ node ∈ nodes, node.host ≠ "" ∧ node.port ≠ 0) ∧
        nodes.Pairwise (·.keys.Disjoint ·.keys) ∧
        ∀ other ∈ seen, ∀ node ∈ nodes, other.keys.Disjoint node.keys) ∧
      made = (nodes.zipIdx seen.length).foldl Database.filed database := by
  induction nodes generalizing database seen with
  | nil => simp [pure, Except.pure, eq_comm (a := made)]
  | cons node nodes ih =>
      rw [List.zipIdx_cons, List.foldlM_cons, bind_eq_ok_iff, List.foldl_cons]
      simp only [hfiled.addNode_eq_ok_iff]
      have hnext (hnode : ∀ other ∈ seen, other.keys.Disjoint node.keys) :=
        ih (hfiled.filed hnode)
      simp only [List.length_append, List.length_singleton] at hnext
      constructor
      · rintro ⟨_, ⟨hcomplete, hnode, rfl⟩, hmore⟩
        obtain ⟨⟨hothers, hapart, hfresh⟩, hmade⟩ := (hnext hnode).mp hmore
        rw [List.forall_mem_append, List.forall_mem_singleton] at hfresh
        refine ⟨⟨List.forall_mem_cons.mpr ⟨hcomplete, hothers⟩,
          List.pairwise_cons.mpr ⟨hfresh.2, hapart⟩, fun other hother => ?_⟩, hmade⟩
        exact List.forall_mem_cons.mpr ⟨hnode other hother, hfresh.1 other hother⟩
      · rintro ⟨⟨hcomplete, hapart, hfresh⟩, hmade⟩
        obtain ⟨hself, hothers⟩ := List.forall_mem_cons.mp hcomplete
        obtain ⟨hlater, hapart⟩ := List.pairwise_cons.mp hapart
        have hnode : ∀ other ∈ seen, other.keys.Disjoint node.keys := fun other hother =>
          hfresh other hother node List.mem_cons_self
        refine ⟨_, ⟨hself, hnode, rfl⟩, (hnext hnode).mpr ⟨⟨hothers, hapart, ?_⟩, hmade⟩⟩
        rw [List.forall_mem_append, List.forall_mem_singleton]
        exact ⟨fun other hother later hmem => hfresh other hother later (.tail _ hmem), hlater⟩

theorem hasFiled_indexed (hapart : nodes.Pairwise (·.keys.Disjoint ·.keys)) :
    HasFiled (indexed nodes) nodes :=
  (hasFiled_blank nodes).foldl hapart

theorem foldlM_addNode_eq_ok_iff :
    nodes.zipIdx.foldlM addNode (blank nodes) = .ok made ↔
      ((∀ node ∈ nodes, node.host ≠ "" ∧ node.port ≠ 0) ∧
        nodes.Pairwise (·.keys.Disjoint ·.keys)) ∧ made = indexed nodes := by
  have hall : nodes.zipIdx.foldlM addNode (blank nodes) = .ok made ↔ _ :=
    (hasFiled_blank nodes).foldlM_eq_ok_iff
  simpa [indexed] using hall

@[simp] theorem nodes_indexed (nodes : List Node) : (indexed nodes).nodes = nodes := by
  have hkept : ∀ (entries : List (Node × Nat)) (database : Database),
      (entries.foldl filed database).nodes = database.nodes := by
    intro entries
    induction entries with
    | nil => exact fun _ => rfl
    | cons entry entries ih => exact fun database => ih (database.filed entry)
  exact hkept _ _

end Database

end IndexFleet

import IndexFleet.Proofs.Database.Tables
import IndexFleet.Topology

namespace IndexFleet.Topology

namespace Pending

def address (pending : Pending) : String := addressOf pending.host pending.port

def isAt (pending : Pending) (host : String) (port : Port) : Bool :=
  (pending.host, pending.port) == (host, port)

end Pending

-- Taking a node in by searching the nodes that are there, which needs no tables.
def collectBySearch (pending : List Pending) (role : Role) (host : String) (port : Port)
    (aliasName replicate group : Option String) : Except Fault (List Pending) :=
  let aliasName := spoken aliasName
  match pending.find? (·.isAt host port) with
  | some existing =>
      if aliasName.isSome && aliasName != existing.aliasName then
        .error (.twoAliases (addressOf host port))
      else .ok (pending.map fun other =>
        if other.isAt host port then { other with roles := other.roles.insert role } else other)
  | none =>
      let fresh : Pending :=
        ⟨host, port, aliasName, replicate, Roles.none.insert role, groupOrDefault group⟩
      if pending.any (·.name == fresh.name) then .error (.nameUsedTwice fresh.name)
      else if pending.any (·.name == fresh.address) then .error (.addressIsAlias fresh.address)
      else if pending.any (·.address == fresh.name) then .error (.aliasIsAddress fresh.name)
      else .ok (pending ++ [fresh])

def resolveBySearch (pending : List Pending) (reference : Reference) :
    Except Fault (List Pending) :=
  if pending.any (·.name == reference.name) then
    .ok (pending.map fun other =>
      if other.name == reference.name then other.refer reference else other)
  else .error (.unresolvedReference reference.name)

-- The tables lead to the nodes that a search finds, each name and each place to one of them.
structure Collected.IsIndexed (collected : Collected) : Prop where
  byName : ∀ name, collected.byName.lookup name = collected.pending.findIdx? (·.name == name)
  byPlace : ∀ host port,
    collected.byPlace.lookup (host, port) = collected.pending.findIdx? (·.isAt host port)
  addresses : ∀ address,
    collected.addresses.contains address = collected.pending.any (·.address == address)
  names : collected.pending.Pairwise (·.name ≠ ·.name)
  places : collected.pending.Pairwise fun one other => other.isAt one.host one.port = false

variable {α : Type} {pending : List Pending} {collected made : Collected} {role : Role}
  {host : String} {port : Port} {aliasName replicate group : Option String} {name : String}

-- The only value that passes is changed where it stands.
theorem modify_of_findIdx? {values : List α} {check : α → Bool} {index : Nat} (change : α → α)
    (honly : values.Pairwise fun one other => check one = true → check other = false)
    (hfound : values.findIdx? check = some index) :
    values.modify index change =
      values.map fun value => if check value then change value else value := by
  induction values generalizing index with
  | nil => simp
  | cons value values ih =>
      obtain ⟨hvalue, hvalues⟩ := List.pairwise_cons.mp honly
      rw [List.findIdx?_cons] at hfound
      by_cases hcheck : check value = true
      · rw [if_pos hcheck, Option.some_inj] at hfound
        subst hfound
        have hothers : values.map (fun value => if check value then change value else value) =
            values := by
          refine (List.map_congr_left fun other hother => ?_).trans (List.map_id values)
          rw [if_neg (by simpa using hvalue other hother hcheck), id]
        simp [hcheck, hothers]
      · rw [if_neg hcheck] at hfound
        obtain ⟨place, hplace, rfl⟩ := Option.map_eq_some_iff.mp hfound
        simp [hcheck, ih hvalues hplace]

-- A table that leads to where keys are found still does so with an entry for a value that comes
-- last and whose key is new.
theorem lookup_cons_eq_findIdx? {κ : Type} [BEq κ] [LawfulBEq κ] [DecidableEq κ] {values : List α}
    {keyOf : α → κ} {table : List (κ × Nat)}
    (htable : ∀ key, table.lookup key = values.findIdx? (keyOf · == key)) {value : α}
    (hfresh : table.lookup (keyOf value) = none) (key : κ) :
    ((keyOf value, values.length) :: table).lookup key =
      (values ++ [value]).findIdx? (keyOf · == key) := by
  rw [lookup_cons_eq_ite, List.findIdx?_append, ← htable]
  by_cases hkey : key = keyOf value
  · simp [hkey, hfresh]
  · simp [hkey, Ne.symm hkey]

theorem isAt_iff {pending : Pending} :
    pending.isAt host port = true ↔ pending.host = host ∧ pending.port = port := by
  simp [Pending.isAt]

namespace Collected.IsIndexed

variable (hindexed : collected.IsIndexed)
include hindexed

theorem only_place : collected.pending.Pairwise fun one other =>
    one.isAt host port = true → other.isAt host port = false := by
  refine hindexed.places.imp fun {one other} hplace hone => ?_
  obtain ⟨rfl, rfl⟩ := isAt_iff.mp hone
  exact hplace

theorem map_collectNode (role : Role) (host : String) (port : Port)
    (aliasName replicate group : Option String) :
    (collectNode collected role host port aliasName replicate group).map (·.pending) =
      collectBySearch collected.pending role host port aliasName replicate group := by
  unfold collectNode collectBySearch
  rw [hindexed.byPlace, List.find?_eq_bind_findIdx?_getElem?]
  cases hplace : collected.pending.findIdx? (·.isAt host port) with
  | some index =>
      obtain ⟨existing, hexisting⟩ : ∃ existing, collected.pending[index]? = some existing := by
        obtain ⟨hindex, -⟩ := List.findIdx?_eq_some_iff_getElem.mp hplace
        exact ⟨_, List.getElem?_eq_getElem hindex⟩
      simp only [hexisting, Option.bind_some]
      split
      case isTrue => rfl
      case isFalse => simp [Except.map, modify_of_findIdx? _ hindexed.only_place hplace]
  | none =>
      simp only [hindexed.byName, List.findIdx?_isSome, hindexed.addresses, Option.bind_none]
      rw [apply_ite (Except.map _), apply_ite (Except.map _), apply_ite (Except.map _)]
      rfl

-- Nothing that the tables are about changes with the roles of a node.
theorem map {change : Pending → Pending}
    (hkept : ∀ pending, (change pending).host = pending.host ∧
      (change pending).port = pending.port ∧ (change pending).aliasName = pending.aliasName) :
    IsIndexed { collected with pending := collected.pending.map change } := by
  have hname : ∀ pending, (change pending).name = pending.name := fun pending => by
    simp only [Pending.name, hkept]
  have haddress : ∀ pending, (change pending).address = pending.address := fun pending => by
    simp only [Pending.address, hkept]
  have hplace : ∀ pending, (change pending).isAt = pending.isAt := fun pending => by
    funext host port
    simp only [Pending.isAt, hkept]
  constructor
  case byName =>
      intro name
      rw [hindexed.byName, List.findIdx?_map]
      simp [Function.comp_def, hname]
  case byPlace =>
      intro host port
      rw [hindexed.byPlace, List.findIdx?_map]
      simp [Function.comp_def, hplace]
  case addresses =>
      intro address
      rw [hindexed.addresses, List.any_map]
      simp [Function.comp_def, haddress]
  case names =>
      simpa [List.pairwise_map, hname] using hindexed.names
  case places =>
      simpa [List.pairwise_map, hplace, hkept] using hindexed.places

theorem of_collectNode_of_known {index : Nat}
    (hplace : collected.byPlace.lookup (host, port) = some index)
    (hmade : collectNode collected role host port aliasName replicate group = .ok made) :
    made.IsIndexed ∧ made.references = collected.references := by
  rw [collectNode, hplace, ite_error_eq_ok_iff, Except.ok.injEq] at hmade
  obtain ⟨-, rfl⟩ := hmade
  rw [hindexed.byPlace] at hplace
  rw [modify_of_findIdx? _ hindexed.only_place hplace]
  refine ⟨hindexed.map fun pending => ?_, rfl⟩
  split <;> exact ⟨rfl, rfl, rfl⟩

theorem concat (fresh : Pending) (hname : collected.byName.lookup fresh.name = none)
    (hplace : collected.byPlace.lookup (fresh.host, fresh.port) = none) :
    IsIndexed { collected with
      pending := collected.pending ++ [fresh]
      byName := (fresh.name, collected.pending.length) :: collected.byName
      addresses := fresh.address :: collected.addresses
      byPlace := ((fresh.host, fresh.port), collected.pending.length) :: collected.byPlace } where
  byName := lookup_cons_eq_findIdx? hindexed.byName hname
  byPlace host port := by
    have hbyPlace := fun place : String × Port => hindexed.byPlace place.1 place.2
    exact lookup_cons_eq_findIdx? hbyPlace hplace (host, port)
  addresses address := by
    rw [List.contains_cons, hindexed.addresses, List.any_append, List.any_cons, List.any_nil,
      Bool.or_false, Bool.or_comm, Bool.beq_comm]
  names := by
    rw [hindexed.byName, List.findIdx?_eq_none_iff] at hname
    refine List.pairwise_append.mpr ⟨hindexed.names, List.pairwise_singleton _ _, ?_⟩
    intro other hother last hlast
    rw [List.mem_singleton.mp hlast]
    exact ne_of_beq_false (hname other hother)
  places := by
    rw [hindexed.byPlace, List.findIdx?_eq_none_iff] at hplace
    refine List.pairwise_append.mpr ⟨hindexed.places, List.pairwise_singleton _ _, ?_⟩
    intro other hother last hlast
    rw [List.mem_singleton.mp hlast]
    exact Bool.beq_comm.trans (hplace other hother)

theorem of_collectNode_of_fresh (hplace : collected.byPlace.lookup (host, port) = none)
    (hmade : collectNode collected role host port aliasName replicate group = .ok made) :
    made.IsIndexed ∧ made.references = collected.references := by
  rw [collectNode, hplace] at hmade
  simp only [ite_error_eq_ok_iff, Except.ok.injEq] at hmade
  obtain ⟨hname, -, -, rfl⟩ := hmade
  rw [Option.not_isSome_iff_eq_none] at hname
  let fresh : Pending := ⟨host, port, spoken aliasName, replicate, Roles.none.insert role,
    groupOrDefault group⟩
  exact ⟨hindexed.concat fresh hname hplace, rfl⟩

theorem of_collectNode
    (hmade : collectNode collected role host port aliasName replicate group = .ok made) :
    made.IsIndexed ∧ made.references = collected.references := by
  cases hplace : collected.byPlace.lookup (host, port) with
  | some index => exact hindexed.of_collectNode_of_known hplace hmade
  | none => exact hindexed.of_collectNode_of_fresh hplace hmade

end Collected.IsIndexed

theorem isIndexed_nothing : Collected.nothing.IsIndexed where
  byName _ := rfl
  byPlace _ _ := rfl
  addresses _ := rfl
  names := .nil
  places := .nil

def collectAllBySearch (pending : List Pending) :
    List (Role × TopologyEntry) → Except Fault (List Pending)
  | [] => .ok pending
  | (_, .reference ..) :: rest => collectAllBySearch pending rest
  | (role, .node host port aliasName replicate group) :: rest => do
      collectAllBySearch (← collectBySearch pending role host port aliasName replicate group) rest

def referenceOf? : Role × TopologyEntry → Option Reference
  | (role, .reference name group) => some ⟨name, role, groupOrDefault group⟩
  | (_, .node ..) => none

-- The tables change nothing: the same nodes are collected, or the same fault is found.
theorem Collected.IsIndexed.collect_cases (hindexed : collected.IsIndexed)
    (entries : List (Role × TopologyEntry)) :
    (∃ fault, collect collected entries = .error fault ∧
      collectAllBySearch collected.pending entries = .error fault) ∨
    ∃ made, collect collected entries = .ok made ∧ made.IsIndexed ∧
      collectAllBySearch collected.pending entries = .ok made.pending ∧
      made.references = collected.references ++ entries.filterMap referenceOf? := by
  induction entries generalizing collected with
  | nil => exact .inr ⟨collected, rfl, hindexed, rfl, by simp⟩
  | cons entry entries ih =>
      obtain ⟨role, entry⟩ := entry
      cases entry with
      | reference name group =>
          let next : Collected := { collected with
            references := collected.references ++ [⟨name, role, groupOrDefault group⟩] }
          have hnext : next.IsIndexed := { hindexed with }
          simpa [collect, collectAllBySearch, referenceOf?, next] using ih hnext
      | node host port aliasName replicate group =>
          have hsearch := hindexed.map_collectNode role host port aliasName replicate group
          simp only [collect, collectAllBySearch, ← hsearch]
          cases hnode : collectNode collected role host port aliasName replicate group with
          | error fault => exact .inl ⟨fault, rfl, rfl⟩
          | ok made =>
              obtain ⟨hmade, hreferences⟩ := hindexed.of_collectNode hnode
              rw [← hreferences]
              exact ih hmade

-- A name leads to the only node that has it.
theorem resolve_eq_foldlM {byName : List (String × Nat)} {references : List Reference}
    (hbyName : ∀ name, byName.lookup name = pending.findIdx? (·.name == name))
    (hnames : pending.Pairwise (·.name ≠ ·.name)) :
    resolve byName pending references = references.foldlM resolveBySearch pending := by
  induction references generalizing pending with
  | nil => rfl
  | cons reference references ih =>
      rw [resolve, hbyName, List.foldlM_cons, resolveBySearch, ← List.findIdx?_isSome]
      cases hfound : pending.findIdx? (·.name == reference.name) with
      | none => rfl
      | some index =>
          have honly : pending.Pairwise fun one other =>
              (one.name == reference.name) = true → (other.name == reference.name) = false :=
            hnames.imp fun {one other} hname hone =>
              beq_iff_eq.mp hone ▸ beq_false_of_ne (Ne.symm hname)
          have hkept : ∀ pending : Pending,
              (if pending.name == reference.name then pending.refer reference else pending).name =
                pending.name := fun pending => by split <;> rfl
          dsimp only [bind, Except.bind]
          rw [modify_of_findIdx? _ honly hfound]
          refine ih (fun name => ?_) (List.pairwise_map.mpr ?_)
          · rw [hbyName, List.findIdx?_map]
            simp only [Function.comp_def, hkept]
          · simpa only [hkept] using hnames

-- Building with tables comes to the same as building by search.
theorem build_eq_bySearch (topology : Topology) : topology.build = (do
    let pending ← collectAllBySearch [] topology.entries
    let pending ← (topology.entries.filterMap referenceOf?).foldlM resolveBySearch pending
    (Database.ofNodes (pending.map Pending.toNode)).mapError .cluster) := by
  unfold build
  obtain ⟨fault, hcollect, hsearch⟩ | ⟨made, hcollect, hmade, hsearch, hreferences⟩ :=
    isIndexed_nothing.collect_cases topology.entries
  · have hsearch : collectAllBySearch [] topology.entries = .error fault := hsearch
    rw [hcollect, hsearch]
    rfl
  · have hsearch : collectAllBySearch [] topology.entries = .ok made.pending := hsearch
    have hreferences : made.references = topology.entries.filterMap referenceOf? := hreferences
    have hresolve : resolve made.byName made.pending made.references = _ :=
      resolve_eq_foldlM hmade.byName hmade.names
    rw [hcollect, hsearch, ← hreferences]
    simp only [bind, Except.bind, hresolve]

end IndexFleet.Topology

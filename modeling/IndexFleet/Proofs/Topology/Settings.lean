import IndexFleet.Proofs.Topology

namespace IndexFleet.Topology

variable {topology : Topology} {database : Database} {nodes : List Node} {node : Node} {told : Log}
  {mentions : List Mention} {description first : Description}

-- The mentions that move a node to a group.
def moves (mentions : List Mention) (first : Description) : List Mention :=
  mentions.filter fun mention => mention.name = first.name ∧ mention.role = .slave

-- The group of a node when no mention names one: a mention without a group moves it all the same.
def unnamedGroup (mentions : List Mention) (first : Description) : String :=
  if moves mentions first = [] then groupOrDefault first.group else defaultGroup

namespace Description

-- A replication master that is asked for is that of the node, and it is known.
def KeepsReplicate (description : Description) (nodes : List Node) (node : Node) : Prop :=
  ∀ master, description.replicate = some master →
    node.replicationMaster = some master ∧ ∃ other ∈ nodes, master ∈ other.keys

-- A group that is asked for is that of the node, unless the node is moved to a group by name.
def KeepsGroup (description : Description) (mentions : List Mention) (node : Node) : Prop :=
  ∀ group, spoken description.group = some group →
    (∀ mention ∈ mentions, mention.name = node.name → mention.role = .slave →
      spoken mention.group = none) →
    node.group = group

end Description

theorem groupOf_eq (mentions : List Mention) (first : Description) :
    groupOf mentions first =
      groupOrDefault ((moves mentions first).getLast?.elim first.group (·.group)) := by
  rw [groupOf, groupOrDefault_eq]
  cases hlast : (moves mentions first).getLast? <;>
  · unfold moves at hlast
    rw [hlast]
    rfl

theorem groupOf_of_unnamed (hunnamed : ∀ mention ∈ mentions, mention.name = first.name →
    mention.role = .slave → spoken mention.group = none) :
    groupOf mentions first = unnamedGroup mentions first := by
  rw [groupOf_eq, unnamedGroup]
  cases hlast : (moves mentions first).getLast? with
  | none => rw [if_pos (List.getLast?_eq_none_iff.mp hlast), Option.elim_none]
  | some last =>
      have hmoves := List.mem_of_getLast? hlast
      have hmem : last ∈ mentions ∧ last.name = first.name ∧ last.role = .slave := by
        simpa [moves] using hmoves
      have hspoken := hunnamed last hmem.1 hmem.2.1 hmem.2.2
      rw [if_neg (List.ne_nil_of_mem hmoves), Option.elim_some, groupOrDefault, hspoken,
        Option.getD_none]

theorem keepsGroup_iff :
    description.KeepsGroup topology.mentions (topology.meaning first) ↔
      (∃ mention ∈ moves topology.mentions first, spoken mention.group ≠ none) ∨
        spoken description.group = none ∨
        spoken description.group = some (unnamedGroup topology.mentions first) := by
  have hnamed : (∃ mention ∈ moves topology.mentions first, spoken mention.group ≠ none) ↔
      ¬∀ mention ∈ topology.mentions, mention.name = first.name → mention.role = .slave →
        spoken mention.group = none := by
    simp [moves, and_assoc]
  rw [hnamed]
  constructor
  · intro hkeeps
    by_cases hunnamed : ∀ mention ∈ topology.mentions, mention.name = first.name →
        mention.role = .slave → spoken mention.group = none
    · cases hgroup : spoken description.group with
      | none => exact .inr (.inl rfl)
      | some group =>
          have hsame : groupOf topology.mentions first = group := hkeeps group hgroup hunnamed
          rw [← hsame, groupOf_of_unnamed hunnamed]
          exact .inr (.inr rfl)
    · exact .inl hunnamed
  · rintro (hnamed | hnone | hsame) group hgroup hunnamed
    · exact absurd hunnamed hnamed
    · cases hnone.symm.trans hgroup
    · have hunnamed := groupOf_of_unnamed hunnamed
      exact hunnamed.trans (Option.some.inj (hsame.symm.trans hgroup))

theorem keepsReplicate_iff (hcomplete : Database.IsComplete topology.described)
    (hfirst : first ∈ leading topology.descriptions) :
    description.KeepsReplicate topology.described (topology.meaning first) ↔
      description.replicate = none ∨ description.replicate = first.replicate := by
  have hmem : topology.meaning first ∈ topology.described := List.mem_map_of_mem hfirst
  constructor
  · intro hkeeps
    cases hreplicate : description.replicate with
    | none => exact .inl rfl
    | some master => exact .inr (hkeeps master hreplicate).1.symm
  · rintro (hnone | hsame) master hreplicate
    · cases hnone.symm.trans hreplicate
    · have hmaster : first.replicate = some master := hsame.symm.trans hreplicate
      exact ⟨hmaster, hcomplete.replicated _ hmem master hmaster⟩

-- What becomes of the settings of a description. All that counts but its role is what the first
-- description of its place says, and where the mentions move the node.
structure IsMerged (topology : Topology) (nodes : List Node) (description first : Description) :
    Prop where
  leads : first ∈ leading topology.descriptions
  place : first.place = description.place
  mem : topology.meaning first ∈ nodes
  only : ∀ node ∈ nodes, node.host = description.host → node.port = description.port →
    node = topology.meaning first
  role : (topology.meaning first).roles.has description.role = true
  replicate : description.KeepsReplicate nodes (topology.meaning first) ↔
    description.replicate = none ∨ description.replicate = first.replicate
  group : description.KeepsGroup topology.mentions (topology.meaning first) ↔
    (∃ mention ∈ moves topology.mentions first, spoken mention.group ≠ none) ∨
      spoken description.group = none ∨
      spoken description.group = some (unnamedGroup topology.mentions first)

theorem eq_meaning_of_place (hfirst : first ∈ leading topology.descriptions)
    (hplace : first.place = description.place) (hnode : node ∈ topology.described)
    (hhost : node.host = description.host) (hport : node.port = description.port) :
    node = topology.meaning first := by
  obtain ⟨other, hother, rfl⟩ := List.mem_map.mp hnode
  have hsame : other.place = first.place := (Prod.ext hhost hport).trans hplace.symm
  rw [List.inj_on_of_nodup_map (nodup_places _) hother hfirst hsame]

theorem isMerged_of_build (hbuild : topology.build = .ok (database, told))
    (hdescription : description ∈ topology.descriptions) :
    ∃ first, topology.IsMerged database.nodes description first := by
  obtain ⟨-, -, hnodes⟩ := build_eq_ok_iff.mp hbuild
  obtain ⟨hcluster, rfl⟩ := Database.ofNodes_eq_ok_iff.mp ⟨told, hnodes⟩
  obtain ⟨first, hfirst, hplace⟩ := exists_mem_leading_iff.mpr ⟨description, hdescription, rfl⟩
  rw [Database.nodes_indexed]
  exact ⟨first, {
    leads := hfirst
    place := hplace
    mem := List.mem_map_of_mem hfirst
    only := fun _ hnode hhost hport => eq_meaning_of_place hfirst hplace hnode hhost hport
    role := has_rolesOf.mpr (.inl ⟨description, hdescription, hplace.symm, rfl⟩)
    replicate := keepsReplicate_iff hcluster.toIsComplete hfirst
    group := keepsGroup_iff }⟩

-- A second description of a slave and a mention without a group: what they ask for is lost.
def latecomers : Topology where
  master := [.node "a" 1 (some "one") none none, .node "b" 1 (some "two") none none]
  merger := []
  backup := [.node "c" 1 (some "three") (some "one") (some "east")]
  slave := [.node "b" 1 none (some "one") (some "west"), .reference "three" none]

theorem build_latecomers : latecomers.build = .ok
    (Database.indexed [⟨"a", 1, "one", ⟨true, false, false, false⟩, none, "DEFAULT"⟩,
      ⟨"b", 1, "two", ⟨true, true, false, false⟩, none, "DEFAULT"⟩,
      ⟨"c", 1, "three", ⟨false, true, false, true⟩, some "one", "DEFAULT"⟩],
      [.info "node (slave or backup) b:1 does not have a replication master"]) := by
  decide

theorem isMerged_latecomers :
    ∃ database told, latecomers.build = .ok (database, told) ∧
      ⟨.slave, "b", 1, none, some "one", some "west"⟩ ∈ latecomers.descriptions ∧
      ∃ first, latecomers.IsMerged database.nodes
        ⟨.slave, "b", 1, none, some "one", some "west"⟩ first := by
  have hmem : ⟨.slave, "b", 1, none, some "one", some "west"⟩ ∈ latecomers.descriptions :=
    .tail _ (.tail _ (.tail _ (.head _)))
  exact ⟨_, _, build_latecomers, hmem, isMerged_of_build build_latecomers hmem⟩

theorem lost_latecomers :
    ∃ database told, latecomers.build = .ok (database, told) ∧
      (∃ description ∈ latecomers.descriptions, ∀ node ∈ database.nodes,
        node.host = description.host → node.port = description.port →
          ¬description.KeepsReplicate database.nodes node ∧
            ¬description.KeepsGroup latecomers.mentions node) ∧
      ∃ description ∈ leading latecomers.descriptions, ∀ node ∈ database.nodes,
        node.host = description.host → node.port = description.port →
          ¬description.KeepsGroup latecomers.mentions node := by
  have hmentions : latecomers.mentions = [⟨.slave, "three", none⟩] := rfl
  have hdescriptions : latecomers.descriptions = [⟨.master, "a", 1, some "one", none, none⟩,
      ⟨.master, "b", 1, some "two", none, none⟩,
      ⟨.backup, "c", 1, some "three", some "one", some "east"⟩,
      ⟨.slave, "b", 1, none, some "one", some "west"⟩] := rfl
  refine ⟨_, _, build_latecomers, ⟨⟨.slave, "b", 1, none, some "one", some "west"⟩, ?_, ?_⟩,
    ⟨.backup, "c", 1, some "three", some "one", some "east"⟩, ?_, ?_⟩
  · simp [hdescriptions]
  · intro node hnode hhost hport
    simp only [Database.nodes_indexed, List.mem_cons, List.not_mem_nil, or_false] at hnode
    obtain rfl | rfl | rfl := hnode
    · simp at hhost
    · refine ⟨fun hkeeps => ?_, fun hkeeps => ?_⟩
      · cases (hkeeps "one" rfl).1
      · have hgroup := hkeeps "west" (by decide) (by simp [hmentions])
        simp at hgroup
    · simp at hhost
  · simp [hdescriptions, leading, Description.place]
  · intro node hnode hhost hport hkeeps
    simp only [Database.nodes_indexed, List.mem_cons, List.not_mem_nil, or_false] at hnode
    obtain rfl | rfl | rfl := hnode
    · simp at hhost
    · simp at hhost
    · have hgroup := hkeeps "east" (by decide) (by simp [hmentions, spoken])
      simp at hgroup

end IndexFleet.Topology

import IndexFleet.Proofs.Database
import IndexFleet.Proofs.Topology.Search
import Mathlib.Data.List.Induction
import Mathlib.Tactic.MkIffOfInductiveProp

namespace IndexFleet.Topology

-- A node as one entry of a section describes it.
structure Description where
  role : Role
  host : String
  port : Port
  aliasName : Option String
  replicate : Option String
  group : Option String

-- What another entry says of it by its name.
structure Mention where
  role : Role
  name : String
  group : Option String

def description? (role : Role) : TopologyEntry → Option Description
  | .reference .. => none
  | .node host port aliasName replicate group =>
      some ⟨role, host, port, aliasName, replicate, group⟩

def mention? (role : Role) : TopologyEntry → Option Mention
  | .reference name group => some ⟨role, name, group⟩
  | .node .. => none

def descriptions (topology : Topology) : List Description :=
  topology.master.filterMap (description? .master) ++
    topology.merger.filterMap (description? .merger) ++
    topology.backup.filterMap (description? .backup) ++
    topology.slave.filterMap (description? .slave)

def mentions (topology : Topology) : List Mention :=
  topology.master.filterMap (mention? .master) ++ topology.merger.filterMap (mention? .merger) ++
    topology.backup.filterMap (mention? .backup) ++ topology.slave.filterMap (mention? .slave)

-- A text that is more than white space.
def written : Option String → Option String
  | some text => if text.toList.all Text.isBlank then none else some text
  | none => none

theorem spoken_eq_written (text : Option String) : spoken text = written text := by
  cases text with
  | none => rfl
  | some text =>
      rw [spoken, written, Option.filter_some, ← ite_not]
      exact ite_congr (by simp [Text.allBlank]) (fun _ => rfl) fun _ => rfl

theorem groupOrDefault_eq (group : Option String) :
    groupOrDefault group = (written group).getD "DEFAULT" := by
  rw [groupOrDefault, spoken_eq_written]
  rfl

namespace Description

def place (description : Description) : String × Port := (description.host, description.port)

def address (description : Description) : String := addressOf description.host description.port

def name (description : Description) : String :=
  (written description.aliasName).getD description.address

def keys (description : Description) : List String := [description.name, description.address]

end Description

-- The first description of each place.
def leading : List Description → List Description
  | [] => []
  | first :: rest => first :: (leading rest).filter (·.place ≠ first.place)

-- The sections in which the place is described and those in which its name is mentioned.
def rolesOf (all : List Description) (mentions : List Mention) (first : Description) : Roles :=
  Roles.ofList ((all.filter (·.place = first.place)).map (·.role) ++
    (mentions.filter (·.name = first.name)).map (·.role))

-- The last mention among the slaves moves a node to its group.
def groupOf (mentions : List Mention) (first : Description) : String :=
  match (mentions.filter fun mention =>
      mention.name = first.name ∧ mention.role = .slave).getLast? with
  | some mention => (written mention.group).getD "DEFAULT"
  | none => (written first.group).getD "DEFAULT"

def meaning (topology : Topology) (first : Description) : Node where
  host := first.host
  port := first.port
  name := first.name
  roles := rolesOf topology.descriptions topology.mentions first
  replicationMaster := first.replicate
  group := groupOf topology.mentions first

-- The nodes that a topology speaks of, in the order in which they come up.
def described (topology : Topology) : List Node :=
  (leading topology.descriptions).map topology.meaning

-- No place has two aliases, and no name or address stands for two places.
@[mk_iff] structure IsUnambiguous (all : List Description) : Prop where
  aliases : ∀ first ∈ leading all, ∀ other ∈ all, other.place = first.place →
    written other.aliasName = none ∨ written other.aliasName = written first.aliasName
  apart : (leading all).Pairwise (·.keys.Disjoint ·.keys)

structure IsConsistent (topology : Topology) : Prop
    extends IsUnambiguous topology.descriptions where
  resolved : ∀ mention ∈ topology.mentions,
    ∃ first ∈ leading topology.descriptions, first.name = mention.name
  complete : Database.IsComplete topology.described

variable {all : List Description} {description first : Description}

theorem exists_mem_leading_iff {place : String × Port} :
    (∃ first ∈ leading all, first.place = place) ↔ ∃ first ∈ all, first.place = place := by
  induction all with
  | nil => rfl
  | cons first all ih =>
      by_cases hfirst : first.place = place
      · simp [leading, hfirst]
      · have hother : ∀ other : Description, other.place = place → other.place ≠ first.place :=
          fun other hplace hsame => hfirst (hsame.symm.trans hplace)
        simp only [leading, List.exists_mem_cons_iff, hfirst, false_or, ← ih, List.mem_filter,
          decide_eq_true_iff]
        exact exists_congr fun other =>
          ⟨fun ⟨hmem, hplace⟩ => ⟨hmem.1, hplace⟩,
            fun ⟨hmem, hplace⟩ => ⟨⟨hmem, hother other hplace⟩, hplace⟩⟩

theorem leading_concat :
    leading (all ++ [description]) =
      leading all ++ if ∃ first ∈ leading all, first.place = description.place then []
        else [description] := by
  simp only [exists_mem_leading_iff]
  induction all with
  | nil => simp [leading]
  | cons first all ih =>
      rw [List.cons_append, leading, ih, leading, List.filter_append, List.cons_append]
      simp only [List.exists_mem_cons_iff]
      by_cases hfirst : first.place = description.place
      · simp only [hfirst, true_or, if_true]
        split <;> simp
      · simp only [hfirst, false_or]
        split <;> simp [Ne.symm hfirst]

theorem leading_concat_of_known
    (hknown : ∃ first ∈ leading all, first.place = description.place) :
    leading (all ++ [description]) = leading all := by
  rw [leading_concat, if_pos hknown, List.append_nil]

theorem leading_concat_of_fresh
    (hfresh : ¬∃ first ∈ leading all, first.place = description.place) :
    leading (all ++ [description]) = leading all ++ [description] := by
  rw [leading_concat, if_neg hfresh]

-- What is asked of a description that comes after others: it names no other alias of a place that
-- is known, and shares no key with one at another place.
@[mk_iff] structure IsCompatible (all : List Description) (description : Description) : Prop where
  aliases : ∀ first ∈ leading all, first.place = description.place →
    written description.aliasName = none ∨ written description.aliasName = written first.aliasName
  apart : (¬∃ first ∈ leading all, first.place = description.place) →
    ∀ first ∈ leading all, first.keys.Disjoint description.keys

theorem isUnambiguous_concat :
    IsUnambiguous (all ++ [description]) ↔ IsUnambiguous all ∧ IsCompatible all description := by
  by_cases hknown : ∃ first ∈ leading all, first.place = description.place
  · simp only [isUnambiguous_iff, isCompatible_iff, leading_concat_of_known hknown, hknown,
      List.forall_mem_append, List.forall_mem_singleton, forall₂_and, not_true, false_implies,
      and_true, eq_comm (a := description.place)]
    tauto
  · have hothers : ∀ other ∈ all, other.place = description.place →
        written other.aliasName = none ∨
          written other.aliasName = written description.aliasName := by
      rw [exists_mem_leading_iff] at hknown
      exact fun other hother hplace => absurd ⟨other, hother, hplace⟩ hknown
    simp only [isUnambiguous_iff, isCompatible_iff, leading_concat_of_fresh hknown, hknown,
      List.forall_mem_append, List.forall_mem_singleton, forall₂_and, List.pairwise_append,
      List.pairwise_singleton, iff_true_intro hothers, eq_comm (a := description.place)]
    tauto

theorem IsUnambiguous.of_append {more : List Description} (hall : IsUnambiguous (all ++ more)) :
    IsUnambiguous all := by
  induction more using List.reverseRecOn with
  | nil => rwa [List.append_nil] at hall
  | append_singleton more description ih =>
      rw [← List.append_assoc] at hall
      exact ih (isUnambiguous_concat.mp hall).1

-- How far a node has got when some of the descriptions and mentions are taken in.
def pendingOf (all : List Description) (mentions : List Mention) (first : Description) :
    Pending where
  host := first.host
  port := first.port
  aliasName := spoken first.aliasName
  replicate := first.replicate
  roles := rolesOf all mentions first
  group := groupOf mentions first

def pendingNodes (all : List Description) (mentions : List Mention) : List Pending :=
  (leading all).map (pendingOf all mentions)

variable {mentions : List Mention} {mention : Mention} {pending : List Pending}

theorem isAt_pendingOf :
    (pendingOf all mentions first).isAt description.host description.port = true ↔
      first.place = description.place := by
  simp [Pending.isAt, pendingOf, Description.place]

@[simp] theorem name_pendingOf : (pendingOf all mentions first).name = first.name := by
  rw [Description.name, ← spoken_eq_written]
  rfl

@[simp] theorem address_pendingOf : (pendingOf all mentions first).address = first.address := rfl

theorem pendingOf_concat :
    pendingOf (all ++ [description]) [] first =
      if (pendingOf all [] first).isAt description.host description.port then
        { pendingOf all [] first with roles := (rolesOf all [] first).insert description.role }
      else pendingOf all [] first := by
  by_cases hplace : description.place = first.place
  · rw [if_pos (isAt_pendingOf.mpr hplace.symm)]
    simp [pendingOf, rolesOf, hplace, Roles.ofList_concat]
  · rw [if_neg (mt isAt_pendingOf.mp (Ne.symm hplace))]
    simp [pendingOf, rolesOf, hplace]

theorem pendingOf_of_fresh (hfresh : ∀ other ∈ all, other.place ≠ description.place) :
    pendingOf (all ++ [description]) [] description =
      ⟨description.host, description.port, spoken description.aliasName, description.replicate,
        Roles.none.insert description.role, groupOrDefault description.group⟩ := by
  have hnone : all.filter (·.place = description.place) = [] :=
    List.filter_eq_nil_iff.mpr fun other hother => by simpa using hfresh other hother
  simp [pendingOf, rolesOf, groupOf, hnone, Roles.ofList, groupOrDefault_eq]

theorem address_inj :
    first.address = description.address ↔ first.place = description.place := by
  rw [Description.address, Description.address, addressOf_inj, Description.place,
    Description.place, Prod.mk.injEq]

theorem disjoint_keys_iff (hplace : first.place ≠ description.place) :
    first.keys.Disjoint description.keys ↔ first.name ≠ description.name ∧
      first.name ≠ description.address ∧ first.address ≠ description.name := by
  have haddress : first.address ≠ description.address := mt address_inj.mp hplace
  simp only [Description.keys, List.disjoint_cons_left, List.mem_cons, List.disjoint_nil_left,
    haddress, not_or, not_false_eq_true, and_true, and_assoc, ne_eq, List.not_mem_nil]

def collectDescription (pending : List Pending) (description : Description) :
    Except Fault (List Pending) :=
  collectBySearch pending description.role description.host description.port description.aliasName
    description.replicate description.group

theorem collectDescription_pendingNodes_of_fresh
    (hfresh : ∀ first ∈ leading all, first.place ≠ description.place) :
    collectDescription (pendingNodes all []) description = .ok pending ↔
      IsCompatible all description ∧ pending = pendingNodes (all ++ [description]) [] := by
  have hunknown : ¬∃ first ∈ leading all, first.place = description.place := by simpa using hfresh
  have hfind : (pendingNodes all []).find? (·.isAt description.host description.port) = none := by
    simpa [pendingNodes, isAt_pendingOf] using hfresh
  have hnodes : pendingNodes (all ++ [description]) [] =
      pendingNodes all [] ++ [pendingOf (all ++ [description]) [] description] := by
    rw [pendingNodes, leading_concat_of_fresh hunknown, List.map_append]
    congr 1
    refine List.map_congr_left fun first hfirst => ?_
    rw [pendingOf_concat, if_neg (mt isAt_pendingOf.mp (hfresh first hfirst))]
  have hothers : ∀ other ∈ all, other.place ≠ description.place := by
    simpa [exists_mem_leading_iff] using hunknown
  have hcompatible : IsCompatible all description ↔
      ∀ first ∈ leading all, first.name ≠ description.name ∧
        first.name ≠ description.address ∧ first.address ≠ description.name := by
    rw [isCompatible_iff,
      and_iff_right fun first hfirst hplace => absurd hplace (hfresh first hfirst),
      forall_prop_of_true hunknown]
    exact forall₂_congr fun first hfirst => disjoint_keys_iff (hfresh first hfirst)
  unfold collectDescription collectBySearch
  rw [hfind, hnodes, hcompatible]
  dsimp only
  rw [← pendingOf_of_fresh hothers]
  simp [ite_error_eq_ok_iff, pendingNodes, forall₂_and, and_assoc, eq_comm (a := pending)]

theorem nodup_places (all : List Description) : ((leading all).map (·.place)).Nodup := by
  induction all with
  | nil => exact .nil
  | cons first all ih =>
      rw [leading, List.map_cons, List.nodup_cons]
      refine ⟨fun hmem => ?_, ih.sublist (List.filter_sublist.map _)⟩
      obtain ⟨other, hother, hplace⟩ := List.mem_map.mp hmem
      exact of_decide_eq_true (List.mem_filter.mp hother).2 hplace

theorem collectDescription_pendingNodes_of_known (hfirst : first ∈ leading all)
    (hplace : first.place = description.place) :
    collectDescription (pendingNodes all []) description = .ok pending ↔
      IsCompatible all description ∧ pending = pendingNodes (all ++ [description]) [] := by
  have hknown : ∃ first ∈ leading all, first.place = description.place := ⟨first, hfirst, hplace⟩
  have honly : ∀ other ∈ leading all, other.place = description.place → other = first :=
    fun other hother hsame =>
      List.inj_on_of_nodup_map (nodup_places all) hother hfirst (hsame.trans hplace.symm)
  have hfind : (pendingNodes all []).find? (·.isAt description.host description.port) =
      some (pendingOf all [] first) := by
    cases hfind : (pendingNodes all []).find? (·.isAt description.host description.port) with
    | none =>
        have hmem : pendingOf all [] first ∈ pendingNodes all [] := List.mem_map_of_mem hfirst
        exact absurd (isAt_pendingOf.mpr hplace) (List.find?_eq_none.mp hfind _ hmem)
    | some existing =>
        obtain ⟨other, hother, rfl⟩ := List.mem_map.mp (List.mem_of_find?_eq_some hfind)
        have hat := List.find?_some hfind
        rw [honly other hother (isAt_pendingOf.mp hat)]
  have hnodes : pendingNodes (all ++ [description]) [] = (pendingNodes all []).map fun other =>
      if other.isAt description.host description.port then
        { other with roles := other.roles.insert description.role } else other := by
    rw [pendingNodes, leading_concat_of_known hknown, pendingNodes, List.map_map]
    exact List.map_congr_left fun other _ => pendingOf_concat
  have hcompatible : IsCompatible all description ↔ written description.aliasName = none ∨
      written description.aliasName = written first.aliasName := by
    rw [isCompatible_iff, and_iff_left fun hunknown => absurd hknown hunknown]
    refine ⟨fun haliases => haliases first hfirst hplace, fun halias other hother hsame => ?_⟩
    rwa [honly other hother hsame]
  unfold collectDescription collectBySearch
  rw [hfind, hcompatible, hnodes]
  have halias : (pendingOf all [] first).aliasName = written first.aliasName :=
    spoken_eq_written first.aliasName
  rw [spoken_eq_written]
  simp [ite_error_eq_ok_iff, halias, eq_comm (a := pending), Option.isSome_iff_ne_none,
    imp_iff_not_or]

theorem collectDescription_pendingNodes :
    collectDescription (pendingNodes all []) description = .ok pending ↔
      IsCompatible all description ∧ pending = pendingNodes (all ++ [description]) [] := by
  by_cases hknown : ∃ first ∈ leading all, first.place = description.place
  · obtain ⟨first, hfirst, hplace⟩ := hknown
    exact collectDescription_pendingNodes_of_known hfirst hplace
  · exact collectDescription_pendingNodes_of_fresh (by simpa using hknown)

theorem collectAllBySearch_eq (pending : List Pending) (entries : List (Role × TopologyEntry)) :
    collectAllBySearch pending entries =
      (entries.filterMap fun entry => description? entry.1 entry.2).foldlM collectDescription
        pending := by
  induction entries generalizing pending with
  | nil => rfl
  | cons entry entries ih =>
      obtain ⟨role, entry⟩ := entry
      cases entry with
      | reference name group => exact ih pending
      | node host port aliasName replicate group => exact bind_congr fun middle => ih middle

theorem filterMap_entries {α : Type} (topology : Topology)
    (read : Role → TopologyEntry → Option α) :
    topology.entries.filterMap (fun entry => read entry.1 entry.2) =
      topology.master.filterMap (read .master) ++ topology.merger.filterMap (read .merger) ++
        topology.backup.filterMap (read .backup) ++ topology.slave.filterMap (read .slave) := by
  simp [entries, sections, List.filterMap_append, List.filterMap_map]

theorem collect_pendingNodes {more : List Description} (hall : IsUnambiguous all) :
    more.foldlM collectDescription (pendingNodes all []) = .ok pending ↔
      IsUnambiguous (all ++ more) ∧ pending = pendingNodes (all ++ more) [] := by
  induction more generalizing all with
  | nil => simp [hall, pure, Except.pure, eq_comm]
  | cons description more ih =>
      rw [List.foldlM_cons, bind_eq_ok_iff, List.append_cons]
      constructor
      · rintro ⟨middle, hmiddle, hrest⟩
        obtain ⟨hcompatible, rfl⟩ := collectDescription_pendingNodes.mp hmiddle
        exact (ih (isUnambiguous_concat.mpr ⟨hall, hcompatible⟩)).mp hrest
      · rintro ⟨hmore, hpending⟩
        have hnext := hmore.of_append
        have hmiddle := collectDescription_pendingNodes.mpr ⟨(isUnambiguous_concat.mp hnext).2, rfl⟩
        exact ⟨_, hmiddle, (ih hnext).mpr ⟨hmore, hpending⟩⟩

def Mention.reference (mention : Mention) : Reference :=
  ⟨mention.name, mention.role, groupOrDefault mention.group⟩

def resolveMention (pending : List Pending) (mention : Mention) : Except Fault (List Pending) :=
  resolveBySearch pending mention.reference

theorem references_eq (topology : Topology) :
    topology.entries.filterMap referenceOf? = topology.mentions.map Mention.reference := by
  have hread : referenceOf? = fun entry => (mention? entry.1 entry.2).map Mention.reference := by
    funext ⟨role, entry⟩
    cases entry <;> rfl
  rw [hread, ← List.map_filterMap, filterMap_entries, mentions]

theorem pendingOf_mention :
    pendingOf all (mentions ++ [mention]) first =
      if (pendingOf all mentions first).name == mention.name then
        (pendingOf all mentions first).refer mention.reference
      else pendingOf all mentions first := by
  rw [name_pendingOf]
  by_cases hname : first.name = mention.name
  · have hroles : rolesOf all (mentions ++ [mention]) first =
        (rolesOf all mentions first).insert mention.role := by
      simp [rolesOf, hname, ← List.append_assoc, Roles.ofList_concat]
    -- a group that stays what it is need not be written
    have hgroup : groupOf (mentions ++ [mention]) first =
        ((pendingOf all mentions first).refer mention.reference).group := by
      by_cases hslave : mention.role = .slave
      · have hmoved : groupOf (mentions ++ [mention]) first = groupOrDefault mention.group := by
          simp [groupOf, hname, hslave, groupOrDefault_eq]
        rw [hmoved]
        by_cases hsame : groupOf mentions first = groupOrDefault mention.group <;>
          simp [pendingOf, Pending.refer, Mention.reference, hslave, hsame]
      · simp [pendingOf, Pending.refer, Mention.reference, groupOf, hname, hslave]
    rw [if_pos (beq_iff_eq.mpr hname), pendingOf, hroles, hgroup]
    rfl
  · simp [pendingOf, rolesOf, groupOf, hname, Ne.symm hname]

theorem resolveMention_pendingNodes :
    resolveMention (pendingNodes all mentions) mention = .ok pending ↔
      (∃ first ∈ leading all, first.name = mention.name) ∧
        pending = pendingNodes all (mentions ++ [mention]) := by
  have hnodes : pendingNodes all (mentions ++ [mention]) =
      (pendingNodes all mentions).map fun other =>
        if other.name == mention.name then other.refer mention.reference else other := by
    rw [pendingNodes, pendingNodes, List.map_map]
    exact List.map_congr_left fun first _ => pendingOf_mention
  have hany : (pendingNodes all mentions).any (·.name == mention.name) ↔
      ∃ first ∈ leading all, first.name = mention.name := by simp [pendingNodes]
  have hname : mention.reference.name = mention.name := rfl
  rw [hnodes, ← hany, resolveMention, resolveBySearch, hname]
  by_cases hfound : (pendingNodes all mentions).any (·.name == mention.name)
  · rw [if_pos hfound, Except.ok.injEq, and_iff_right hfound, eq_comm]
  · rw [if_neg hfound]
    simp [hfound]

theorem resolve_pendingNodes {more : List Mention} :
    more.foldlM resolveMention (pendingNodes all mentions) = .ok pending ↔
      (∀ mention ∈ more, ∃ first ∈ leading all, first.name = mention.name) ∧
        pending = pendingNodes all (mentions ++ more) := by
  induction more generalizing mentions with
  | nil => simp [pure, Except.pure, eq_comm]
  | cons mention more ih =>
      rw [List.foldlM_cons, bind_eq_ok_iff, List.append_cons, List.forall_mem_cons, and_assoc, ← ih]
      constructor
      · rintro ⟨middle, hmiddle, hrest⟩
        obtain ⟨hfirst, rfl⟩ := resolveMention_pendingNodes.mp hmiddle
        exact ⟨hfirst, hrest⟩
      · rintro ⟨hfirst, hrest⟩
        exact ⟨_, resolveMention_pendingNodes.mpr ⟨hfirst, rfl⟩, hrest⟩

theorem mapError_eq_ok_iff {ε ε' α : Type} {tell : ε → ε'} {result : Except ε α} {value : α} :
    result.mapError tell = .ok value ↔ result = .ok value := by
  cases result <;> simp [Except.mapError]

theorem isConsistent_iff_isCluster {topology : Topology} :
    topology.IsConsistent ↔ IsUnambiguous topology.descriptions ∧
      (∀ mention ∈ topology.mentions,
        ∃ first ∈ leading topology.descriptions, first.name = mention.name) ∧
          Database.IsCluster topology.described := by
  refine ⟨fun h => ⟨h.toIsUnambiguous, h.resolved, h.complete, ?_⟩, fun h => ⟨h.1, h.2.1, h.2.2.1⟩⟩
  exact List.pairwise_map.mpr h.apart

theorem has_rolesOf {role : Role} :
    (rolesOf all mentions first).has role ↔
      (∃ other ∈ all, other.place = first.place ∧ other.role = role) ∨
        ∃ mention ∈ mentions, mention.name = first.name ∧ mention.role = role := by
  simp only [rolesOf, Roles.has_ofList, List.mem_append, List.mem_map, List.mem_filter,
    decide_eq_true_iff, and_assoc]

theorem build_eq_ok_iff {topology : Topology} {database : Database} {told : Log} :
    topology.build = .ok (database, told) ↔ IsUnambiguous topology.descriptions ∧
      (∀ mention ∈ topology.mentions,
        ∃ first ∈ leading topology.descriptions, first.name = mention.name) ∧
          Database.ofNodes topology.described = .ok (database, told) := by
  have hdescriptions : topology.entries.filterMap (fun entry => description? entry.1 entry.2) =
      topology.descriptions := filterMap_entries topology description?
  have hnone : IsUnambiguous [] := ⟨List.forall_mem_nil _, .nil⟩
  have hcollect {pending : List Pending} :
      topology.descriptions.foldlM collectDescription [] = .ok pending ↔
        IsUnambiguous topology.descriptions ∧ pending = pendingNodes topology.descriptions [] :=
    collect_pendingNodes hnone
  have hresolve {pending : List Pending} :
      (topology.mentions.map Mention.reference).foldlM resolveBySearch
          (pendingNodes topology.descriptions []) = .ok pending ↔
        (∀ mention ∈ topology.mentions,
          ∃ first ∈ leading topology.descriptions, first.name = mention.name) ∧
            pending = pendingNodes topology.descriptions topology.mentions := by
    rw [List.foldlM_map]
    exact resolve_pendingNodes
  have hnodes : (pendingNodes topology.descriptions topology.mentions).map Pending.toNode =
      topology.described := by
    rw [pendingNodes, List.map_map]
    refine List.map_congr_left fun first _ => ?_
    rw [Function.comp_apply, Pending.toNode, name_pendingOf]
    rfl
  rw [build_eq_bySearch, collectAllBySearch_eq, hdescriptions, references_eq]
  simp only [bind_eq_ok_iff, hcollect, and_assoc, exists_and_left, exists_eq_left, hresolve,
    mapError_eq_ok_iff, hnodes]

-- A topology is built exactly if it is consistent, and then the nodes are those it speaks of.
theorem build_eq_described (topology : Topology) :
    ((∃ made, topology.build = .ok made) ↔ topology.IsConsistent) ∧
    (∀ database told, topology.build = .ok (database, told) →
      database.IsIndexOf topology.described) ∧
    ∀ first role, (topology.meaning first).roles.has role ↔
      (∃ other ∈ topology.descriptions, other.place = first.place ∧ other.role = role) ∨
        ∃ mention ∈ topology.mentions, mention.name = first.name ∧ mention.role = role := by
  refine ⟨?_, fun database told hbuild => ?_, fun first role => has_rolesOf⟩
  · rw [isConsistent_iff_isCluster, ← Database.exists_ofNodes_iff]
    simp only [Prod.exists, build_eq_ok_iff, exists_and_left]
  · exact Database.isIndexOf_of_eq_ok (build_eq_ok_iff.mp hbuild).2.2

-- A merger that is a node of its own, a slave section that describes the master's place again, with
-- a blank alias, moves the backup from the group of its description, and has a node of its own.
def fourSections : Topology where
  master := [.node "a" 1 (some "one") none none]
  merger := [.node "c" 1 (some "three") none (some " ")]
  backup := [.node "b" 1 none (some "one") (some "west"), .reference "three" (some "east")]
  slave := [.node "a" 1 (some "\t ") (some "gone") (some "lost"), .reference "b:1" (some "east"),
    .reference "b:1" (some " "), .node "b" 2 (some "two") (some "a:1") (some "west")]

def fourNodes : List Node :=
  [⟨"a", 1, "one", ⟨true, true, false, false⟩, none, "DEFAULT"⟩,
    ⟨"c", 1, "three", ⟨false, false, true, true⟩, none, "DEFAULT"⟩,
    ⟨"b", 1, "b:1", ⟨false, true, false, true⟩, some "one", "DEFAULT"⟩,
    ⟨"b", 2, "two", ⟨false, true, false, false⟩, some "a:1", "west"⟩]

theorem build_fourSections :
    fourSections.IsConsistent ∧
      ∃ database told, fourSections.build = .ok (database, told) ∧
        database.IsIndexOf fourNodes := by
  obtain ⟨hconsistent, hindex, -⟩ := build_eq_described fourSections
  have hdescribed : fourSections.described = fourNodes := by decide
  have hbuilt : fourSections.build.isOk = true := by decide
  cases hmade : fourSections.build with
  | error fault => simp [hmade, Except.isOk, Except.toBool] at hbuilt
  | ok made =>
      exact ⟨hconsistent.mp ⟨made, hmade⟩, made.1, made.2, rfl, hdescribed ▸ hindex _ _ hmade⟩

end IndexFleet.Topology

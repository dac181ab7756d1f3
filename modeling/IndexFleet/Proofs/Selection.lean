import IndexFleet.Proofs.Database

namespace IndexFleet.Database

variable {database : Database} {nodes : List Node} {node : Node} {told : Log}

theorem IsCluster.eq_of_address_eq (hcluster : IsCluster nodes) {other : Node}
    (hnode : node ∈ nodes) (hother : other ∈ nodes) (hsame : node.address = other.address) :
    node = other :=
  List.inj_on_of_nodup_map hcluster.nodup_addresses hnode hother hsame

-- A host and a port select among all nodes, whatever the number of nodes on that host.
theorem HasFiled.toOption_selectByHost (hfiled : HasFiled database nodes) (host : String)
    (port : Port) :
    (database.selectByHost host (some port)).1.toOption =
      nodes.find? fun node => node.host = host ∧ node.port = port := by
  have hfind : (nodes.filter (·.host = host)).find? (·.port == port) =
      nodes.find? fun node => node.host = host ∧ node.port = port := by
    rw [List.find?_filter]
    congr 1
    funext node
    simp
  rw [← hfind, ← hfiled.hosts.getD_lookup]
  unfold selectByHost onHost?
  rcases database.byHost.lookup host with _ | _ | ⟨first, _ | ⟨second, rest⟩⟩
  · rfl
  · rfl
  · by_cases hport : first.port = port <;> simp [hport, Except.toOption]
  · cases hfound : (first :: second :: rest).find? (·.port == port) <;>
      simp [hfound, Except.toOption]

theorem toOption_eq_some_iff {ε α : Type} {result : Except ε α} {value : α} :
    result.toOption = some value ↔ result = .ok value := by
  cases result <;> simp [Except.toOption]

theorem IsCluster.selectByHost_eq_ok_iff (hcluster : IsCluster nodes) {host : String}
    {port : Port} :
    (selectByHost (indexed nodes) host (some port)).1 = .ok node ↔
      node ∈ nodes ∧ node.host = host ∧ node.port = port := by
  rw [← toOption_eq_some_iff, hcluster.hasFiled.toOption_selectByHost]
  constructor
  · intro hfind
    have hplace := List.find?_some hfind
    exact ⟨List.mem_of_find?_eq_some hfind, of_decide_eq_true hplace⟩
  · rintro ⟨hnode, rfl, rfl⟩
    -- some node is found there, and no other has its address
    obtain ⟨found, hfound⟩ : ∃ found,
        nodes.find? (fun other => other.host = node.host ∧ other.port = node.port) = some found :=
      Option.isSome_iff_exists.mp (List.find?_isSome.mpr ⟨node, hnode, by simp⟩)
    have hplace : found.host = node.host ∧ found.port = node.port := by
      simpa using List.find?_some hfound
    have haddress : found.address = node.address := addressOf_inj.mpr hplace
    have hsame := hcluster.eq_of_address_eq (List.mem_of_find?_eq_some hfound) hnode haddress
    exact hsame ▸ hfound

theorem IsCluster.findAddress?_eq_some_iff (hcluster : IsCluster nodes) {host : String}
    {port : Port} :
    findAddress? (indexed nodes) host port = some node ↔
      node ∈ nodes ∧ (node.host = host ∧ node.port = port ∨ node.name = addressOf host port) := by
  have hkey : addressOf host port ∈ node.keys ↔
      node.host = host ∧ node.port = port ∨ node.name = addressOf host port := by
    rw [Node.keys, List.mem_cons, List.mem_singleton, Node.address, addressOf_inj, or_comm,
      eq_comm (a := host), eq_comm (a := port), eq_comm (a := node.name)]
  rw [findAddress?, hcluster.find?_eq_some_iff, hkey]

-- No alias is written like the address of another place.
def HasPlainAliases (nodes : List Node) (host : String) (port : Port) : Prop :=
  ∀ node ∈ nodes, node.name = addressOf host port → node.host = host ∧ node.port = port

-- The look-up by the text of an address and the one by host and port come to the same node exactly
-- where no alias stands in the way.
theorem IsCluster.findAddress?_eq_iff (hcluster : IsCluster nodes) (host : String) (port : Port) :
    findAddress? (indexed nodes) host port =
        (selectByHost (indexed nodes) host (some port)).1.toOption ↔
      HasPlainAliases nodes host port := by
  constructor
  · intro hagree node hnode hname
    have hfound := hcluster.findAddress?_eq_some_iff.mpr ⟨hnode, .inr hname⟩
    have hselected := toOption_eq_some_iff.mp (hagree.symm.trans hfound)
    exact (hcluster.selectByHost_eq_ok_iff.mp hselected).2
  · intro hplain
    apply Option.ext
    intro node
    rw [toOption_eq_some_iff, hcluster.findAddress?_eq_some_iff, hcluster.selectByHost_eq_ok_iff]
    refine and_congr_right fun hnode => ?_
    rw [or_iff_left_of_imp (hplain node hnode)]

theorem findsAddress_of_ofNodes (hnodes : ofNodes nodes = .ok (database, told)) (host : String)
    (port : Port) :
    (∀ node, database.findAddress? host port = some node ↔
      node ∈ nodes ∧ (node.host = host ∧ node.port = port ∨ node.name = addressOf host port)) ∧
    (∀ node, (database.selectByHost host (some port)).1 = .ok node ↔
      node ∈ nodes ∧ node.host = host ∧ node.port = port) ∧
    (database.findAddress? host port = (database.selectByHost host (some port)).1.toOption ↔
      HasPlainAliases nodes host port) := by
  obtain ⟨hcluster, rfl⟩ := ofNodes_eq_ok_iff.mp ⟨told, hnodes⟩
  exact ⟨fun _ => hcluster.findAddress?_eq_some_iff, fun _ => hcluster.selectByHost_eq_ok_iff,
    hcluster.findAddress?_eq_iff host port⟩

-- An alias that is written like the address of a place where no node is.
def strayAlias : List Node :=
  [⟨"a", 1, "b:2", ⟨true, true, false, false⟩, none, defaultGroup⟩]

theorem findsAddress_strayAlias :
    ∃ database told, ofNodes strayAlias = .ok (database, told) ∧
      (∀ node, database.findAddress? "b" 2 = some node ↔ node ∈ strayAlias ∧
        (node.host = "b" ∧ node.port = 2 ∨ node.name = addressOf "b" 2)) ∧
      (∀ node, (database.selectByHost "b" (some 2)).1 = .ok node ↔
        node ∈ strayAlias ∧ node.host = "b" ∧ node.port = 2) ∧
      (database.findAddress? "b" 2 = (database.selectByHost "b" (some 2)).1.toOption ↔
        HasPlainAliases strayAlias "b" 2) :=
  ⟨_, _, rfl, findsAddress_of_ofNodes rfl "b" 2⟩

-- The node with that alias is found at the place, although it is elsewhere and the selection by
-- host and port knows of none.
theorem findAddress_ne_select_strayAlias :
    ∃ database told, ofNodes strayAlias = .ok (database, told) ∧
      (¬∀ node, database.findAddress? "b" 2 = some node ↔
        node ∈ strayAlias ∧ node.host = "b" ∧ node.port = 2) ∧
      database.findAddress? "b" 2 ≠ (database.selectByHost "b" (some 2)).1.toOption := by
  refine ⟨_, _, rfl, fun hfinds => ?_, by decide⟩
  have hfound : findAddress? (indexed strayAlias) "b" 2 = some strayAlias[0] := by decide
  have hhost : "a" = "b" := ((hfinds _).mp hfound).2.1
  exact absurd hhost (by decide)

end IndexFleet.Database

import IndexFleet.Proofs.Selection
import IndexFleet.Proofs.Target

namespace IndexFleet

-- A text that lists items: without the blanks around it, it is cut at every comma, and the pieces
-- lose the blanks around them as well.
def Lists (text : String) (items : List String) : Prop :=
  ∃ pieces : List String, pieces ≠ [] ∧ (∀ piece ∈ pieces, ',' ∉ piece.toList) ∧
    ",".intercalate pieces = Text.trim text ∧ items = pieces.map Text.trim

theorem lists_iff {text : String} {items : List String} :
    Lists text items ↔ items = Text.items ',' text := by
  constructor
  · rintro ⟨pieces, hpieces, hfree, hjoined, hitems⟩
    have hfields : Text.fields ',' (",".intercalate pieces) = pieces :=
      Text.fields_intercalate hpieces hfree
    rw [hitems, Text.items, ← hjoined, hfields]
  · intro hitems
    refine ⟨Text.fields ',' (Text.trim text), ?_, ?_, ?_, hitems⟩
    · simp [Text.fields, List.splitOn_ne_nil]
    · exact fun _ => Text.not_mem_of_mem_fields
    · exact Text.intercalate_fields ',' (Text.trim text)

-- An item as it stands in a list, with any blanks around it.
def IsPadded (piece item : String) : Prop :=
  ∃ left right, Text.allBlank left ∧ Text.allBlank right ∧ piece = left ++ item ++ right

theorem IsPadded.trim_eq {piece item : String} (hpadded : IsPadded piece item)
    (hitem : Text.trim item = item) : Text.trim piece = item := by
  obtain ⟨left, right, hleft, hright, rfl⟩ := hpadded
  rw [Text.trim_pad hleft hright, hitem]

theorem IsPadded.comma_not_mem {piece item : String} (hpadded : IsPadded piece item)
    (hitem : ',' ∉ item.toList) : ',' ∉ piece.toList := by
  obtain ⟨left, right, hleft, hright, rfl⟩ := hpadded
  have hblank : ∀ text : String, Text.allBlank text → ',' ∉ text.toList :=
    fun text htext hcomma => absurd (List.all_eq_true.mp htext _ hcomma) (by decide)
  simp [hblank left hleft, hblank right hright, hitem]

-- Items that are written one after the other with commas are the items of the list.
theorem items_of_padded {pieces items : List String} (hitems : items ≠ [])
    (hplain : ∀ item ∈ items, ',' ∉ item.toList ∧ Text.trim item = item)
    (hpadded : List.Forall₂ IsPadded pieces items) :
    Text.items ',' (",".intercalate pieces) = items := by
  have hpieces : pieces ≠ [] := by
    rintro rfl
    exact hitems (List.forall₂_nil_left_iff.mp hpadded)
  have hboth : (∀ piece ∈ pieces, ',' ∉ piece.toList) ∧ pieces.map Text.trim = items := by
    clear hitems hpieces
    induction hpadded with
    | nil => simp
    | cons hpiece _ ih =>
        obtain ⟨⟨hcomma, htrim⟩, hrest⟩ := List.forall_mem_cons.mp hplain
        obtain ⟨hfree, hmap⟩ := ih hrest
        refine ⟨List.forall_mem_cons.mpr ⟨hpiece.comma_not_mem hcomma, hfree⟩, ?_⟩
        rw [List.map_cons, hpiece.trim_eq htrim, hmap]
  exact (Text.items_intercalate (by decide) hpieces hboth.1).trans hboth.2

namespace Database

variable {database : Database} {nodes : List Node} {target : String}

-- The key stands for the node.
def Names (database : Database) (key : String) (node : Node) : Prop :=
  node ∈ database.nodes ∧ key ∈ node.keys

theorem IsCluster.names_iff (hcluster : IsCluster nodes) {key : String} {node : Node} :
    Names (indexed nodes) key node ↔ find? (indexed nodes) key = some node := by
  rw [Names, nodes_indexed, hcluster.find?_eq_some_iff]

theorem IsCluster.not_names_iff (hcluster : IsCluster nodes) {key : String} :
    (∀ node, ¬Names (indexed nodes) key node) ↔ find? (indexed nodes) key = none := by
  simp only [hcluster.names_iff, Option.eq_none_iff_forall_ne_some, ne_eq]

-- What comes of a target: the nodes of a keyword, or those of the items of a list, all of which
-- must be known; the first that is not is told.
inductive Means (database : Database) (target : String) : Except Failure (List Node) → Prop
  | keyword {keyword : String} {meant : List Node} (hkeyword : (keyword, meant) ∈ database.keywords)
      (htrim : Text.trim target = keyword) : Means database target (.ok meant)
  | unspecified (htrim : Text.trim target = "") :
      Means database target (.error (.targetNotFound "no target specified"))
  | listed {items : List String} {meant : List Node} (hlisted : IsListed target)
      (hitems : Lists target items) (hnamed : List.Forall₂ database.Names items meant) :
      Means database target (.ok meant)
  | unknown {known rest : List String} {item : String} (hlisted : IsListed target)
      (hitems : Lists target (known ++ item :: rest))
      (hknown : ∀ one ∈ known, ∃ node, database.Names one node)
      (hunknown : ∀ node, ¬database.Names item node) :
      Means database target (.error (.targetNotFound s!"no instance named {item}"))

-- All that there is to know of the targets of a database: what they mean, and that nodes which are
-- written as a list are meant by it.
structure ResolvesTargets (database : Database) : Prop where
  means : ∀ target result,
    (database.targets target).mapError TargetFault.failure = result ↔ database.Means target result
  keyword : ∀ keyword meant, (keyword, meant) ∈ database.keywords → meant ≠ [] ∧ meant.Nodup
  unique : ∀ key one other, database.Names key one → database.Names key other → one = other
  items : ∀ target, ∃ items, Lists target items ∧ (∀ others, Lists target others → others = items) ∧
    items.length = (Text.trim target).toList.count ',' + 1
  nonempty : ∀ target meant, database.targets target = .ok meant → 0 < meant.length
  given : ∀ target other, database.targets target ≠ .error (.noNodes other)
  written : ∀ chosen keys pieces, chosen ≠ [] → List.Forall₂ database.Names keys chosen →
    (∀ key ∈ keys, ',' ∉ key.toList ∧ Text.trim key = key) →
    (∀ key ∈ ["", "master", "slave", "all"], keys ≠ [key]) →
    List.Forall₂ IsPadded pieces keys →
    database.targets (",".intercalate pieces) = .ok chosen

theorem IsCluster.keyword (hcluster : IsCluster nodes) {keyword : String} {meant : List Node}
    (hkeyword : (keyword, meant) ∈ keywords (indexed nodes)) : meant ≠ [] ∧ meant.Nodup := by
  have hnodup : nodes.Nodup := hcluster.nodup_addresses.of_map _
  refine ⟨?_, hnodup.sublist (nodes_indexed nodes ▸ sublist_of_keyword hkeyword)⟩
  obtain ⟨master, hmaster, hmasters⟩ := hcluster.master
  obtain ⟨slave, hslave, hslaves⟩ := hcluster.slave
  simp only [keywords, nodes_indexed, List.mem_cons, List.not_mem_nil, or_false,
    Prod.mk.injEq] at hkeyword
  rcases hkeyword with ⟨_, rfl⟩ | ⟨_, rfl⟩ | ⟨_, rfl⟩
  · exact List.ne_nil_of_mem (List.mem_filter.mpr ⟨hmaster, hmasters⟩)
  · exact List.ne_nil_of_mem (List.mem_filter.mpr ⟨hslave, hslaves⟩)
  · exact List.ne_nil_of_mem hmaster

theorem IsCluster.targets_of_keyword (hcluster : IsCluster nodes) {keyword : String}
    {meant : List Node} (hkeyword : (keyword, meant) ∈ keywords (indexed nodes))
    (htrim : Text.trim target = keyword) : targets (indexed nodes) target = .ok meant := by
  have hgiven : meant ≠ [] := (hcluster.keyword hkeyword).1
  rw [Database.targets_of_keyword hcluster.isIndexOf hkeyword htrim, if_neg (by simpa using hgiven)]

theorem IsCluster.named_eq_ok_iff (hcluster : IsCluster nodes) {items : List String}
    {meant : List Node} :
    named (indexed nodes) items = .ok meant ↔ List.Forall₂ (Names (indexed nodes)) items meant := by
  have hnames : Names (indexed nodes) = fun key node => find? (indexed nodes) key = some node :=
    funext₂ fun key node => propext hcluster.names_iff
  rw [Database.named_eq_ok_iff, hnames]

theorem IsCluster.means_targets (hcluster : IsCluster nodes) (target : String) :
    Means (indexed nodes) target
      ((targets (indexed nodes) target).mapError TargetFault.failure) := by
  rcases keyword_or_blank_or_isListed (indexed nodes) target with
    ⟨keyword, meant, hkeyword, htrim⟩ | hblank | hlisted
  · rw [hcluster.targets_of_keyword hkeyword htrim]
    exact .keyword hkeyword htrim
  · rw [targets_of_blank hblank]
    exact .unspecified hblank
  · have hitems : Lists target (Text.items ',' target) := lists_iff.mpr rfl
    rw [targets_of_listed hlisted]
    cases hnamed : named (indexed nodes) (Text.items ',' target) with
    | ok meant => exact .listed hlisted hitems (hcluster.named_eq_ok_iff.mp hnamed)
    | error fault =>
        obtain ⟨known, item, rest, hsplit, hknown, hitem, rfl⟩ := named_eq_error_iff.mp hnamed
        refine .unknown hlisted (hsplit ▸ hitems) ?_ (hcluster.not_names_iff.mpr hitem)
        exact fun one hone => (hknown one hone).imp fun node => hcluster.names_iff.mpr

theorem IsCluster.targets_of_means (hcluster : IsCluster nodes)
    {result : Except Failure (List Node)} (hmeans : Means (indexed nodes) target result) :
    (targets (indexed nodes) target).mapError TargetFault.failure = result := by
  cases hmeans with
  | keyword hkeyword htrim => rw [hcluster.targets_of_keyword hkeyword htrim]; rfl
  | unspecified hblank => rw [targets_of_blank hblank]; rfl
  | listed hlisted hitems hnamed =>
      rw [lists_iff.mp hitems] at hnamed
      rw [targets_of_listed hlisted, hcluster.named_eq_ok_iff.mpr hnamed]
      rfl
  | unknown hlisted hitems hknown hunknown =>
      have hfault := named_eq_error_iff.mpr ⟨_, _, _, (lists_iff.mp hitems).symm,
        fun one hone => (hknown one hone).imp fun node => hcluster.names_iff.mp,
        hcluster.not_names_iff.mp hunknown, rfl⟩
      rw [targets_of_listed hlisted, hfault]
      rfl

theorem IsCluster.targets_ne_noNodes (hcluster : IsCluster nodes) (target other : String) :
    targets (indexed nodes) target ≠ .error (.noNodes other) := by
  intro hnone
  rcases keyword_or_blank_or_isListed (indexed nodes) target with
    ⟨keyword, meant, hkeyword, htrim⟩ | hblank | hlisted
  · exact nomatch (hcluster.targets_of_keyword hkeyword htrim).symm.trans hnone
  · exact nomatch (targets_of_blank hblank).symm.trans hnone
  · rw [targets_of_listed hlisted] at hnone
    obtain ⟨_, _, _, _, _, _, hfault⟩ := named_eq_error_iff.mp hnone
    exact nomatch hfault

theorem IsCluster.targets_of_written (hcluster : IsCluster nodes) {chosen : List Node}
    {keys pieces : List String} (hchosen : chosen ≠ [])
    (hnamed : List.Forall₂ (Names (indexed nodes)) keys chosen)
    (hplain : ∀ key ∈ keys, ',' ∉ key.toList ∧ Text.trim key = key)
    (hreserved : ∀ key ∈ ["", "master", "slave", "all"], keys ≠ [key])
    (hpadded : List.Forall₂ IsPadded pieces keys) :
    targets (indexed nodes) (",".intercalate pieces) = .ok chosen := by
  have hkeys : keys ≠ [] := by
    rintro rfl
    exact hchosen (List.forall₂_nil_left_iff.mp hnamed)
  have hitems := items_of_padded hkeys hplain hpadded
  -- a reserved word would be the only item
  have hlisted : IsListed (",".intercalate pieces) := by
    intro hword
    have hfields : ∀ word ∈ ["", "master", "slave", "all"],
        (Text.fields ',' word).map Text.trim = [word] := by decide
    have honly := hfields _ hword
    exact hreserved _ hword (hitems.symm.trans honly)
  rw [targets_of_listed hlisted, hitems, hcluster.named_eq_ok_iff.mpr hnamed]

theorem IsCluster.resolvesTargets (hcluster : IsCluster nodes) :
    ResolvesTargets (indexed nodes) where
  means target _ :=
    ⟨fun hresult => hresult ▸ hcluster.means_targets target, hcluster.targets_of_means⟩
  keyword _ _ := hcluster.keyword
  unique key one other hone hother := by
    have hfound := hcluster.names_iff.mp hone
    exact Option.some.inj (hfound.symm.trans (hcluster.names_iff.mp hother))
  items target :=
    ⟨Text.items ',' target, lists_iff.mpr rfl, fun _ => lists_iff.mp, Text.length_items ',' target⟩
  nonempty _ _ := nonempty_of_targets
  given := hcluster.targets_ne_noNodes
  written _ _ _ := hcluster.targets_of_written

theorem resolvesTargets_of_ofNodes {told : Log} (hnodes : ofNodes nodes = .ok (database, told)) :
    database.nodes = nodes ∧ database.ResolvesTargets := by
  obtain ⟨hcluster, rfl⟩ := ofNodes_eq_ok_iff.mp ⟨told, hnodes⟩
  exact ⟨nodes_indexed nodes, hcluster.resolvesTargets⟩

-- Blanks stand on either side of a comma, and a node is listed twice.
theorem resolvesTargets_twoGroups :
    ∃ database told, ofNodes twoGroups = .ok (database, told) ∧ database.ResolvesTargets ∧
      database.targets (",".intercalate ["one ", "\tb:1", "one"]) =
        .ok [twoGroups[0], twoGroups[2], twoGroups[0]] := by
  obtain ⟨hnodes, hresolves⟩ := resolvesTargets_of_ofNodes
    (show ofNodes twoGroups = .ok (indexed twoGroups, _) from rfl)
  have hnamed : List.Forall₂ (Names (indexed twoGroups)) ["one", "b:1", "one"]
      [twoGroups[0], twoGroups[2], twoGroups[0]] := by
    refine .cons ?_ (.cons ?_ (.cons ?_ .nil)) <;> exact ⟨by decide, by decide⟩
  have hpadded : List.Forall₂ IsPadded ["one ", "\tb:1", "one"] ["one", "b:1", "one"] :=
    .cons ⟨"", " ", rfl, rfl, rfl⟩ (.cons ⟨"\t", "", rfl, rfl, rfl⟩
      (.cons ⟨"", "", rfl, rfl, rfl⟩ .nil))
  exact ⟨_, _, rfl, hresolves,
    hresolves.written _ _ _ (by decide) hnamed (by decide) (by decide) hpadded⟩

end Database

end IndexFleet

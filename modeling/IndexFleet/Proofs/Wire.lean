import IndexFleet.Command.Run
import IndexFleet.Proofs.Entity

namespace IndexFleet

-- What a text with markup is made of.
inductive Markup
  | tag (name : String)
  | run (text : String)
  deriving Repr, DecidableEq

namespace Markup

-- A tag goes up to the next angle bracket that closes one, and a run of text up to the next one
-- that opens a tag.
def ofChars (text : List Char) : List Markup :=
  match text with
  | [] => []
  | '<' :: rest =>
      .tag (String.ofList (rest.takeWhile (· != '>'))) ::
        ofChars ((rest.dropWhile (· != '>')).drop 1)
  | c :: rest =>
      .run (String.ofList (c :: rest.takeWhile (· != '<'))) ::
        ofChars (rest.dropWhile (· != '<'))
termination_by text.length
decreasing_by
  · have hrest := (List.dropWhile_sublist (l := rest) (· != '>')).length_le
    simp only [List.length_drop, List.length_cons]
    omega
  · have hrest := (List.dropWhile_sublist (l := rest) (· != '<')).length_le
    simp only [List.length_cons]
    omega

-- A run of text, unless there is none.
def runOf (text : String) : List Markup := if text = "" then [] else [.run text]

theorem ofChars_tag {name : List Char} (hname : '>' ∉ name) (rest : List Char) :
    ofChars ('<' :: (name ++ '>' :: rest)) = .tag (String.ofList name) :: ofChars rest := by
  have hall : ∀ c ∈ name, (c != '>') = true := fun c hc => bne_iff_ne.mpr fun hsame =>
    hname (hsame ▸ hc)
  rw [ofChars]
  simp [List.takeWhile_append_of_pos hall, List.dropWhile_append_of_pos hall]

theorem ofChars_of_ne {c : Char} (hfirst : c ≠ '<') (rest : List Char) :
    ofChars (c :: rest) =
      .run (String.ofList (c :: rest.takeWhile (· != '<'))) ::
        ofChars (rest.dropWhile (· != '<')) := by
  rw [ofChars]
  exact hfirst

theorem ofChars_run {run : List Char} (hrun : '<' ∉ run) (rest : List Char) :
    ofChars (run ++ '<' :: rest) = runOf (String.ofList run) ++ ofChars ('<' :: rest) := by
  cases run with
  | nil => rfl
  | cons c run =>
      have hall : ∀ c ∈ run, (c != '<') = true := fun c hc => bne_iff_ne.mpr fun hsame =>
        hrun (List.mem_cons_of_mem _ (hsame ▸ hc))
      have hfirst : c ≠ '<' := fun hsame => hrun (hsame ▸ .head run)
      rw [List.cons_append, ofChars_of_ne hfirst]
      simp [runOf, List.takeWhile_append_of_pos hall, List.dropWhile_append_of_pos hall]

end Markup

namespace Wire

open Text.Entity (escape decode marks names)

theorem toList_deleteBody (query : String) :
    (deleteBody query).toList =
      '<' :: ("delete".toList ++ '>' :: '<' :: ("query".toList ++ '>' ::
        ((escape query).toList ++ '<' :: ("/query".toList ++ '>' ::
          '<' :: ("/delete".toList ++ '>' :: []))))) := by
  have hbody : deleteBody query =
      "<delete><query>" ++ escape query ++ "</query></delete>" := rfl
  have hopening : "<delete><query>".toList =
      '<' :: ("delete".toList ++ '>' :: '<' :: ("query".toList ++ ['>'])) := by decide
  have hclosing : "</query></delete>".toList =
      '<' :: ("/query".toList ++ '>' :: '<' :: ("/delete".toList ++ ['>'])) := by decide
  rw [hbody, String.toList_append, String.toList_append, hopening, hclosing]
  simp only [List.cons_append, List.append_assoc, List.nil_append]

theorem deleteBody_injective : Function.Injective deleteBody := fun query other hsame => by
  have hchars := congrArg String.toList hsame
  simp only [toList_deleteBody] at hchars
  refine Text.Entity.escape_injective (String.toList_inj.mp ?_)
  simpa using hchars

theorem deleteBody_eq_deleteAllBody_iff {query : String} :
    deleteBody query = deleteAllBody ↔ query = "*:*" := by
  have hall : deleteBody "*:*" = deleteAllBody := by decide
  rw [← hall, deleteBody_injective.eq_iff]

theorem ofChars_deleteBody (query : String) :
    Markup.ofChars (deleteBody query).toList =
      [.tag "delete", .tag "query"] ++ Markup.runOf (escape query) ++
        [.tag "/query", .tag "/delete"] := by
  have hopen : '<' ∉ (escape query).toList := by
    rw [escape, String.toList_ofList]
    intro hmem
    exact absurd (Text.Entity.eq_ampersand_of_mem_escapeChars hmem (by decide)) (by decide)
  have hnames : ∀ name ∈ ["delete", "query", "/query", "/delete"], '>' ∉ name.toList := by decide
  have htag : ∀ name ∈ ["delete", "query", "/query", "/delete"], ∀ rest,
      Markup.ofChars ('<' :: (name.toList ++ '>' :: rest)) = .tag name :: Markup.ofChars rest :=
    fun name hname rest => by
      rw [Markup.ofChars_tag (hnames name hname), String.ofList_toList]
  rw [toList_deleteBody, htag "delete" (by simp), htag "query" (by simp),
    Markup.ofChars_run hopen, htag "/query" (by simp), htag "/delete" (by simp),
    Markup.ofChars, String.ofList_toList]
  simp only [List.cons_append, List.nil_append]

theorem calls_delete_eq_calls_deleteAll_iff {query : String} {tree : FileTree} {client : Client}
    {network : Network} :
    ((Command.dialogue tree ⟨.delete, some query, client⟩).run network).calls =
        ((Command.dialogue tree ⟨.deleteAll, none, client⟩).run network).calls ↔
      query = "*:*" := by
  rw [← deleteBody_eq_deleteAllBody_iff]
  simp only [Command.dialogue, Command.withArgument, Client.update, Client.send, Dialogue.run,
    Client.updateRequest, Client.post, List.cons.injEq, and_true, Prod.mk.injEq, Request.mk.injEq,
    true_and]
  exact ⟨And.left, fun hbody => ⟨hbody, by rw [hbody]⟩⟩

-- How a query stands in the body that asks to delete by it: between the tags as a single run of
-- text that is read back as the query, with no mark in it that could be taken for anything else.
structure Encloses (query : String) : Prop where
  plain : ∀ c ∈ (escape query).toList, c ∉ ['<', '>', '"', '\'']
  entities : ∀ before after, (escape query).toList = before ++ '&' :: after →
    ∃ name ∈ names, name.toList ++ [';'] <+: after
  decoded : decode (escape query) = query
  injective : ∀ other, escape query = escape other → query = other
  appended : ∀ more, escape (query ++ more) = escape query ++ escape more
  parts : Markup.ofChars (deleteBody query).toList =
    [.tag "delete", .tag "query"] ++ Markup.runOf (escape query) ++ [.tag "/query", .tag "/delete"]
  distinct : ∀ other, deleteBody query = deleteBody other → query = other
  all : deleteBody query = deleteAllBody ↔ query = "*:*"
  sent : ∀ tree client network,
    ((Command.dialogue tree ⟨.delete, some query, client⟩).run network).calls =
        ((Command.dialogue tree ⟨.deleteAll, none, client⟩).run network).calls ↔
      query = "*:*"

theorem encloses (query : String) : Encloses query where
  plain c hc hmark := by
    rw [escape, String.toList_ofList] at hc
    have hmarks : c ∈ marks := List.mem_cons_of_mem _ hmark
    have hfirst := Text.Entity.eq_ampersand_of_mem_escapeChars hc hmarks
    exact absurd (hfirst ▸ hmark) (by decide)
  entities before after hsplit := by
    rw [escape, String.toList_ofList] at hsplit
    exact Text.Entity.exists_name_of_ampersand hsplit
  decoded := Text.Entity.decode_escape query
  injective _ hsame := Text.Entity.escape_injective hsame
  appended := Text.Entity.escape_append query
  parts := ofChars_deleteBody query
  distinct _ hsame := deleteBody_injective hsame
  all := deleteBody_eq_deleteAllBody_iff
  sent _ _ _ := calls_delete_eq_calls_deleteAll_iff

-- Text that looks like an entity or a tag is kept as it is.
example : decode (deleteBody "a&lt;b</query>") =
    "<delete><query>a&lt;b</query></query></delete>" := by
  decide

end Wire

end IndexFleet

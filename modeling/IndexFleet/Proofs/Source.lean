import IndexFleet.Command.Run
import IndexFleet.Proofs.Pieces
import IndexFleet.Proofs.Text
import IndexFleet.Source

namespace IndexFleet.Source

def texts (source : Source) : List String := source.rows.map (·.1)

-- What stands in the first column of a row.
def idOf (row : String) : String := (Text.fields '\t' row).headD ""

theorem idColumn_eq (source : Source) : source.idColumn = idOf source.header :=
  Text.firstField_eq '\t' source.header

-- The ids of rows, in order. Rows without an id are passed over.
def idsOf (rows : List String) : List String := (rows.map idOf).filter (!·.isEmpty)

theorem idsOf_cons (row : String) (rows : List String) :
    idsOf (row :: rows) = idsOf [row] ++ idsOf rows :=
  List.filter_append [idOf row] (rows.map idOf)

theorem idsOf_cons_of_unnamed {row : String} (rows : List String)
    (hid : (idOf row).isEmpty = true) : idsOf (row :: rows) = idsOf rows := by
  simp [idsOf, hid]

theorem idsOf_cons_of_named {row : String} (rows : List String)
    (hid : (idOf row).isEmpty = false) : idsOf (row :: rows) = idOf row :: idsOf rows := by
  simp [idsOf, hid]

theorem chunkText_ne_empty (header : String) (rows : List String) : chunkText header rows ≠ "" := by
  intro hempty
  have hlength := congrArg String.length hempty
  simp [chunkText] at hlength

-- The header in some bytes: their first line, unless it is blank.
def headerOf? (bytes : Text.Bytes) : Option String :=
  ((rawLines bytes).head?.map Text.Utf8.decode).filter (!Text.allBlank ·)

-- The rows in some bytes: their lines after the first one that are not blank.
def rowsBelow (bytes : Text.Bytes) : List String :=
  ((rawLines bytes).tail.map Text.Utf8.decode).filter (!Text.allBlank ·)

theorem exists_first {bytes : Text.Bytes} {header : String}
    (hheader : headerOf? bytes = some header) :
    ∃ first rest, rawLines bytes = first :: rest ∧ Text.Utf8.decode first = header ∧
      Text.allBlank header = false := by
  obtain ⟨hfirst, hblank⟩ := Option.filter_eq_some_iff.mp hheader
  obtain ⟨first, hhead, rfl⟩ := Option.map_eq_some_iff.mp hfirst
  obtain ⟨rest, hlines⟩ := List.head?_eq_some_iff.mp hhead
  exact ⟨first, rest, hlines, rfl, by simpa using hblank⟩

theorem isRow_of_header {bytes : Text.Bytes} {header : String}
    (hheader : headerOf? bytes = some header) : Text.IsRow header := by
  obtain ⟨first, rest, hlines, rfl, hgiven⟩ := exists_first hheader
  have hfirst : first ∈ rawLines bytes := hlines ▸ List.mem_cons_self
  exact Text.isRow_decode hfirst hgiven

theorem isRow_of_mem_rowsBelow {bytes : Text.Bytes} {row : String} (hrow : row ∈ rowsBelow bytes) :
    Text.IsRow row := by
  obtain ⟨hdecoded, hkept⟩ := List.mem_filter.mp hrow
  obtain ⟨line, hline, rfl⟩ := List.mem_map.mp hdecoded
  exact Text.isRow_decode (List.mem_of_mem_tail hline) (by simpa using hkept)

theorem texts_rowsOf (name : String) (told : Log) (lines : List Text.Bytes) :
    (rowsOf name told lines).1.map (·.1) =
      (lines.map Text.Utf8.decode).filter (!Text.allBlank ·) := by
  induction lines generalizing told with
  | nil => rfl
  | cons line lines ih =>
      by_cases hblank : Text.allBlank (Text.Utf8.decode line) = true
      · simp [rowsOf, hblank, ih]
      · simp [rowsOf, hblank, ih]

theorem ofBytes_of_header {name header : String} {bytes : Text.Bytes}
    (hheader : headerOf? bytes = some header) :
    ∃ source, (ofBytes name bytes).1 = .ok source ∧ source.header = header ∧
      source.texts = rowsBelow bytes ∧ source.fault = none := by
  obtain ⟨first, rest, hlines, rfl, hgiven⟩ := exists_first hheader
  let found := rowsOf name [] rest
  refine ⟨⟨name, Text.Utf8.decode first, found.1, found.2, none⟩, ?_, rfl, ?_, rfl⟩
  · simp only [ofBytes, ofLines, hlines, hgiven, Bool.false_eq_true, if_false, found]
  · rw [rowsBelow, hlines, List.tail_cons]
    exact texts_rowsOf name [] rest

theorem ofBytes_of_missing {bytes : Text.Bytes} (name : String)
    (hheader : headerOf? bytes = none) : (ofBytes name bytes).1 = .error (.emptySource name) := by
  cases hlines : rawLines bytes with
  | nil => simp [ofBytes, ofLines, hlines]
  | cons first rest => simp_all [headerOf?, ofBytes, ofLines]

theorem header_of_ofBytes {name : String} {bytes : Text.Bytes} {source : Source}
    (hsource : (ofBytes name bytes).1 = .ok source) :
    headerOf? bytes = some source.header ∧ rowsBelow bytes = source.texts := by
  cases hheader : headerOf? bytes with
  | some header =>
      obtain ⟨same, hsame, rfl, hrows, _⟩ := @ofBytes_of_header name _ _ hheader
      obtain rfl := Except.ok.inj (hsource.symm.trans hsame)
      exact ⟨rfl, hrows.symm⟩
  | none =>
      rw [ofBytes_of_missing name hheader] at hsource
      cases hsource

theorem fault_of_ofLines {name : String} {fault : Option FileFault} {lines : List Text.Bytes}
    {source : Source} (hsource : (ofLines name fault lines).1 = .ok source) :
    source.fault = fault := by
  cases lines with
  | nil => cases fault <;> cases hsource
  | cons first rest =>
      simp only [ofLines] at hsource
      split at hsource
      case isTrue => cases hsource
      case isFalse => cases hsource; rfl

-- What is told when damaged text is replaced, which is all that is told while rows are looked for.
def IsDamageNote (entry : Entry) : Prop :=
  ∃ name text : String, entry = .warn s!"invalid UTF-8 in {name} replaced: {text}"

theorem IsDamageNote.level {entry : Entry} (h : IsDamageNote entry) : entry.level = .warn := by
  obtain ⟨name, text, rfl⟩ := h
  rfl

theorem isDamageNote_damageNotes (bytes : Text.Bytes) (name : String) :
    ∀ entry ∈ Text.damageNotes bytes name, IsDamageNote entry := by
  intro entry hentry
  unfold Text.damageNotes at hentry
  split at hentry
  case isTrue => exact ⟨name, _, List.mem_singleton.mp hentry⟩
  case isFalse => exact nomatch hentry

theorem tells_rowsOf {allowed : Entry → Prop} {name : String} {told : Log}
    {lines : List Text.Bytes}
    (hlines : ∀ line ∈ lines, ∀ entry ∈ Text.damageNotes line name, allowed entry)
    (htold : ∀ entry ∈ told, allowed entry) :
    (∀ row ∈ (rowsOf name told lines).1, ∀ entry ∈ row.2, allowed entry) ∧
      ∀ entry ∈ (rowsOf name told lines).2, allowed entry := by
  induction lines generalizing told with
  | nil => exact ⟨List.forall_mem_nil _, htold⟩
  | cons line lines ih =>
      obtain ⟨hline, hrest⟩ := List.forall_mem_cons.mp hlines
      have hmore : ∀ entry ∈ told ++ Text.damageNotes line name, allowed entry :=
        List.forall_mem_append.mpr ⟨htold, hline⟩
      by_cases hblank : Text.allBlank (Text.Utf8.decode line) = true
      · simp only [rowsOf, hblank, if_true]
        exact ih hrest hmore
      · obtain ⟨hrows, htail⟩ := ih hrest (List.forall_mem_nil _)
        simp only [rowsOf, hblank, Bool.false_eq_true, if_false]
        exact ⟨List.forall_mem_cons.mpr ⟨hmore, hrows⟩, htail⟩

-- What is told of a source, before its end or at its end, is all of a kind.
structure Tells (allowed : Entry → Prop) (source : Source) : Prop where
  rows : ∀ row ∈ source.rows, ∀ entry ∈ row.2, allowed entry
  tail : ∀ entry ∈ source.tail, allowed entry

theorem Tells.imp {allowed more : Entry → Prop} {source : Source} (htells : source.Tells allowed)
    (hmore : ∀ entry, allowed entry → more entry) : source.Tells more where
  rows row hrow entry hentry := hmore entry (htells.rows row hrow entry hentry)
  tail entry hentry := hmore entry (htells.tail entry hentry)

-- A source that is made of lines tells nothing else.
theorem isDamageNote_ofLines {name : String} {fault : Option FileFault} {lines : List Text.Bytes}
    {source : Source} {told : Log} (hsource : ofLines name fault lines = (.ok source, told)) :
    (∀ entry ∈ told, IsDamageNote entry) ∧ source.Tells IsDamageNote := by
  cases lines with
  | nil => cases fault <;> cases hsource
  | cons first rest =>
      simp only [ofLines] at hsource
      split at hsource
      case isTrue => cases hsource
      case isFalse hblank =>
          cases hsource
          obtain ⟨hrows, htail⟩ := tells_rowsOf
            (fun line (_ : line ∈ rest) => isDamageNote_damageNotes line name)
            (List.forall_mem_nil _)
          exact ⟨isDamageNote_damageNotes first name, hrows, htail⟩

theorem isDamageNote_ofFile {tree : FileTree} {path : String} {source : Source} {told : Log}
    (hsource : ofFile tree path = (.ok source, told)) :
    (∀ entry ∈ told, IsDamageNote entry) ∧ source.Tells IsDamageNote := by
  unfold ofFile at hsource
  cases hcontent : tree.content path with
  | error fault =>
      rw [hcontent] at hsource
      cases hsource
  | ok content =>
      rw [hcontent] at hsource
      replace hsource : ofContent path content = (.ok source, told) := hsource
      unfold ofContent at hsource
      split at hsource <;> exact isDamageNote_ofLines hsource

theorem nextChunk_header (source : Source) (count : Nat) :
    (source.nextChunk count).2.2.header = source.header :=
  source.takeRows_header count

variable {source : Source} {count : Nat}

theorem nextChunk_eq_none_iff (hcount : 0 < count) :
    (source.nextChunk count).1 = none ↔ source.texts = [] := by
  have hzero : count ≠ 0 := by omega
  simp [nextChunk_fst, texts, hzero]

theorem nextChunk_of_ne_nil (hcount : 0 < count) (htexts : source.texts ≠ []) :
    (source.nextChunk count).1 = some (chunkText source.header (source.texts.take count)) := by
  have hzero : count ≠ 0 := by omega
  have hrows : source.rows ≠ [] := fun hrows => htexts (by rw [texts, hrows, List.map_nil])
  simp [nextChunk_fst, texts, hzero, hrows, List.map_take]

theorem Tells.takeRows {allowed : Entry → Prop} (htells : source.Tells allowed) (count : Nat) :
    (∀ entry ∈ (source.takeRows count).2.1, allowed entry) ∧
      (source.takeRows count).2.2.Tells allowed := by
  have htaken : ∀ entry ∈ (source.rows.take count).flatMap (·.2), allowed entry := by
    intro entry hentry
    obtain ⟨row, hrow, hmem⟩ := List.mem_flatMap.mp hentry
    exact htells.rows row (List.mem_of_mem_take hrow) entry hmem
  unfold Source.takeRows
  split
  · exact ⟨List.forall_mem_append.mpr ⟨htaken, htells.tail⟩, List.forall_mem_nil _,
      List.forall_mem_nil _⟩
  · exact ⟨htaken, fun row hrow => htells.rows row (List.mem_of_mem_drop hrow), htells.tail⟩

theorem Tells.readChunk {allowed : Entry → Prop} (htells : source.Tells allowed) (count : Nat) :
    (∀ entry ∈ (source.readChunk count).2.1, allowed entry) ∧
      (source.readChunk count).2.2.Tells allowed :=
  htells.takeRows count

theorem ne_empty_of_readChunk {text : String}
    (hread : (source.readChunk count).1 = .ok (some text)) : text ≠ "" := by
  have hchunk : (source.nextChunk count).1 = some text := elim_eq_ok hread
  rw [nextChunk_fst] at hchunk
  split at hchunk
  case isTrue => cases hchunk
  case isFalse => exact Option.some.inj hchunk ▸ chunkText_ne_empty _ _

-- What it comes to if a source is read chunk by chunk as far as it goes: the chunks, and the
-- failure that ends them if they do not end with the source.
inductive Chunks (count : Nat) : Source → List String → Option Failure → Prop
  | ended {source : Source} (hread : (source.readChunk count).1 = .ok none) :
      Chunks count source [] none
  | brokeOff {source : Source} {failure : Failure}
      (hread : (source.readChunk count).1 = .error failure) :
      Chunks count source [] (some failure)
  | chunk {source : Source} {text : String} {texts : List String} {failure : Option Failure}
      (hread : (source.readChunk count).1 = .ok (some text))
      (hrest : Chunks count (source.readChunk count).2.2 texts failure) :
      Chunks count source (text :: texts) failure

-- The rows that can be read in chunks. Where a source breaks off, a chunk that is not full is lost.
def rowsInChunks (source : Source) (count : Nat) : List String :=
  match source.fault with
  | none => source.texts
  | some _ => source.texts.take (source.texts.length / count * count)

-- Who reads chunks without rows does not come to the end of the source.
def failureAt (source : Source) (count : Nat) : Option Failure :=
  if count = 0 then none else source.fault.map fun fault => .io fault.message

theorem rowsInChunks_of_whole (hfault : source.fault = none) :
    source.rowsInChunks count = source.texts := by
  rw [rowsInChunks, hfault]

theorem rowsInChunks_of_broken {fault : FileFault} (hfault : source.fault = some fault) :
    source.rowsInChunks count = source.texts.take (source.texts.length / count * count) := by
  rw [rowsInChunks, hfault]

theorem failureAt_zero (source : Source) : source.failureAt 0 = none := if_pos rfl

theorem failureAt_of_whole (hfault : source.fault = none) : source.failureAt count = none := by
  rw [failureAt, hfault, Option.map_none, ite_self]

theorem failureAt_of_broken {fault : FileFault} (hfault : source.fault = some fault)
    (hcount : 0 < count) : source.failureAt count = some (.io fault.message) := by
  rw [failureAt, if_neg (Nat.ne_of_gt hcount), hfault]
  rfl

theorem readChunk_fst (source : Source) (count : Nat) :
    (source.readChunk count).1 =
      (source.failureWithin count).elim (.ok (source.nextChunk count).1) .error := rfl

theorem failureWithin_of_whole (hfault : source.fault = none) :
    source.failureWithin count = none := by
  rw [failureWithin, hfault, Option.map_none, ite_self]

theorem readChunk_of_zero (source : Source) : (source.readChunk 0).1 = .ok none := by
  simp [readChunk_fst, nextChunk_fst, failureWithin]

theorem readChunk_of_le (hcount : 0 < count) (hlong : count ≤ source.texts.length) :
    (source.readChunk count).1 =
      .ok (some (chunkText source.header (source.texts.take count))) := by
  have hlength : source.texts.length = source.rows.length := List.length_map _
  have hnever : source.failureWithin count = none := if_neg (by omega)
  have hgiven : source.texts ≠ [] := List.ne_nil_of_length_pos (by omega)
  rw [readChunk_fst, hnever]
  exact congrArg Except.ok (nextChunk_of_ne_nil hcount hgiven)

theorem texts_readChunk (source : Source) (count : Nat) :
    (source.readChunk count).2.2.texts = source.texts.drop count := by
  have hrows : (source.readChunk count).2.2.rows = source.rows.drop count :=
    source.takeRows_rows count
  rw [texts, hrows, List.map_drop, texts]

theorem header_readChunk (source : Source) (count : Nat) :
    (source.readChunk count).2.2.header = source.header :=
  source.takeRows_header count

theorem fault_readChunk (source : Source) (count : Nat) :
    (source.readChunk count).2.2.fault = source.fault := by
  have hsame : (source.readChunk count).2.2 = (source.takeRows count).2.2 := rfl
  rw [hsame]
  unfold Source.takeRows
  split <;> rfl

theorem rowsInChunks_of_le (hlong : count ≤ source.texts.length) (hcount : 0 < count) :
    source.rowsInChunks count =
      source.texts.take count ++ (source.readChunk count).2.2.rowsInChunks count := by
  unfold rowsInChunks
  rw [fault_readChunk, texts_readChunk]
  cases source.fault with
  | none => exact (List.take_append_drop _ _).symm
  | some fault =>
      have hmore : source.texts.length / count * count =
          count + (source.texts.drop count).length / count * count := by
        rw [List.length_drop, Nat.div_eq_sub_div hcount hlong, Nat.add_mul, Nat.one_mul,
          Nat.add_comm]
      exact (congrArg source.texts.take hmore).trans List.take_add

-- Where a source breaks off, the rows in front are lost if they do not fill a chunk.
theorem chunks_of_broken {fault : FileFault} (hfault : source.fault = some fault)
    (hshort : source.texts.length < count) :
    Chunks count source [] (some (.io fault.message)) := by
  have hrows : source.rows.length < count := by rwa [texts, List.length_map] at hshort
  have hfailure : source.failureWithin count = some (.io fault.message) := by
    rw [failureWithin, if_pos hrows, hfault]
    rfl
  exact .brokeOff (by rw [readChunk_fst, hfailure]; rfl)

theorem chunks_of_nil (hfault : source.fault = none) (hcount : 0 < count)
    (htexts : source.texts = []) : Chunks count source [] none :=
  .ended (by
    rw [readChunk_fst, failureWithin_of_whole hfault, (nextChunk_eq_none_iff hcount).mpr htexts]
    rfl)

-- What is too short for a chunk is the last one if the source ends with it.
theorem chunks_of_short (hfault : source.fault = none) (hgiven : source.texts ≠ [])
    (hshort : source.texts.length < count) :
    Chunks count source [chunkText source.header (source.texts.take count)] none := by
  have hcount : 0 < count := Nat.lt_of_le_of_lt (Nat.zero_le _) hshort
  have hrest : (source.readChunk count).2.2.texts = [] := by
    rw [texts_readChunk, List.drop_of_length_le (Nat.le_of_lt hshort)]
  refine .chunk ?_ (chunks_of_nil ((fault_readChunk _ _).trans hfault) hcount hrest)
  rw [readChunk_fst, failureWithin_of_whole hfault, nextChunk_of_ne_nil hcount hgiven]
  rfl

theorem chunks_of_lt (hshort : source.texts.length < count) :
    Chunks count source ((pieces count (source.rowsInChunks count)).map (chunkText source.header))
      (source.failureAt count) := by
  have hcount : 0 < count := Nat.lt_of_le_of_lt (Nat.zero_le _) hshort
  cases hfault : source.fault with
  | some fault =>
      have hnone : source.rowsInChunks count = [] := by
        rw [rowsInChunks_of_broken hfault, Nat.div_eq_of_lt hshort, Nat.zero_mul, List.take_zero]
      rw [hnone, pieces_nil, failureAt_of_broken hfault hcount]
      exact chunks_of_broken hfault hshort
  | none =>
      rw [rowsInChunks_of_whole hfault, failureAt_of_whole hfault]
      by_cases hgiven : source.texts = []
      · rw [hgiven, pieces_nil]
        exact chunks_of_nil hfault hcount hgiven
      · rw [pieces_of_ne_nil hcount hgiven, List.drop_of_length_le (Nat.le_of_lt hshort),
          pieces_nil]
        exact chunks_of_short hfault hgiven hshort

-- The chunks of a source are the pieces of its rows, each below the header.
theorem chunks_pieces (source : Source) (count : Nat) :
    Chunks count source ((pieces count (source.rowsInChunks count)).map (chunkText source.header))
      (source.failureAt count) := by
  rcases Nat.eq_zero_or_pos count with rfl | hcount
  · rw [pieces_of_size_zero]
    exact .ended source.readChunk_of_zero
  induction hlength : source.texts.length using Nat.strongRecOn generalizing source with
  | ind length ih =>
      by_cases hlong : count ≤ source.texts.length
      · have hfull : (source.texts.take count).length = count := List.length_take_of_le hlong
        have hgiven : source.rowsInChunks count ≠ [] := by
          rw [rowsInChunks_of_le hlong hcount]
          exact List.append_ne_nil_of_left_ne_nil (List.ne_nil_of_length_pos (by omega)) _
        have hshorter : (source.readChunk count).2.2.texts.length < length := by
          rw [texts_readChunk, List.length_drop]
          omega
        have hrest := ih _ hshorter _ rfl
        rw [header_readChunk, failureAt, fault_readChunk, ← failureAt] at hrest
        rw [pieces_of_ne_nil hcount hgiven, rowsInChunks_of_le hlong hcount,
          List.take_left' hfull, List.drop_left' hfull, List.map_cons]
        exact .chunk (readChunk_of_le hcount hlong) hrest
      · exact chunks_of_lt (Nat.lt_of_not_le hlong)

theorem readRow_of_cons {row : String × Log} {rows : List (String × Log)}
    (hrows : source.rows = row :: rows) :
    source.readRow = (.ok (some row.1), row.2, { source with rows }) := by
  simp [readRow, nextRow, Source.takeRows, failureWithin, hrows]

theorem readRow_of_nil (hrows : source.rows = []) :
    source.readRow = ((source.failureAt 1).elim (.ok none) .error, source.tail,
      { source with rows := [], tail := [] }) := by
  simp [readRow, nextRow, Source.takeRows, failureWithin, failureAt, hrows]

theorem chunkText_eq (header : String) (rows : List String) :
    chunkText header rows = header ++ "\n" ++ String.join (rows.map (· ++ "\n")) := by
  have hjoin : String.join (rows.map ("\n" ++ ·)) ++ "\n" =
      "\n" ++ String.join (rows.map (· ++ "\n")) := by
    induction rows with
    | nil => rfl
    | cons row rows ih =>
        simp only [List.map_cons, String.join_cons, String.append_assoc, ih]
  rw [chunkText, String.append_assoc, hjoin, String.append_assoc]

open Text (IsRow dropReturn)

variable {header : String} {rows : List String}

-- A chunk is read back line by line, and each line loses a return at its end.
theorem lines_chunkText (hheader : IsRow header) (hrows : ∀ row ∈ rows, IsRow row) :
    Text.lines (chunkText header rows) = dropReturn header :: rows.map dropReturn := by
  have htext : (chunkText header rows).toList =
      ((header :: rows).map String.toList).flatMap (· ++ ['\n']) := by
    rw [chunkText_eq]
    simp [List.flatMap_map]
  have hsingle : ∀ line ∈ (header :: rows).map String.toList, '\n' ∉ line := by
    intro line hline
    obtain ⟨row, hrow, rfl⟩ := List.mem_map.mp hline
    rcases List.mem_cons.mp hrow with rfl | hrest
    · exact hheader.single
    · exact (hrows row hrest).single
  rw [Text.lines, htext, Text.linesOf_closed hsingle, List.map_map, List.map_map]
  rfl

theorem rowsOneByOne_chunkText (hheader : IsRow header) (hrows : ∀ row ∈ rows, IsRow row) :
    Client.rowsOneByOne (chunkText header rows) =
      some (dropReturn header, rows.map dropReturn) := by
  have hkept : (rows.map dropReturn).filter (!·.isEmpty) = rows.map dropReturn := by
    refine List.filter_eq_self.mpr fun line hline => ?_
    obtain ⟨row, hrow, rfl⟩ := List.mem_map.mp hline
    simpa using Text.dropReturn_ne_empty (hrows row hrow).given
  simp only [Client.rowsOneByOne, lines_chunkText hheader hrows, hkept]

end IndexFleet.Source

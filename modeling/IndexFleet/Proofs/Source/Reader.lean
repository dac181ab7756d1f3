import IndexFleet.Proofs.Source
import Mathlib.Data.List.TakeWhile

namespace IndexFleet

-- A source that is read as far as it is asked for: what is left of its bytes, below its header.
structure Reader where
  name : String
  header : String
  rest : Text.Bytes

-- What a reader is asked for: a row, or a chunk of at most a number of rows.
inductive Call
  | row
  | chunk (lines : Nat)

def Call.wanted : Call → Nat
  | .row => 1
  | .chunk lines => lines

-- The answer that goes with the rows that a call brings.
def Call.reply (header : String) (rows : List String) : Call → Option String
  | .row => rows.head?
  | .chunk _ =>
      if rows.isEmpty then none else some (header ++ "\n" ++ String.join (rows.map (· ++ "\n")))

namespace Reader

-- The next line without its terminator, and the bytes behind it.
def readLine (bytes : Text.Bytes) : Option (Text.Bytes × Text.Bytes) :=
  let line := bytes.takeWhile (· != 0x0A)
  match bytes.dropWhile (· != 0x0A) with
  | [] => if line.isEmpty then none else some (line, [])
  | _ :: rest => some (Text.dropLastOf 0x0D line, rest)

variable {bytes line rest : Text.Bytes}

theorem readLine_nil : readLine [] = none := rfl

theorem readLine_of_not_mem (hfeed : 0x0A ∉ bytes) (hbytes : bytes ≠ []) :
    readLine bytes = some (bytes, []) := by
  have hall : ∀ byte ∈ bytes, (byte != 0x0A) = true := fun byte hbyte =>
    bne_iff_ne.mpr fun hsame => hfeed (hsame ▸ hbyte)
  simp only [readLine, List.dropWhile_eq_nil_iff.mpr hall, List.takeWhile_eq_self_iff.mpr hall,
    List.isEmpty_eq_false_iff.mpr hbytes, Bool.false_eq_true, if_false]

theorem readLine_append_cons (hline : 0x0A ∉ line) (rest : Text.Bytes) :
    readLine (line ++ 0x0A :: rest) = some (Text.dropLastOf 0x0D line, rest) := by
  have hall : ∀ byte ∈ line, (byte != 0x0A) = true := fun byte hbyte =>
    bne_iff_ne.mpr fun hsame => hline (hsame ▸ hbyte)
  simp [readLine, List.dropWhile_append_of_pos hall, List.takeWhile_append_of_pos hall]

-- A line is taken off the bytes, and nothing else.
theorem readLine_eq_some (hread : readLine bytes = some (line, rest)) :
    rest.length < bytes.length ∧ Source.rawLines bytes = line :: Source.rawLines rest := by
  induction bytes using Text.feed_induction (0x0A : UInt8) with
  | last bytes hfeed =>
      by_cases hempty : bytes = []
      · rw [hempty, readLine_nil] at hread
        cases hread
      · rw [readLine_of_not_mem hfeed hempty] at hread
        cases hread
        refine ⟨List.length_pos_iff.mpr hempty, ?_⟩
        rw [Source.rawLines, Text.linesOf_of_not_mem hfeed, Text.openLine_of_ne_nil hempty]
        rfl
  | next first bytes hfirst =>
      rw [readLine_append_cons hfirst] at hread
      cases hread
      refine ⟨?_, Text.linesOf_append_cons hfirst⟩
      rw [List.length_append, List.length_cons]
      omega

theorem eq_nil_of_readLine (hread : readLine bytes = none) : bytes = [] := by
  induction bytes using Text.feed_induction (0x0A : UInt8) with
  | last bytes hfeed =>
      by_cases hempty : bytes = []
      · exact hempty
      · rw [readLine_of_not_mem hfeed hempty] at hread
        cases hread
  | next first bytes hfirst =>
      rw [readLine_append_cons hfirst] at hread
      cases hread

-- The lines that are read one after another.
def readLines (bytes : Text.Bytes) : List Text.Bytes :=
  match hread : readLine bytes with
  | none => []
  | some (line, rest) =>
      have := (readLine_eq_some hread).1
      line :: readLines rest
termination_by bytes.length

theorem readLines_eq (bytes : Text.Bytes) : readLines bytes = Source.rawLines bytes := by
  fun_induction readLines bytes with
  | case1 bytes hread => rw [eq_nil_of_readLine hread]; rfl
  | case2 bytes line rest hread _ ih => rw [(readLine_eq_some hread).2, ih]

-- The next line that is not blank.
def rowFrom (name : String) (bytes : Text.Bytes) : Option String × Log × Text.Bytes :=
  match hread : readLine bytes with
  | none => (none, [], bytes)
  | some (line, rest) =>
      have := (readLine_eq_some hread).1
      if Text.allBlank (Text.Utf8.decode line) then
        let (row, more, left) := rowFrom name rest
        (row, Text.damageNotes line name ++ more, left)
      else (some (Text.Utf8.decode line), Text.damageNotes line name, rest)
termination_by bytes.length

-- Adds up to a number of rows to a chunk, and counts them.
def fill (name : String) : Nat → String × Nat → Text.Bytes → (String × Nat) × Log × Text.Bytes
  | 0, filled, bytes => (filled, [], bytes)
  | wanted + 1, (chunk, count), bytes =>
      match rowFrom name bytes with
      | (none, told, rest) => ((chunk, count), told, rest)
      | (some row, told, rest) =>
          let (filled, more, left) := fill name wanted (chunk ++ "\n" ++ row, count + 1) rest
          (filled, told ++ more, left)

def ofBytes (name : String) (bytes : Text.Bytes) : Except Failure Reader × Log :=
  let missing : Log := [.error s!"input file: {name} has no content"]
  match readLine bytes with
  | none => (.error (.emptySource name), missing)
  | some (line, rest) =>
      let header := Text.Utf8.decode line
      let told := Text.damageNotes line name
      if Text.allBlank header then (.error (.emptySource name), told ++ missing)
      else (.ok ⟨name, header, rest⟩, told)

def nextRow (reader : Reader) : Option String × Log × Reader :=
  let (row, told, rest) := rowFrom reader.name reader.rest
  (row, told, { reader with rest })

def nextChunk (reader : Reader) (lines : Nat) : Option String × Log × Reader :=
  let ((chunk, count), told, rest) := fill reader.name lines (reader.header, 0) reader.rest
  (if count = 0 then none else some (chunk ++ "\n"), told, { reader with rest })

def answer (reader : Reader) : Call → Option String × Log × Reader
  | .row => reader.nextRow
  | .chunk lines => reader.nextChunk lines

-- The answers to calls one after another, each with what is told for it.
def answers : Reader → List Call → List (Option String × Log)
  | _, [] => []
  | reader, call :: calls =>
      let (text, told, rest) := reader.answer call
      (text, told) :: rest.answers calls

-- The rows that are left, with what is told while they are looked for.
def toSource (reader : Reader) : Source :=
  let (rows, tail) := Source.rowsOf reader.name [] (Source.rawLines reader.rest)
  ⟨reader.name, reader.header, rows, tail, none⟩

end Reader

namespace Source

def answer (source : Source) : Call → Option String × Log × Source
  | .row => source.nextRow
  | .chunk lines => source.nextChunk lines

def answers : Source → List Call → List (Option String × Log)
  | _, [] => []
  | source, call :: calls =>
      let (text, told, rest) := source.answer call
      (text, told) :: rest.answers calls

theorem takeRows_zero (source : Source) : source.takeRows 0 = ([], [], source) := rfl

variable {source : Source} {row name : String} {told more : Log} {rows : List (String × Log)}
  {bytes rest : Text.Bytes}

theorem takeRows_of_nil (hrows : source.rows = []) (count : Nat) :
    source.takeRows (count + 1) = ([], source.tail, { source with rows := [], tail := [] }) := by
  simp [takeRows, hrows]

theorem takeRows_of_cons (hrows : source.rows = (row, told) :: rows) (count : Nat) :
    source.takeRows (count + 1) =
      (row :: ({ source with rows }.takeRows count).1,
        told ++ ({ source with rows }.takeRows count).2.1,
        ({ source with rows }.takeRows count).2.2) := by
  by_cases hcount : rows.length < count
  · simp [takeRows, hrows, hcount]
  · simp [takeRows, hrows, hcount]

open Reader (rowFrom readLine_eq_some eq_nil_of_readLine)

theorem rowsOf_of_none (hfrom : rowFrom name bytes = (none, more, rest)) (told : Log) :
    rest = [] ∧ rowsOf name told (rawLines bytes) = ([], told ++ more) := by
  fun_induction rowFrom name bytes generalizing told more rest with
  | case1 bytes hread =>
      cases hfrom
      have hempty := eq_nil_of_readLine hread
      refine ⟨hempty, ?_⟩
      rw [hempty, List.append_nil]
      rfl
  | case2 bytes line left hread _ hblank row others behind hnext ih =>
      cases hfrom
      obtain ⟨hempty, hrows⟩ := ih hnext (told ++ Text.damageNotes line name)
      refine ⟨hempty, ?_⟩
      rw [(readLine_eq_some hread).2, rowsOf, if_pos hblank, hrows, List.append_assoc]
  | case3 bytes line left hread _ hblank => cases hfrom

theorem rowsOf_of_some (hfrom : rowFrom name bytes = (some row, more, rest)) (told : Log) :
    rowsOf name told (rawLines bytes) =
      ((row, told ++ more) :: (rowsOf name [] (rawLines rest)).1,
        (rowsOf name [] (rawLines rest)).2) := by
  fun_induction rowFrom name bytes generalizing told more rest with
  | case1 bytes hread => cases hfrom
  | case2 bytes line left hread _ hblank found others behind hnext ih =>
      cases hfrom
      rw [(readLine_eq_some hread).2, rowsOf, if_pos hblank, ih hnext, List.append_assoc]
  | case3 bytes line left hread _ hblank =>
      cases hfrom
      rw [(readLine_eq_some hread).2, rowsOf, if_neg hblank]

end Source

namespace Reader

variable {reader : Reader} {row : String} {told : Log} {rest : Text.Bytes}

theorem toSource_of_none (hfrom : rowFrom reader.name reader.rest = (none, told, rest)) :
    reader.toSource.rows = [] ∧ reader.toSource.tail = told ∧ rest = [] := by
  obtain ⟨hempty, hrows⟩ := Source.rowsOf_of_none hfrom []
  rw [toSource, hrows]
  exact ⟨rfl, rfl, hempty⟩

theorem toSource_of_some (hfrom : rowFrom reader.name reader.rest = (some row, told, rest)) :
    reader.toSource.rows = (row, told) :: ({ reader with rest } : Reader).toSource.rows ∧
      reader.toSource.tail = ({ reader with rest } : Reader).toSource.tail := by
  have hrows := Source.rowsOf_of_some hfrom []
  rw [toSource, hrows]
  exact ⟨rfl, rfl⟩

theorem takeRows_of_none (hfrom : rowFrom reader.name reader.rest = (none, told, rest))
    (count : Nat) :
    reader.toSource.takeRows (count + 1) =
      ([], told, ({ reader with rest } : Reader).toSource) := by
  obtain ⟨hrows, htail, rfl⟩ := toSource_of_none hfrom
  rw [Source.takeRows_of_nil hrows, htail]
  rfl

theorem takeRows_of_some (hfrom : rowFrom reader.name reader.rest = (some row, told, rest))
    (count : Nat) :
    reader.toSource.takeRows (count + 1) =
      (row :: (({ reader with rest } : Reader).toSource.takeRows count).1,
        told ++ (({ reader with rest } : Reader).toSource.takeRows count).2.1,
        (({ reader with rest } : Reader).toSource.takeRows count).2.2) := by
  obtain ⟨hrows, htail⟩ := toSource_of_some hfrom
  rw [Source.takeRows_of_cons hrows, htail]
  rfl

-- Filling a chunk takes the rows that the source has next, and stops between two rows.
theorem exists_fill (reader : Reader) (wanted : Nat) (chunk : String) (count : Nat) :
    ∃ rest, fill reader.name wanted (chunk, count) reader.rest =
        ((chunk ++ String.join ((reader.toSource.takeRows wanted).1.map ("\n" ++ ·)),
          count + (reader.toSource.takeRows wanted).1.length),
          (reader.toSource.takeRows wanted).2.1, rest) ∧
      ({ reader with rest } : Reader).toSource = (reader.toSource.takeRows wanted).2.2 := by
  induction wanted generalizing reader chunk count with
  | zero =>
      refine ⟨reader.rest, ?_, rfl⟩
      simp [fill, Source.takeRows_zero]
  | succ wanted ih =>
      rcases hfrom : rowFrom reader.name reader.rest with ⟨found, told, rest⟩
      cases found with
      | none =>
          rw [takeRows_of_none hfrom]
          refine ⟨rest, ?_, rfl⟩
          simp [fill, hfrom]
      | some row =>
          obtain ⟨left, hfill, hleft⟩ := ih { reader with rest } (chunk ++ "\n" ++ row) (count + 1)
          rw [takeRows_of_some hfrom]
          refine ⟨left, ?_, hleft⟩
          simp only [fill, hfrom]
          rw [hfill]
          simp only [List.map_cons, String.join_cons, List.length_cons, String.append_assoc,
            Nat.add_assoc, Nat.add_comm 1]

theorem nextRow_toSource (reader : Reader) :
    reader.toSource.nextRow =
      (reader.nextRow.1, reader.nextRow.2.1, reader.nextRow.2.2.toSource) := by
  rcases hfrom : rowFrom reader.name reader.rest with ⟨found, told, rest⟩
  cases found with
  | none =>
      simp only [Source.nextRow, nextRow, hfrom, takeRows_of_none hfrom 0, List.head?_nil]
  | some row =>
      simp only [Source.nextRow, nextRow, hfrom, takeRows_of_some hfrom 0, Source.takeRows_zero,
        List.head?_cons, List.append_nil]

theorem nextChunk_toSource (reader : Reader) (lines : Nat) :
    reader.toSource.nextChunk lines =
      ((reader.nextChunk lines).1, (reader.nextChunk lines).2.1,
        (reader.nextChunk lines).2.2.toSource) := by
  obtain ⟨rest, hfill, hrest⟩ := reader.exists_fill lines reader.header 0
  simp only [Source.nextChunk, nextChunk, hfill, hrest, Source.chunkText, Nat.zero_add,
    List.length_eq_zero_iff, List.isEmpty_iff]
  rfl

-- A reader answers as the source does whose rows have been found beforehand.
theorem answer_toSource (reader : Reader) (call : Call) :
    reader.toSource.answer call =
      ((reader.answer call).1, (reader.answer call).2.1, (reader.answer call).2.2.toSource) := by
  cases call with
  | row => exact reader.nextRow_toSource
  | chunk lines => exact reader.nextChunk_toSource lines

theorem answers_toSource (reader : Reader) (calls : List Call) :
    reader.toSource.answers calls = reader.answers calls := by
  induction calls generalizing reader with
  | nil => rfl
  | cons call calls ih => simp only [Source.answers, answers, answer_toSource, ih]

theorem ofBytes_toSource (name : String) (bytes : Text.Bytes) :
    Source.ofBytes name bytes =
      ((ofBytes name bytes).1.map toSource, (ofBytes name bytes).2) := by
  cases hread : readLine bytes with
  | none =>
      rw [eq_nil_of_readLine hread]
      rfl
  | some read =>
      obtain ⟨line, rest⟩ := read
      have hlines := (readLine_eq_some hread).2
      by_cases hblank : Text.allBlank (Text.Utf8.decode line) = true
      · simp [Source.ofBytes, Source.ofLines, ofBytes, hlines, hread, hblank, Except.map]
      · simp [Source.ofBytes, Source.ofLines, ofBytes, hlines, hread, hblank, Except.map, toSource]

end Reader

variable {header : String} {rows left : List String} {call : Call} {calls : List Call}
  {answers : List (Option String)} {shares : List (List String)}

theorem Call.reply_eq_none_iff : call.reply header rows = none ↔ rows = [] := by
  cases call with
  | row => simp [reply]
  | chunk lines => simp [reply]

-- Calls bring rows in order: each brings as many as it asks for, or all that are left, and is
-- answered with them.
inductive Delivers (header : String) :
    List String → List Call → List (Option String) → List (List String) → Prop
  | nil {rows : List String} : Delivers header rows [] [] []
  | cons {rows taken left : List String} {call : Call} {calls : List Call}
      {answers : List (Option String)} {shares : List (List String)}
      (hrows : taken ++ left = rows) (hlength : taken.length = min call.wanted rows.length)
      (hleft : Delivers header left calls answers shares) :
      Delivers header rows (call :: calls) (call.reply header taken :: answers) (taken :: shares)

namespace Delivers

theorem flatten_prefix (h : Delivers header rows calls answers shares) :
    shares.flatten <+: rows := by
  induction h with
  | nil => exact List.nil_prefix
  | cons hrows _ _ ih =>
      rw [← hrows, List.flatten_cons]
      exact (List.prefix_append_right_inj _).mpr ih

theorem none_iff (h : Delivers header rows calls answers shares) :
    List.Forall₂ (fun answer share => answer = none ↔ share = []) answers shares := by
  induction h with
  | nil => exact .nil
  | cons _ _ _ ih => exact .cons Call.reply_eq_none_iff ih

theorem none_of_nil (h : Delivers header [] calls answers shares) :
    ∀ answer ∈ answers, answer = none := by
  generalize hnil : ([] : List String) = rows at h
  induction h with
  | nil => exact fun _ hanswer => absurd hanswer List.not_mem_nil
  | cons hrows _ _ ih =>
      obtain ⟨htaken, hleft⟩ := List.append_eq_nil_iff.mp (hrows.trans hnil.symm)
      exact List.forall_mem_cons.mpr ⟨Call.reply_eq_none_iff.mpr htaken, ih hleft.symm⟩

-- Once nothing comes although something was asked for, nothing comes any more.
theorem exhausted {before after : List Call} (h : Delivers header rows calls answers shares)
    (hcalls : calls = before ++ call :: after) (hwanted : 0 < call.wanted)
    (hnone : answers[before.length]? = some none) :
    ∀ answer ∈ answers.drop before.length, answer = none := by
  induction h generalizing before with
  | nil => simp at hcalls
  | @cons rows taken left first calls answers shares hrows hlength hleft ih =>
      cases before with
      | nil =>
          obtain rfl : first = call := (List.cons.inj hcalls).1
          have hfirst : first.reply header taken = none := by simpa using hnone
          obtain rfl := Call.reply_eq_none_iff.mp hfirst
          have hempty : rows = [] := by
            rw [List.length_nil] at hlength
            exact List.eq_nil_of_length_eq_zero (by omega)
          rw [hempty, List.nil_append] at hrows
          rw [hrows] at hleft
          exact List.forall_mem_cons.mpr ⟨hfirst, hleft.none_of_nil⟩
      | cons other before =>
          exact ih (List.cons.inj hcalls).2 hnone

-- No chunk is a header without rows.
theorem never_bare (h : Delivers header rows calls answers shares) :
    List.Forall₂ (fun call answer => ∀ lines, call = .chunk lines →
      answer ≠ some header ∧ answer ≠ some (header ++ "\n")) calls answers := by
  induction h with
  | nil => exact .nil
  | @cons rows taken left call calls answers shares _ _ _ ih =>
      refine .cons (fun lines hcall => ?_) ih
      cases taken with
      | nil => simp [hcall, Call.reply]
      | cons row taken =>
          have hfeed : "\n".length = 1 := by decide
          refine ⟨fun hsame => ?_, fun hsame => ?_⟩
          all_goals
            have hlength := congrArg String.length (Option.some.inj (hcall ▸ hsame))
            simp only [List.map_cons, String.join_cons, String.length_append, hfeed] at hlength
            omega

end Delivers

namespace Source

theorem answer_eq (source : Source) (call : Call) :
    (source.answer call).1 = call.reply source.header (source.texts.take call.wanted) ∧
      (source.answer call).2.2.header = source.header ∧
      (source.answer call).2.2.texts = source.texts.drop call.wanted := by
  cases call with
  | row =>
      refine ⟨?_, source.takeRows_header 1, ?_⟩
      · simp [answer, nextRow, takeRows_fst, Call.reply, Call.wanted, texts, List.map_take]
      · exact (congrArg (List.map _) (source.takeRows_rows 1)).trans List.map_drop
  | chunk lines =>
      refine ⟨?_, source.nextChunk_header lines, ?_⟩
      · simp [answer, nextChunk_fst, Call.reply, Call.wanted, texts, List.map_take, chunkText_eq]
      · exact (congrArg (List.map _) (source.nextChunk_rows lines)).trans List.map_drop

theorem exists_delivers (source : Source) (calls : List Call) :
    ∃ shares, Delivers source.header source.texts calls ((source.answers calls).map (·.1))
      shares := by
  induction calls generalizing source with
  | nil => exact ⟨[], .nil⟩
  | cons call calls ih =>
      obtain ⟨htext, hheader, hleft⟩ := source.answer_eq call
      obtain ⟨shares, hshares⟩ := ih (source.answer call).2.2
      rw [hheader, hleft] at hshares
      refine ⟨source.texts.take call.wanted :: shares, ?_⟩
      rw [answers, List.map_cons, htext]
      exact .cons (List.take_append_drop _ _) List.length_take hshares

-- Asking for no rows loses none.
example : ((Source.answers ⟨"rows", "id", [("1", []), ("2", [])], [], none⟩
    [.chunk 0, .row, .chunk 5, .row]).map (·.1)) =
      [none, some "1", some "id\n2\n", none] := by
  decide

end Source

-- How some rows below a header are served to a run of calls.
structure Serves (header : String) (rows : List String) (calls : List Call)
    (answers : List (Option String)) : Prop where
  inOrder : ∃ shares, Delivers header rows calls answers shares ∧ shares.flatten <+: rows ∧
    List.Forall₂ (fun answer share => answer = none ↔ share = []) answers shares
  exhausted : ∀ before call after, calls = before ++ call :: after → 0 < call.wanted →
    answers[before.length]? = some none → ∀ answer ∈ answers.drop before.length, answer = none
  neverBare : List.Forall₂ (fun call answer => ∀ lines, call = .chunk lines →
    answer ≠ some header ∧ answer ≠ some (header ++ "\n")) calls answers

theorem Delivers.serves (h : Delivers header rows calls answers shares) :
    Serves header rows calls answers where
  inOrder := ⟨shares, h, h.flatten_prefix, h.none_iff⟩
  exhausted _ _ _ := h.exhausted
  neverBare := h.never_bare

namespace Reader

-- Some bytes are read from their first line on, if it is not blank, and then serve the rows below
-- it to any calls. The source that knows all rows beforehand gives the same answers and tells the
-- same.
structure ReadsInOrder (name : String) (bytes : Text.Bytes) : Prop where
  refused : Source.headerOf? bytes = none →
    (ofBytes name bytes).1 = .error (.emptySource name)
  opened : ∀ header, Source.headerOf? bytes = some header → ∃ reader,
    (ofBytes name bytes).1 = .ok reader ∧
      ∀ calls, Serves header (Source.rowsBelow bytes) calls ((reader.answers calls).map (·.1))
  found : Source.ofBytes name bytes =
    ((ofBytes name bytes).1.map toSource, (ofBytes name bytes).2)
  answered : ∀ (reader : Reader) (calls : List Call),
    reader.toSource.answers calls = reader.answers calls

theorem readsInOrder (name : String) (bytes : Text.Bytes) : ReadsInOrder name bytes where
  refused hheader := by
    have hmissing := Source.ofBytes_of_missing name hheader
    rw [ofBytes_toSource] at hmissing
    cases hopen : (ofBytes name bytes).1 with
    | ok reader => simp [hopen, Except.map] at hmissing
    | error failure => simpa [hopen, Except.map] using hmissing
  opened header hheader := by
    obtain ⟨source, hsource, rfl, hrows, -⟩ := @Source.ofBytes_of_header name _ _ hheader
    rw [ofBytes_toSource] at hsource
    cases hopen : (ofBytes name bytes).1 with
    | error failure => simp [hopen, Except.map] at hsource
    | ok reader =>
        have hreader : reader.toSource = source := by simpa [hopen, Except.map] using hsource
        refine ⟨reader, rfl, fun calls => ?_⟩
        obtain ⟨shares, hshares⟩ := source.exists_delivers calls
        rw [← hrows, ← reader.answers_toSource, hreader]
        exact hshares.serves
  found := ofBytes_toSource name bytes
  answered := answers_toSource

end Reader

end IndexFleet

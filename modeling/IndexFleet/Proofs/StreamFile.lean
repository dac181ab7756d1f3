import IndexFleet.Command.Run
import IndexFleet.Proofs.AbsolutePath
import IndexFleet.Proofs.Text.Percent

namespace IndexFleet

open Text (Bytes utf8)
open Text.Utf8 (decode damaged damaged_eq_false_iff utf8_decode)
open Text.Percent (encode decodeBytes IsEscaped)

namespace Request

-- The text up to the first such letter, and what stands behind it.
def cut (letter : Char) (text : List Char) : List Char × List Char :=
  (text.takeWhile (· != letter), (text.dropWhile (· != letter)).drop 1)

-- A name with its value. A plus sign in a value stands for a blank.
def parameterOf (field : List Char) : String × Text.Bytes :=
  let (name, value) := cut '=' field
  (String.ofList name, decodeBytes (value.map fun c => if c = '+' then ' ' else c))

-- A number sign ends what the server gets of a path.
def target (request : Request) : List Char := (cut '#' request.path.toList).1

def resource (request : Request) : String := String.ofList (cut '?' request.target).1

def parameters (request : Request) : List (String × Text.Bytes) :=
  ((cut '?' request.target).2.splitOn '&').map parameterOf

variable {letter : Char} {front text : List Char}

theorem cut_of_not_mem (htext : letter ∉ text) : cut letter text = (text, []) := by
  have hall : ∀ c ∈ text, (c != letter) = true := fun _ hc =>
    bne_iff_ne.mpr (ne_of_mem_of_not_mem hc htext)
  simp [cut, List.takeWhile_eq_self_iff.mpr hall, List.dropWhile_eq_nil_iff.mpr hall]

theorem cut_append_cons (hfront : letter ∉ front) (text : List Char) :
    cut letter (front ++ letter :: text) = (front, text) := by
  have hall : ∀ c ∈ front, (c != letter) = true := fun _ hc =>
    bne_iff_ne.mpr (ne_of_mem_of_not_mem hc hfront)
  simp [cut, List.takeWhile_append_of_pos hall, List.dropWhile_append_of_pos hall]

theorem parameterOf_append {name value : List Char} (hname : '=' ∉ name) (hvalue : '+' ∉ value) :
    parameterOf (name ++ '=' :: value) = (String.ofList name, decodeBytes value) := by
  have hkept : ∀ c ∈ value, (if c = '+' then ' ' else c) = c := fun _ hc =>
    if_neg (ne_of_mem_of_not_mem hc hvalue)
  have hsame : (value.map fun c => if c = '+' then ' ' else c) = value :=
    (List.map_congr_left hkept).trans (List.map_id' value)
  simp only [parameterOf, cut_append_cons hname, hsame]

end Request

namespace Client

variable (client : Client) (absolute : String)

-- What stands in the query of the call before the path of the file.
def streamFileFields : List Char :=
  "separator=%09&encapsulator=%09&stream.contentType=text/plain;charset=utf-8".toList

theorem toList_streamFilePath :
    Wire.streamFilePath.toList =
      "/solr/update/csv".toList ++ '?' :: (streamFileFields ++ '&' ::
        ("stream.file".toList ++ ['='])) := by
  have hparts : Wire.streamFilePath = "/solr/update/csv" ++ ("?" ++
      ("separator=%09&encapsulator=%09&stream.contentType=text/plain;charset=utf-8" ++ ("&" ++
        ("stream.file" ++ "=")))) := rfl
  simp only [hparts, String.toList_append]
  rfl

theorem splitOn_streamFileFields :
    (streamFileFields.splitOn '&').map Request.parameterOf =
      [("separator", [9]), ("encapsulator", [9]),
        ("stream.contentType", utf8 "text/plain;charset=utf-8")] := by
  decide

theorem target_streamFileRequest :
    (client.streamFileRequest absolute).target =
      "/solr/update/csv".toList ++ '?' :: (streamFileFields ++ '&' ::
        ("stream.file".toList ++ '=' :: (encode absolute).toList)) := by
  have hnumber : '#' ∉ (client.streamFileRequest absolute).path.toList := by
    rw [streamFileRequest, get, String.toList_append, List.mem_append, not_or]
    exact ⟨by decide,
      (Text.Percent.isEscaped_encode absolute).not_mem (by decide) (by decide)⟩
  rw [Request.target, Request.cut_of_not_mem hnumber, streamFileRequest, get,
    String.toList_append, toList_streamFilePath]
  simp only [List.append_assoc, List.cons_append, List.nil_append]

theorem resource_streamFileRequest :
    (client.streamFileRequest absolute).resource = "/solr/update/csv" := by
  rw [Request.resource, target_streamFileRequest, Request.cut_append_cons (by decide),
    String.ofList_toList]

-- The server reads one parameter more than the fixed ones, and its value is the path, whatever
-- letters are in it.
theorem parameters_streamFileRequest :
    (client.streamFileRequest absolute).parameters =
      [("separator", [9]), ("encapsulator", [9]),
        ("stream.contentType", utf8 "text/plain;charset=utf-8"),
        ("stream.file", utf8 absolute)] := by
  have hescaped := Text.Percent.isEscaped_encode absolute
  have hsingle : '&' ∉ "stream.file".toList ++ '=' :: (encode absolute).toList := by
    have hnone : '&' ∉ (encode absolute).toList := hescaped.not_mem (by decide) (by decide)
    simpa using hnone
  have hplus : '+' ∉ (encode absolute).toList := hescaped.not_mem (by decide) (by decide)
  rw [Request.parameters, target_streamFileRequest, Request.cut_append_cons (by decide),
    List.splitOn_append_cons_self, List.map_append, splitOn_streamFileFields,
    List.splitOn_eq_singleton hsingle, List.map_singleton,
    Request.parameterOf_append (by decide) hplus, Text.Percent.decodeBytes_encode,
    String.ofList_toList, List.cons_append, List.cons_append, List.cons_append, List.nil_append]

theorem url_streamFileRequest :
    (client.streamFileRequest absolute).url =
      "http://" ++ (if client.port == 80 then client.host else client.address) ++
        (Wire.streamFilePath ++ encode absolute) := rfl

theorem url_streamFileRequest_injective :
    Function.Injective fun absolute => (client.streamFileRequest absolute).url := by
  intro absolute other hsame
  simp only [url_streamFileRequest] at hsame
  refine Text.Percent.encode_injective (String.toList_inj.mp ?_)
  have hchars := congrArg String.toList hsame
  simp only [String.toList_append] at hchars
  exact List.append_cancel_left (List.append_cancel_left hchars)

-- A reachable node gets the call unless its address is too long.
theorem ofServers_streamFileRequest {listens : String → Bool} (hhost : Network.isHost client.host)
    (hlistens : listens client.address) (answer : Request → Reply) :
    Network.ofServers listens answer (client.streamFileRequest absolute) =
      if Request.maxUrl < (client.streamFileRequest absolute).url.utf8ByteSize then .unaddressable
      else answer (client.streamFileRequest absolute) := by
  have hnode : listens (client.streamFileRequest absolute).node = true := hlistens
  have hname : Network.isHost (client.streamFileRequest absolute).host = true := hhost
  simp only [Network.ofServers, hname, hnode, Bool.not_true, Bool.false_or, decide_eq_true_eq,
    if_true]

theorem length_lt_utf8ByteSize_url :
    (utf8 absolute).length < (client.streamFileRequest absolute).url.utf8ByteSize := by
  have hpath := Text.Percent.length_le_utf8ByteSize_encode absolute
  have hscheme : "http://".utf8ByteSize = 7 := rfl
  rw [url_streamFileRequest, String.utf8ByteSize_append, String.utf8ByteSize_append,
    String.utf8ByteSize_append, hscheme]
  omega

end Client

namespace Command

variable {tree : FileTree} {path : String} {absolute : Bytes}

theorem calls_updateViaStreamFile (client : Client) (network : Network)
    (habsolute : AbsolutePath.ofPath tree.home (utf8 path) = .ok absolute) :
    ((Command.dialogue tree ⟨.updateViaStreamFile, some path, client⟩).run network).calls =
      [(client.streamFileRequest (decode absolute),
        network (client.streamFileRequest (decode absolute)))] := by
  simp only [Command.dialogue, Command.withArgument, Client.streamFile, habsolute]
  rfl

-- What the command to take in a file comes to: a single call, which holds the path from the root
-- as text and in such a way that the server reads nothing else. The text is the path itself unless
-- a current directory that is no text brings damage into it.
structure NamesFile (tree : FileTree) (client : Client) (path : String) (absolute : Bytes) :
    Prop where
  made : AbsolutePath.ofPath tree.home (utf8 path) = .ok absolute
  normal : AbsolutePath.IsNormal absolute (AbsolutePath.partsFrom tree.home (utf8 path))
  doubled : AbsolutePath.StartsDouble absolute ↔ AbsolutePath.StartsDouble (utf8 path)
  closed : AbsolutePath.partsFrom tree.home (utf8 path) ≠ [] →
    (absolute.getLast? = some 0x2F ↔ (utf8 path).getLast? = some 0x2F)
  stable : ∀ home, AbsolutePath.ofPath home absolute = .ok absolute
  whole : ((utf8 path).head? = some 0x2F ∨
      ∀ name ∈ tree.home, name.toByteArray.IsValidUTF8) → absolute.toByteArray.IsValidUTF8
  sent : ∀ network,
    ((Command.dialogue tree ⟨.updateViaStreamFile, some path, client⟩).run network).calls =
      [(client.streamFileRequest (decode absolute),
        network (client.streamFileRequest (decode absolute)))]
  request : client.streamFileRequest (decode absolute) = ⟨client.host, client.port, .get,
    Wire.streamFilePath ++ encode (decode absolute), none, ""⟩
  reached : ∀ (listens : String → Bool) (answer : Request → Reply),
    Network.isHost client.host → listens client.address →
      Network.ofServers listens answer (client.streamFileRequest (decode absolute)) =
        if Request.maxUrl < (client.streamFileRequest (decode absolute)).url.utf8ByteSize
        then .unaddressable
        else answer (client.streamFileRequest (decode absolute))
  escaped : IsEscaped (encode (decode absolute)).toList
  decoded : decodeBytes (encode (decode absolute)).toList = utf8 (decode absolute)
  exact : utf8 (decode absolute) = absolute ↔ absolute.toByteArray.IsValidUTF8
  resource : (client.streamFileRequest (decode absolute)).resource = "/solr/update/csv"
  parameters : (client.streamFileRequest (decode absolute)).parameters =
    [("separator", [9]), ("encapsulator", [9]),
      ("stream.contentType", utf8 "text/plain;charset=utf-8"),
      ("stream.file", utf8 (decode absolute))]
  distinct : ∀ other : Bytes, other.toByteArray.IsValidUTF8 →
    absolute.toByteArray.IsValidUTF8 →
      (client.streamFileRequest (decode other)).url =
        (client.streamFileRequest (decode absolute)).url → other = absolute

theorem utf8_decode_eq_self_iff :
    utf8 (decode absolute) = absolute ↔ absolute.toByteArray.IsValidUTF8 := by
  rw [← damaged_eq_false_iff]
  exact ⟨fun hself => hself ▸ Text.Utf8.damaged_utf8 _, utf8_decode⟩

theorem exists_namesFile (client : Client) (hgiven : path ≠ "")
    (hhome : ∀ name ∈ tree.home, AbsolutePath.IsPart name) :
    ∃ absolute, NamesFile tree client path absolute := by
  have hbytes : utf8 path ≠ [] := fun hnone => hgiven (by
    rw [← Text.Utf8.decode_utf8 path, hnone]
    rfl)
  obtain ⟨absolute, habsolute⟩ :
      ∃ absolute, AbsolutePath.ofPath tree.home (utf8 path) = .ok absolute :=
    ⟨_, AbsolutePath.ofPath_eq hbytes⟩
  have hnormal := AbsolutePath.isNormal_of_ofPath hhome habsolute
  exact ⟨absolute, {
    made := habsolute
    normal := hnormal
    doubled := AbsolutePath.startsDouble_iff_of_ofPath hhome habsolute
    closed := AbsolutePath.getLast?_of_ofPath hhome habsolute
    stable := hnormal.ofPath_eq_self
    whole := fun hwhole => by
      simp only [← damaged_eq_false_iff] at hwhole ⊢
      exact AbsolutePath.damaged_of_ofPath (Text.Utf8.damaged_utf8 path) hwhole habsolute
    sent := fun network => calls_updateViaStreamFile client network habsolute
    request := rfl
    reached := fun _ answer hhost hlistens =>
      client.ofServers_streamFileRequest _ hhost hlistens answer
    escaped := Text.Percent.isEscaped_encode _
    decoded := Text.Percent.decodeBytes_encode _
    exact := utf8_decode_eq_self_iff
    resource := client.resource_streamFileRequest _
    parameters := client.parameters_streamFileRequest _
    distinct := fun other hother hwhole hsame => by
      have htext := client.url_streamFileRequest_injective hsame
      rw [← utf8_decode_eq_self_iff.mpr hother, htext, utf8_decode_eq_self_iff.mpr hwhole] }⟩

-- A step upward and a name with the letters of a query, from a home that is not plain ASCII.
theorem exists_namesFile_upward :
    "..//a&b/./c=\u00E9#?.tsv/" ≠ "" ∧
      (∀ name ∈ [utf8 "data", utf8 "k\u00F6ln"], AbsolutePath.IsPart name) ∧
      NamesFile ⟨[], [utf8 "data", utf8 "k\u00F6ln"]⟩ ⟨"index", 8983, 1000⟩
        "..//a&b/./c=\u00E9#?.tsv/" (utf8 "/data/k\u00F6ln/../a&b/c=\u00E9#?.tsv/") := by
  have hgiven : "..//a&b/./c=\u00E9#?.tsv/" ≠ "" := by decide
  have hhome : ∀ name ∈ [utf8 "data", utf8 "k\u00F6ln"], AbsolutePath.IsPart name := by
    have hall : ∀ name ∈ [utf8 "data", utf8 "k\u00F6ln"],
        name ≠ [] ∧ name ≠ [0x2E] ∧ 0x2F ∉ name := by
      decide
    exact fun name hname => ⟨(hall name hname).1, (hall name hname).2.1, (hall name hname).2.2⟩
  obtain ⟨absolute, hnames⟩ := exists_namesFile ⟨"index", 8983, 1000⟩ hgiven
    (show ∀ name ∈ (⟨[], [utf8 "data", utf8 "k\u00F6ln"]⟩ : FileTree).home, _ from hhome)
  have hwritten : AbsolutePath.ofPath [utf8 "data", utf8 "k\u00F6ln"]
      (utf8 "..//a&b/./c=\u00E9#?.tsv/") =
        .ok (utf8 "/data/k\u00F6ln/../a&b/c=\u00E9#?.tsv/") := by
    decide +kernel
  obtain rfl : absolute = utf8 "/data/k\u00F6ln/../a&b/c=\u00E9#?.tsv/" :=
    Except.ok.inj (hnames.made.symm.trans hwritten)
  exact ⟨hgiven, hhome, hnames⟩

-- A path of one name.
def longPath (count : Nat) : String := "/" ++ String.ofList (List.replicate count 'a')

theorem utf8_longPath (count : Nat) :
    utf8 (longPath count) = 0x2F :: List.replicate count 0x61 := by
  have hname : ∀ count, (List.replicate count 'a').flatMap String.utf8EncodeChar =
      List.replicate count 0x61 := by
    intro count
    induction count with
    | zero => rfl
    | succ count ih => rw [List.replicate_succ, List.flatMap_cons, ih]; rfl
  have hletters : (longPath count).toList = '/' :: List.replicate count 'a' := by
    simp [longPath]
  rw [utf8, hletters, List.flatMap_cons, hname]
  rfl

theorem ofPath_longPath {count : Nat} (hcount : 1 < count) (home : List Bytes) :
    AbsolutePath.ofPath home (utf8 (longPath count)) = .ok (utf8 (longPath count)) := by
  have hnormal : AbsolutePath.IsNormal (utf8 (longPath count)) [List.replicate count 0x61] := by
    refine ⟨fun part hpart => ?_, [0x2F], by decide, [], by decide, fun _ => rfl, ?_⟩
    · rw [List.mem_singleton.mp hpart]
      refine ⟨fun hnone => ?_, fun hdot => ?_, fun hslash => ?_⟩
      · exact absurd (congrArg List.length hnone) (by simp; omega)
      · exact absurd (congrArg List.length hdot) (by simp; omega)
      · exact absurd (List.eq_of_mem_replicate hslash) (by decide)
    · rw [utf8_longPath]
      simp
  exact hnormal.ofPath_eq_self home

-- Current directories that are no text may not be told apart, and an address that would be too long
-- is sent to nobody.
theorem streamFile_conflates :
    AbsolutePath.ofPath [[0xFF]] (utf8 "a") = .ok [0x2F, 0xFF, 0x2F, 0x61] ∧
      AbsolutePath.ofPath [[0xFE]] (utf8 "a") = .ok [0x2F, 0xFE, 0x2F, 0x61] ∧
      ((Command.dialogue ⟨[], [[0xFF]]⟩
          ⟨.updateViaStreamFile, some "a", ⟨"index01", 8983, 1000⟩⟩).run
            (Network.ofServers (fun _ => true) fun _ => .answered 200 (utf8 "OK"))).calls =
        ((Command.dialogue ⟨[], [[0xFE]]⟩
          ⟨.updateViaStreamFile, some "a", ⟨"index01", 8983, 1000⟩⟩).run
            (Network.ofServers (fun _ => true) fun _ => .answered 200 (utf8 "OK"))).calls ∧
      decodeBytes (encode (decode [0x2F, 0xFF, 0x2F, 0x61])).toList ≠ [0x2F, 0xFF, 0x2F, 0x61] ∧
      ((Command.dialogue (FileTree.bare [])
          ⟨.updateViaStreamFile, some (longPath 70000), ⟨"index01", 8983, 1000⟩⟩).run
            (Network.ofServers (fun _ => true) fun _ => .answered 200 (utf8 "OK"))).calls.filter
          (·.2.wasReceived) = [] := by
  have hone : AbsolutePath.ofPath [[0xFF]] (utf8 "a") = .ok [0x2F, 0xFF, 0x2F, 0x61] := by decide
  have hother : AbsolutePath.ofPath [[0xFE]] (utf8 "a") = .ok [0x2F, 0xFE, 0x2F, 0x61] := by decide
  have hsame : decode [0x2F, 0xFF, 0x2F, 0x61] = decode [0x2F, 0xFE, 0x2F, 0x61] := by decide
  have hlong : AbsolutePath.ofPath (FileTree.bare []).home (utf8 (longPath 70000)) =
      .ok (utf8 (longPath 70000)) := ofPath_longPath (by decide) _
  refine ⟨hone, hother, ?_, by decide, ?_⟩
  · rw [calls_updateViaStreamFile _ _ hone, calls_updateViaStreamFile _ _ hother, hsame]
  · have hsize := Client.length_lt_utf8ByteSize_url ⟨"index01", 8983, 1000⟩ (longPath 70000)
    rw [utf8_longPath, List.length_cons, List.length_replicate] at hsize
    rw [calls_updateViaStreamFile _ _ hlong, Text.Utf8.decode_utf8,
      Client.ofServers_streamFileRequest _ _ (by decide) rfl,
      if_pos (by rw [Request.maxUrl]; omega)]
    rfl

end Command

end IndexFleet

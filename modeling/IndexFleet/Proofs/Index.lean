import IndexFleet.ClusterCommand.Run
import IndexFleet.Proofs.Entity
import IndexFleet.Proofs.Source
import Mathlib.Data.List.Perm.Basic
import Mathlib.Logic.Function.Basic

namespace IndexFleet

-- The rows that a server holds, by their ids.
abbrev Documents := String → Option String

-- What the servers hold, by their addresses.
abbrev Index := String → Documents

-- What calls do to the rows that a server holds.
abbrev Service := Request → Documents → Documents

-- The orders in which servers may come to know the calls of waves: one wave after the other, and
-- those of a wave in any order.
inductive MayArrive : List WaveRun → List Request → Prop
  | nil : MayArrive [] []
  | cons {wave : WaveRun} {waves : List WaveRun} {part rest : List Request}
      (hpart : part.Perm wave.received) (hrest : MayArrive waves rest) :
      MayArrive (wave :: waves) (part ++ rest)

theorem MayArrive.split {before after : List WaveRun} {requests : List Request}
    (h : MayArrive (before ++ after) requests) :
    ∃ first second, requests = first ++ second ∧ MayArrive before first ∧
      MayArrive after second := by
  induction before generalizing requests with
  | nil => exact ⟨[], requests, rfl, .nil, h⟩
  | cons wave before ih =>
      cases h with
      | cons hpart hrest =>
          obtain ⟨first, second, rfl, hfirst, hsecond⟩ := ih hrest
          exact ⟨_, second, (List.append_assoc _ _ _).symm, .cons hpart hfirst, hsecond⟩

theorem MayArrive.perm {waves : List WaveRun} {requests : List Request}
    (h : MayArrive waves requests) : requests.Perm (waves.flatMap (·.received)) := by
  induction h with
  | nil => exact .nil
  | cons hpart _ ih => exact hpart.append ih

def Documents.store (documents : Documents) (row : String) : Documents :=
  Function.update documents (Source.idOf row) (some row)

-- What is relied on of the servers: rows that are uploaded are stored under their ids, in place of
-- others there, and what a query for an id asks to delete is deleted.
structure Service.Understands (service : Service) (idColumn : String) : Prop where
  stores : ∀ (client : Client) (header : String) (rows : List String) (documents : Documents),
    Source.idOf header = idColumn → (∀ line ∈ header :: rows, Text.IsWhole line) →
      (∀ row ∈ rows, Source.idOf row ≠ "") →
        service (client.rowsRequest (header ++ "\n" ++ String.join (rows.map (· ++ "\n"))))
          documents = rows.foldl Documents.store documents
  deletes : ∀ (client : Client) (text id : String) (documents : Documents),
    Text.Entity.decode text = s!"{idColumn}:{id}" →
      service (client.updateRequest s!"<delete><query>{text}</query></delete>") documents =
        Function.update documents id none

-- One row at one server that is stored or deleted.
structure Write where
  address : String
  id : String
  row : Option String

namespace Index

def put (index : Index) (write : Write) : Index :=
  Function.update index write.address
    (Function.update (index write.address) write.id write.row)

def putAll (index : Index) (writes : List Write) : Index := writes.foldl put index

def serve (service : Service) (index : Index) (request : Request) : Index :=
  Function.update index request.node (service request (index request.node))

def replay (service : Service) (index : Index) (requests : List Request) : Index :=
  requests.foldl (serve service) index

variable {index : Index} {service : Service} {writes : List Write} {address id : String}
  {row : Option String}

theorem putAll_cons (index : Index) (write : Write) (writes : List Write) :
    index.putAll (write :: writes) = (index.put write).putAll writes := rfl

theorem replay_cons (service : Service) (index : Index) (request : Request)
    (requests : List Request) :
    index.replay service (request :: requests) =
      (index.serve service request).replay service requests := rfl

theorem replay_append (service : Service) (index : Index) (first second : List Request) :
    index.replay service (first ++ second) =
      (index.replay service first).replay service second :=
  List.foldl_append

theorem put_eq (index : Index) (write : Write) (address id : String) :
    index.put write address id =
      if address = write.address ∧ id = write.id then write.row else index address id := by
  by_cases haddress : address = write.address
  · subst haddress
    by_cases hid : id = write.id
    · simp [put, hid]
    · simp [put, hid]
  · simp [put, haddress]

-- What is not written stays as it is.
theorem putAll_of_unwritten (index : Index)
    (hnone : ∀ write ∈ writes, address = write.address → id ≠ write.id) :
    index.putAll writes address id = index address id := by
  induction writes generalizing index with
  | nil => rfl
  | cons write writes ih =>
      obtain ⟨hfirst, hrest⟩ := List.forall_mem_cons.mp hnone
      rw [putAll_cons, ih _ hrest, put_eq, if_neg (not_and.mpr hfirst)]

-- Where all that is written to a place is the same, this is what is there in the end.
theorem putAll_of_agree (index : Index)
    (hsome : ∃ write ∈ writes, address = write.address ∧ id = write.id)
    (hagree : ∀ write ∈ writes, address = write.address → id = write.id → write.row = row) :
    index.putAll writes address id = row := by
  induction writes generalizing index with
  | nil =>
      obtain ⟨_, hwrite, _⟩ := hsome
      exact nomatch hwrite
  | cons write writes ih =>
      obtain ⟨hfirst, hrest⟩ := List.forall_mem_cons.mp hagree
      rw [putAll_cons]
      by_cases hmore : ∃ write ∈ writes, address = write.address ∧ id = write.id
      · exact ih _ hmore hrest
      · have hlast : ∀ write ∈ writes, address = write.address → id ≠ write.id :=
          fun other hother haddress hid => hmore ⟨other, hother, haddress, hid⟩
        obtain ⟨same, hsame, hplace⟩ := hsome
        rcases List.mem_cons.mp hsame with rfl | hother
        · rw [putAll_of_unwritten _ hlast, put_eq, if_pos hplace, hfirst hplace.1 hplace.2]
        · exact absurd ⟨same, hother, hplace⟩ hmore

end Index

namespace Service

variable {service : Service} {idColumn : String}

-- What a call does is to write this.
def Writes (service : Service) (request : Request) (writes : List Write) : Prop :=
  ∀ index : Index, index.serve service request = index.putAll writes

theorem replay_of_writes {requests : List Request} {writes : List (List Write)}
    (h : List.Forall₂ service.Writes requests writes) (index : Index) :
    index.replay service requests = index.putAll writes.flatten := by
  induction h generalizing index with
  | nil => rfl
  | cons hfirst _ ih =>
      rw [Index.replay_cons, hfirst, ih, List.flatten_cons]
      exact List.foldl_append.symm

-- In another order, calls write the same in another order.
theorem exists_writes {requests arrived : List Request} {writes : List (List Write)}
    (h : List.Forall₂ service.Writes requests writes) (harrived : arrived.Perm requests) :
    ∃ written, written.Perm writes.flatten ∧
      ∀ index : Index, index.replay service arrived = index.putAll written := by
  obtain ⟨lists, hlists, hperm⟩ := List.perm_comp_forall₂ harrived h
  exact ⟨lists.flatten, hperm.flatten, replay_of_writes hlists⟩

theorem Understands.writes_rows (h : service.Understands idColumn) (client : Client)
    {header : String} {rows : List String} (hcolumn : Source.idOf header = idColumn)
    (hwhole : ∀ line ∈ header :: rows, Text.IsWhole line)
    (hgiven : ∀ row ∈ rows, Source.idOf row ≠ "") :
    service.Writes (client.rowsRequest (header ++ "\n" ++ String.join (rows.map (· ++ "\n"))))
      (rows.map fun row => ⟨client.address, Source.idOf row, some row⟩) := by
  intro index
  have hnode : ∀ text, (client.rowsRequest text).node = client.address := fun _ => rfl
  rw [Index.serve, h.stores client header rows _ hcolumn hwhole hgiven, hnode]
  clear hwhole hgiven
  induction rows generalizing index with
  | nil => exact Function.update_eq_self client.address index
  | cons row rows ih =>
      rw [List.map_cons, Index.putAll_cons, ← ih]
      simp [Index.put, Documents.store]

theorem Understands.writes_delete (h : service.Understands idColumn) (client : Client)
    (id : String) :
    service.Writes (client.updateRequest (Wire.deleteBody s!"{idColumn}:{id}"))
      [⟨client.address, id, none⟩] := by
  intro index
  have hdecoded := Text.Entity.decode_escape s!"{idColumn}:{id}"
  have hdeletes := h.deletes client _ id (index client.address) hdecoded
  rw [Index.serve]
  exact congrArg (Function.update index client.address) hdeletes

def queryOf (body : String) : String :=
  let opening := "<delete><query>".toList
  let closing := "</query></delete>".toList
  let inner := (body.toList.drop opening.length).take
    (body.toList.length - opening.length - closing.length)
  String.ofList (Text.Entity.decodeChars inner)

theorem queryOf_delete (text : String) :
    queryOf s!"<delete><query>{text}</query></delete>" = Text.Entity.decode text := by
  have hbody : s!"<delete><query>{text}</query></delete>".toList =
      "<delete><query>".toList ++ (text.toList ++ "</query></delete>".toList) := by
    simp [toString]
  simp only [queryOf, Text.Entity.decode, hbody, List.drop_left, List.length_append,
    Nat.add_sub_cancel_left, Nat.add_sub_cancel, List.take_left]

-- A server that does what is relied on, and no more.
def plain (idColumn : String) : Service := fun request documents =>
  if request.path = Wire.rowsPath then
    (Text.lines request.body).tail.foldl Documents.store documents
  else
    let query := queryOf request.body
    let id := String.ofList (query.toList.drop (idColumn.toList.length + 1))
    if query = s!"{idColumn}:{id}" then Function.update documents id none else documents

theorem understands_plain (idColumn : String) : (plain idColumn).Understands idColumn where
  stores client header rows documents _ hwhole _ := by
    obtain ⟨hheader, hrows⟩ := List.forall_mem_cons.mp hwhole
    have hkept : rows.map Text.dropReturn = rows :=
      (List.map_congr_left fun row hrow => (hrows row hrow).dropReturn_eq).trans (List.map_id _)
    have hlines : Text.lines (header ++ "\n" ++ String.join (rows.map (· ++ "\n"))) =
        header :: rows := by
      rw [← Source.chunkText_eq, Source.lines_chunkText hheader.toIsRow
        fun row hrow => (hrows row hrow).toIsRow, hheader.dropReturn_eq, hkept]
    have hpath : (client.rowsRequest (header ++ "\n" ++ String.join (rows.map (· ++ "\n")))).path =
        Wire.rowsPath := rfl
    have hbody : (client.rowsRequest (header ++ "\n" ++ String.join (rows.map (· ++ "\n")))).body =
        header ++ "\n" ++ String.join (rows.map (· ++ "\n")) := rfl
    rw [plain, if_pos hpath, hbody, hlines, List.tail_cons]
  deletes client text id documents hquery := by
    have hpath : Wire.updatePath ≠ Wire.rowsPath := by decide
    have hid :
        String.ofList (s!"{idColumn}:{id}".toList.drop (idColumn.toList.length + 1)) = id := by
      simp [toString]
    simp only [plain, Client.updateRequest, Client.post, hpath, if_false, queryOf_delete,
      hquery, hid, if_true]

end Service

end IndexFleet

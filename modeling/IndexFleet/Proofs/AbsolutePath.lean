import IndexFleet.AbsolutePath
import IndexFleet.Proofs.Text

namespace IndexFleet.AbsolutePath

open Text (Bytes utf8)
open Text.Utf8 (damaged)

-- A component of a path that leads somewhere.
structure IsPart (name : Bytes) : Prop where
  given : name ≠ []
  not_here : name ≠ [0x2E]
  single : 0x2F ∉ name

-- A path from the root in its shortest form: one slash in front or two, one between components and
-- at most one behind them.
structure IsNormal (absolute : Bytes) (parts : List Bytes) : Prop where
  proper : ∀ part ∈ parts, IsPart part
  written : ∃ front ∈ [[0x2F], [0x2F, 0x2F]], ∃ back ∈ [[], [0x2F]], (parts = [] → back = []) ∧
    absolute = front ++ [0x2F].intercalate parts ++ back

-- Exactly two slashes in front, which have a meaning of their own.
def StartsDouble (path : Bytes) : Prop :=
  ∃ rest, path = 0x2F :: 0x2F :: rest ∧ rest.head? ≠ some 0x2F

-- The components on the way from the root to what a path from the home directory names.
def partsFrom (home : List Bytes) (path : Bytes) : List Bytes :=
  (if path.head? = some 0x2F then [] else home) ++
    (path.splitOn 0x2F).filter fun part => part ∉ [[], [0x2E]]

variable {home parts : List Bytes} {path absolute front back body : Bytes}

theorem names_eq (path : Bytes) :
    names path = (path.splitOn slash).filter fun part => part ∉ [[], [0x2E]] := by
  refine List.filter_congr fun part _ => ?_
  rw [Bool.eq_iff_iff]
  simp [dot]

theorem names_append (front back : Bytes) :
    names (front ++ slash :: back) = names front ++ names back := by
  rw [names_eq, names_eq, names_eq, List.splitOn_append_cons_self, List.filter_append]

theorem names_slash_cons (path : Bytes) : names (slash :: path) = names path :=
  names_append [] path

theorem names_append_slash (path : Bytes) : names (path ++ [slash]) = names path :=
  (names_append path []).trans (List.append_nil _)

theorem isPart_of_mem_partsFrom (hhome : ∀ name ∈ home, IsPart name) :
    ∀ part ∈ partsFrom home path, IsPart part := by
  intro part hpart
  rcases List.mem_append.mp hpart with hplace | hname
  · split at hplace
    · cases hplace
    · exact hhome part hplace
  · simp only [List.mem_filter, List.mem_cons, List.not_mem_nil, or_false, not_or,
      decide_eq_true_eq] at hname
    exact ⟨hname.2.1, hname.2.2, Text.not_mem_of_mem_splitOn hname.1⟩

section Joined

variable (hparts : ∀ part ∈ parts, IsPart part)
include hparts

theorem splitOn_joined (hgiven : parts ≠ []) :
    ([slash].intercalate parts).splitOn slash = parts :=
  List.splitOn_intercalate slash (fun part hpart => (hparts part hpart).single) hgiven

theorem names_joined : names ([slash].intercalate parts) = parts := by
  by_cases hgiven : parts = []
  · rw [hgiven]
    decide
  · rw [names_eq, splitOn_joined hparts hgiven, List.filter_eq_self]
    intro part hpart
    simp [(hparts part hpart).given, (hparts part hpart).not_here]

-- A slash at an end of the joined path would stand beside an empty component.
theorem joined_ends :
    ([slash].intercalate parts).head? ≠ some slash ∧
      ([slash].intercalate parts).getLast? ≠ some slash := by
  by_cases hgiven : parts = []
  · rw [hgiven]
    decide
  have hnone : [] ∉ ([slash].intercalate parts).splitOn slash := fun hempty =>
    (hparts [] (splitOn_joined hparts hgiven ▸ hempty)).given rfl
  constructor
  · intro hslash
    obtain ⟨rest, hrest⟩ := List.head?_eq_some_iff.mp hslash
    rw [hrest, ← List.nil_append (slash :: rest), List.splitOn_append_cons_self] at hnone
    simp at hnone
  · intro hslash
    obtain ⟨front, hfront⟩ := List.getLast?_eq_some_iff.mp hslash
    rw [hfront, List.splitOn_append_cons_self] at hnone
    simp at hnone

theorem joined_ne_nil (hgiven : parts ≠ []) : [slash].intercalate parts ≠ [] := by
  intro hempty
  have hnone := splitOn_joined hparts hgiven
  rw [hempty] at hnone
  exact (hparts [] (hnone ▸ List.mem_singleton_self _)).given rfl

end Joined

theorem lead_mem (path : Bytes) : lead path ∈ [[slash], [slash, slash]] := by
  unfold lead
  split <;> simp

theorem lead_eq_double_iff : lead path = [slash, slash] ↔ StartsDouble path := by
  have hcount : lead path = [slash, slash] ↔ (path.takeWhile (· == slash)).length = 2 := by
    unfold lead
    split <;> simp_all
  rw [hcount]
  constructor
  · intro htwo
    have htaken : path.takeWhile (· == slash) = [slash, slash] :=
      List.eq_replicate_iff.mpr
        ⟨htwo, fun _ hbyte => by simpa using List.mem_takeWhile_imp hbyte⟩
    have hrest := List.head?_dropWhile_not (· == slash) path
    refine ⟨path.dropWhile (· == slash), ?_, fun hthird => ?_⟩
    · exact (htaken ▸ List.takeWhile_append_dropWhile).symm
    · rw [hthird] at hrest
      exact absurd hrest (by decide)
  · rintro ⟨rest, rfl, hthird⟩
    cases rest with
    | nil => decide
    | cons third rest =>
        have hother : third ≠ 0x2F := fun hslash => hthird (hslash ▸ rfl)
        simp [slash, hother]

theorem lead_append (hfront : front ∈ [[slash], [slash, slash]])
    (hbody : body.head? ≠ some slash) : lead (front ++ body) = front := by
  rcases List.mem_pair.mp hfront with rfl | rfl
  · refine (List.mem_pair.mp (lead_mem _)).resolve_right fun hdouble => ?_
    obtain ⟨rest, hrest, -⟩ := lead_eq_double_iff.mp hdouble
    exact hbody (List.head?_eq_some_iff.mpr ⟨rest, (List.cons.inj hrest).2⟩)
  · exact lead_eq_double_iff.mpr ⟨body, rfl, hbody⟩

theorem lead_written (hparts : ∀ part ∈ parts, IsPart part)
    (hfront : front ∈ [[slash], [slash, slash]]) (hnone : parts = [] → back = []) :
    lead (front ++ [slash].intercalate parts ++ back) = front := by
  have hbody : ([slash].intercalate parts ++ back).head? ≠ some slash := by
    by_cases hempty : parts = []
    · rw [hempty, hnone hempty]
      decide
    · rw [List.head?_append_of_ne_nil _ (joined_ne_nil hparts hempty)]
      exact (joined_ends hparts).1
  rw [List.append_assoc]
  exact lead_append hfront hbody

theorem getLast?_written (hparts : ∀ part ∈ parts, IsPart part) (hgiven : parts ≠ [])
    (front : Bytes) (hback : back ∈ [[], [slash]]) :
    (front ++ [slash].intercalate parts ++ back).getLast? = some slash ↔ back = [slash] := by
  rcases List.mem_pair.mp hback with rfl | rfl
  · rw [List.append_nil, List.getLast?_append_of_ne_nil _ (joined_ne_nil hparts hgiven)]
    exact iff_of_false (joined_ends hparts).2 (by decide)
  · exact iff_of_true List.getLast?_concat rfl

theorem ofPath_eq (hgiven : path ≠ []) :
    ofPath home path = .ok (lead path ++ [slash].intercalate (partsFrom home path) ++
      if path.getLast? = some slash ∧ partsFrom home path ≠ [] then [slash] else []) := by
  simp [ofPath, partsFrom, names_eq, slash, hgiven]

theorem eq_of_ofPath (habsolute : ofPath home path = .ok absolute) :
    absolute = lead path ++ [slash].intercalate (partsFrom home path) ++
      if path.getLast? = some slash ∧ partsFrom home path ≠ [] then [slash] else [] := by
  have hgiven : path ≠ [] := by
    rintro rfl
    cases habsolute
  rw [ofPath_eq hgiven] at habsolute
  exact (Except.ok.inj habsolute).symm

theorem isNormal_of_ofPath (hhome : ∀ name ∈ home, IsPart name)
    (habsolute : ofPath home path = .ok absolute) : IsNormal absolute (partsFrom home path) := by
  refine ⟨isPart_of_mem_partsFrom hhome, lead path, lead_mem path, _, ?_, ?_,
    eq_of_ofPath habsolute⟩
  · split <;> simp [slash]
  · exact fun hnone => if_neg fun hslash => hslash.2 hnone

theorem lead_of_ofPath (hhome : ∀ name ∈ home, IsPart name)
    (habsolute : ofPath home path = .ok absolute) : lead absolute = lead path := by
  rw [eq_of_ofPath habsolute]
  exact lead_written (isPart_of_mem_partsFrom hhome) (lead_mem path) fun hnone =>
    if_neg fun hslash => hslash.2 hnone

-- A path that asks for a directory still does.
theorem getLast?_of_ofPath (hhome : ∀ name ∈ home, IsPart name)
    (habsolute : ofPath home path = .ok absolute) (hgiven : partsFrom home path ≠ []) :
    absolute.getLast? = some slash ↔ path.getLast? = some slash := by
  rw [eq_of_ofPath habsolute,
    getLast?_written (isPart_of_mem_partsFrom hhome) hgiven _ (by split <;> simp)]
  by_cases hslash : path.getLast? = some slash <;> simp [hslash, hgiven]

theorem startsDouble_iff_of_ofPath (hhome : ∀ name ∈ home, IsPart name)
    (habsolute : ofPath home path = .ok absolute) : StartsDouble absolute ↔ StartsDouble path := by
  rw [← lead_eq_double_iff, ← lead_eq_double_iff, lead_of_ofPath hhome habsolute]

-- Joined pieces are text if each of them is.
theorem damaged_intercalate (pieces : List Bytes) :
    damaged ([slash].intercalate pieces) = pieces.any damaged := by
  induction pieces with
  | nil => rfl
  | cons piece pieces ih =>
      cases pieces with
      | nil => simp
      | cons next pieces =>
          rw [List.intercalate_cons_cons, List.append_assoc, List.singleton_append,
            Text.Utf8.damaged_append_ascii (by decide), ih]
          rfl

-- Only the names of the home directory can bring damage into a path.
theorem damaged_of_ofPath (hpath : damaged path = false)
    (hwhole : path.head? = some slash ∨ ∀ name ∈ home, damaged name = false)
    (habsolute : ofPath home path = .ok absolute) : damaged absolute = false := by
  have hpieces : ∀ piece ∈ path.splitOn slash, damaged piece = false := by
    have hall := damaged_intercalate (path.splitOn slash)
    rw [List.intercalate_splitOn, hpath] at hall
    simpa using hall.symm
  have hparts : ∀ part ∈ partsFrom home path, damaged part = false := by
    intro part hpart
    rcases List.mem_append.mp hpart with hplace | hname
    · split at hplace
      case isTrue => cases hplace
      case isFalse hrelative => exact hwhole.resolve_left hrelative part hplace
    · exact hpieces part (List.mem_filter.mp hname).1
  have hjoined : damaged ([slash].intercalate (partsFrom home path)) = false := by
    rw [damaged_intercalate]
    simpa using hparts
  have hclosed : ∀ bytes, damaged (bytes ++ [slash]) = damaged bytes := fun bytes =>
    (Text.Utf8.damaged_append_ascii (by decide) bytes []).trans (Bool.or_false _)
  have hopened : ∀ bytes, damaged (slash :: bytes) = damaged bytes := fun bytes =>
    (Text.Utf8.damaged_append_ascii (by decide) [] bytes).trans (Bool.false_or _)
  rw [eq_of_ofPath habsolute]
  have hfront : damaged (lead path ++ [slash].intercalate (partsFrom home path)) = false := by
    rcases List.mem_pair.mp (lead_mem path) with hone | htwo
    · rw [hone, List.singleton_append, hopened, hjoined]
    · rw [htwo, List.cons_append, List.singleton_append, hopened, hopened, hjoined]
  split
  · rw [hclosed, hfront]
  · rw [List.append_nil, hfront]

namespace IsNormal

variable (h : IsNormal absolute parts)
include h

theorem head?_eq : absolute.head? = some slash := by
  obtain ⟨front, hfront, back, -, -, rfl⟩ := h.written
  rcases List.mem_pair.mp hfront with rfl | rfl <;> rfl

theorem names_eq : names absolute = parts := by
  have hjoined := names_joined h.proper
  obtain ⟨front, hfront, back, hback, -, rfl⟩ := h.written
  have hbehind : names (front ++ [slash].intercalate parts ++ back) =
      names (front ++ [slash].intercalate parts) := by
    rcases List.mem_pair.mp hback with rfl | rfl
    · rw [List.append_nil]
    · exact names_append_slash _
  refine hbehind.trans ?_
  rcases List.mem_pair.mp hfront with rfl | rfl
  · exact (names_slash_cons _).trans hjoined
  · exact (names_slash_cons _).trans ((names_slash_cons _).trans hjoined)

theorem partsFrom_eq (home : List Bytes) : partsFrom home absolute = parts := by
  have hstart : (if absolute.head? = some 0x2F then [] else home) = [] := if_pos h.head?_eq
  rw [partsFrom, hstart, List.nil_append]
  exact (AbsolutePath.names_eq absolute).symm.trans h.names_eq

-- Going from another place changes nothing.
theorem ofPath_eq_self (home : List Bytes) : ofPath home absolute = .ok absolute := by
  have hgiven : absolute ≠ [] := by
    rintro rfl
    exact absurd h.head?_eq (by decide)
  rw [ofPath_eq hgiven, h.partsFrom_eq]
  obtain ⟨front, hfront, back, hback, hnone, rfl⟩ := h.written
  have hclosed : (if (front ++ [slash].intercalate parts ++ back).getLast? = some slash ∧
      parts ≠ [] then [slash] else []) = back := by
    by_cases hempty : parts = []
    · rw [if_neg fun hslash => hslash.2 hempty, hnone hempty]
    · simp only [getLast?_written h.proper hempty front hback]
      rcases List.mem_pair.mp hback with rfl | rfl <;> simp [hempty, slash]
  refine congrArg Except.ok ?_
  exact congrArg₂ (· ++ _ ++ ·) (lead_written h.proper hfront hnone) hclosed

end IsNormal

end IndexFleet.AbsolutePath

import Mathlib.Data.List.Basic

namespace IndexFleet

def pieceCount (size items : Nat) : Nat := (items + size - 1) / size

def piece {α : Type} (size : Nat) (items : List α) (index : Nat) : List α :=
  (items.drop (index * size)).take size

def pieces {α : Type} (size : Nat) (items : List α) : List (List α) :=
  (List.range (pieceCount size items.length)).map (piece size items)

variable {α : Type} {size : Nat}

theorem lt_pieceCount_iff (hsize : 0 < size) (items index : Nat) :
    index < pieceCount size items ↔ index * size < items := by
  rw [pieceCount, Nat.lt_div_iff_mul_lt hsize]
  omega

theorem pieceCount_zero (size : Nat) : pieceCount size 0 = 0 := by
  unfold pieceCount
  cases size with
  | zero => rfl
  | succ size => exact Nat.div_eq_of_lt (by omega)

theorem pieceCount_of_pos {items : Nat} (hsize : 0 < size) (hitems : 0 < items) :
    pieceCount size items = pieceCount size (items - size) + 1 := by
  apply Nat.le_antisymm
  · by_contra hlt
    have hindex := (lt_pieceCount_iff hsize _ _).mp (Nat.lt_of_not_ge hlt)
    have hrest := (lt_pieceCount_iff hsize (items - size) _).not.mp (Nat.lt_irrefl _)
    rw [Nat.add_mul, Nat.one_mul] at hindex
    omega
  · cases hcount : pieceCount size (items - size) with
    | zero => exact (lt_pieceCount_iff hsize _ _).mpr (by omega)
    | succ count =>
        have hindex := (lt_pieceCount_iff hsize (items - size) count).mp (by omega)
        refine (lt_pieceCount_iff hsize _ _).mpr ?_
        rw [Nat.add_mul, Nat.one_mul]
        omega

theorem piece_zero (items : List α) : piece size items 0 = items.take size := by
  rw [piece, Nat.zero_mul, List.drop_zero]

theorem piece_succ (items : List α) (index : Nat) :
    piece size items (index + 1) = piece size (items.drop size) index := by
  rw [piece, piece, List.drop_drop, Nat.add_mul, Nat.one_mul, Nat.add_comm]

theorem pieces_nil (size : Nat) : pieces size ([] : List α) = [] := by
  rw [pieces, List.length_nil, pieceCount_zero, List.range_zero, List.map_nil]

theorem pieces_of_size_zero (items : List α) : pieces 0 items = [] := by
  rw [pieces, pieceCount, Nat.div_zero, List.range_zero, List.map_nil]

theorem pieces_of_ne_nil {items : List α} (hsize : 0 < size) (hitems : items ≠ []) :
    pieces size items = items.take size :: pieces size (items.drop size) := by
  rw [pieces, pieceCount_of_pos hsize (List.length_pos_of_ne_nil hitems), List.range_succ_eq_map,
    List.map_cons, List.map_map, piece_zero, pieces, List.length_drop]
  congr 2
  exact funext (piece_succ items)

-- Cutting loses nothing, repeats nothing and keeps the order.
theorem flatten_pieces (hsize : 0 < size) (items : List α) :
    (pieces size items).flatten = items := by
  induction hlength : items.length using Nat.strongRecOn generalizing items with
  | ind length ih =>
      by_cases hitems : items = []
      · rw [hitems, pieces_nil, List.flatten_nil]
      · have hpos := List.length_pos_of_ne_nil hitems
        have hshorter : (items.drop size).length < length := by rw [List.length_drop]; omega
        rw [pieces_of_ne_nil hsize hitems, List.flatten_cons, ih _ hshorter _ rfl,
          List.take_append_drop]

theorem length_pieces (items : List α) :
    (pieces size items).length = pieceCount size items.length := by
  rw [pieces, List.length_map, List.length_range]

-- All pieces but the last one are full.
theorem length_piece {items : List α} {index : Nat} (hsize : 0 < size)
    (hindex : index + 1 < pieceCount size items.length) :
    (piece size items index).length = size := by
  have hlt := (lt_pieceCount_iff hsize _ _).mp hindex
  rw [Nat.add_mul, Nat.one_mul] at hlt
  rw [piece, List.length_take, List.length_drop]
  omega

theorem piece_ne_nil {items : List α} {index : Nat} (hsize : 0 < size)
    (hindex : index < pieceCount size items.length) : piece size items index ≠ [] := by
  have hlt := (lt_pieceCount_iff hsize _ _).mp hindex
  apply List.ne_nil_of_length_pos
  rw [piece, List.length_take, List.length_drop]
  omega

-- An item stands in the piece that its place is in.
theorem mem_piece_iff (hsize : 0 < size) {items : List α} {index : Nat} {item : α} :
    item ∈ piece size items index ↔ ∃ place, place / size = index ∧ items[place]? = some item := by
  rw [piece, List.mem_iff_getElem?]
  constructor
  · rintro ⟨offset, hitem⟩
    obtain ⟨hoffset, hfound⟩ :
        offset < size ∧ (items.drop (index * size))[offset]? = some item := by
      rw [List.getElem?_take] at hitem
      simpa using hitem
    refine ⟨index * size + offset, ?_, by rwa [List.getElem?_drop] at hfound⟩
    rw [Nat.mul_comm, Nat.mul_add_div hsize, Nat.div_eq_of_lt hoffset, Nat.add_zero]
  · rintro ⟨place, rfl, hitem⟩
    refine ⟨place % size, ?_⟩
    rw [List.getElem?_take_of_lt (Nat.mod_lt place hsize), List.getElem?_drop, Nat.div_add_mod']
    exact hitem

theorem mem_zipIdx_pieces_iff (hsize : 0 < size) {items : List α} {index : Nat} {item : α} :
    (∃ chunk, (chunk, index) ∈ (pieces size items).zipIdx ∧ item ∈ chunk) ↔
      ∃ place, place / size = index ∧ items[place]? = some item := by
  rw [← mem_piece_iff hsize]
  constructor
  · rintro ⟨chunk, hchunk, hitem⟩
    have hpiece := List.mk_mem_zipIdx_iff_getElem?.mp hchunk
    simp only [pieces, List.getElem?_map, Option.map_eq_some_iff] at hpiece
    obtain ⟨same, hsame, rfl⟩ := hpiece
    obtain ⟨_, hindex⟩ := List.getElem?_eq_some_iff.mp hsame
    rw [List.getElem_range] at hindex
    exact hindex ▸ hitem
  · intro hitem
    obtain ⟨place, rfl, hplace⟩ := (mem_piece_iff hsize).mp hitem
    have hindex : place / size < pieceCount size items.length := by
      rw [lt_pieceCount_iff hsize]
      have hinside : place < items.length := (List.getElem?_eq_some_iff.mp hplace).1
      exact Nat.lt_of_le_of_lt (Nat.div_mul_le_self place size) hinside
    refine ⟨_, List.mk_mem_zipIdx_iff_getElem?.mpr ?_, hitem⟩
    rw [pieces, List.getElem?_map, List.getElem?_range hindex, Option.map_some]

theorem piece_map {β : Type} (f : α → β) (items : List α) (index : Nat) :
    piece size (items.map f) index = (piece size items index).map f := by
  rw [piece, piece, ← List.map_drop, ← List.map_take]

theorem bind_getElem?_map {β : Type} (f : α → β) (lists : List (List α)) (first second : Nat) :
    (lists.map (List.map f))[first]?.bind (·[second]?) =
      (lists[first]?.bind (·[second]?)).map f := by
  rw [List.getElem?_map]
  cases lists[first]? with
  | none => rfl
  | some list => simp

theorem length_piece_le (items : List α) (index : Nat) :
    (piece size items index).length ≤ size := by
  rw [piece, List.length_take]
  exact Nat.min_le_left _ _

theorem zipIdx_take_append_drop {items : List α} (hlong : size ≤ items.length) (index : Nat) :
    items.zipIdx index =
      (items.take size).zipIdx index ++ (items.drop size).zipIdx (index + size) := by
  conv_lhs => rw [← List.take_append_drop size items]
  rw [List.zipIdx_append, List.length_take_of_le hlong]

-- Cut in the open way, a list of items has one piece more behind its full ones, which is not full
-- and perhaps empty.
def cutOpen (size : Nat) (items : List α) : List (List α) :=
  (List.range (items.length / size + 1)).map (piece size items)

theorem length_cutOpen (size : Nat) (items : List α) :
    (cutOpen size items).length = items.length / size + 1 := by
  rw [cutOpen, List.length_map, List.length_range]

theorem cutOpen_of_lt {items : List α} (hshort : items.length < size) :
    cutOpen size items = [items] := by
  rw [cutOpen, Nat.div_eq_of_lt hshort, Nat.zero_add, List.range_one, List.map_singleton,
    piece_zero, List.take_of_length_le (Nat.le_of_lt hshort)]

theorem cutOpen_of_le {items : List α} (hsize : 0 < size) (hlong : size ≤ items.length) :
    cutOpen size items = items.take size :: cutOpen size (items.drop size) := by
  rw [cutOpen, Nat.div_eq_sub_div hsize hlong, List.range_succ_eq_map, List.map_cons,
    List.map_map, piece_zero, cutOpen, List.length_drop]
  congr 2
  exact funext (piece_succ items)

theorem exists_cutOpen_cons (hsize : 0 < size) (item : α) (items : List α) :
    ∃ wave waves, cutOpen size (item :: items) = (item :: wave) :: waves := by
  by_cases hshort : (item :: items).length < size
  · exact ⟨items, [], cutOpen_of_lt hshort⟩
  · obtain ⟨more, rfl⟩ := Nat.exists_eq_add_of_lt hsize
    rw [cutOpen_of_le hsize (Nat.not_lt.mp hshort)]
    exact ⟨_, _, rfl⟩

theorem flatten_cutOpen (hsize : 0 < size) (items : List α) :
    (cutOpen size items).flatten = items := by
  induction hlength : items.length using Nat.strongRecOn generalizing items with
  | ind length ih =>
      by_cases hshort : items.length < size
      · rw [cutOpen_of_lt hshort, List.flatten_singleton]
      · have hshorter : (items.drop size).length < length := by rw [List.length_drop]; omega
        rw [cutOpen_of_le hsize (Nat.le_of_not_lt hshort), List.flatten_cons, ih _ hshorter _ rfl,
          List.take_append_drop]

theorem cutOpen_map {β : Type} (f : α → β) (items : List α) :
    cutOpen size (items.map f) = (cutOpen size items).map (List.map f) := by
  rw [cutOpen, cutOpen, List.length_map, List.map_map]
  exact List.map_congr_left fun index _ => piece_map f items index

theorem getElem?_cutOpen (hsize : 0 < size) {items : List α} {index : Nat}
    (hindex : index < items.length) :
    (cutOpen size items)[index / size]?.bind (·[index % size]?) = items[index]? := by
  have hpiece : index / size < items.length / size + 1 :=
    Nat.lt_succ_of_le (Nat.div_le_div_right (Nat.le_of_lt hindex))
  have hplace : index % size < size := Nat.mod_lt index hsize
  rw [cutOpen, List.getElem?_map, List.getElem?_range hpiece, Option.map_some,
    Option.bind_some, piece, List.getElem?_take_of_lt hplace, List.getElem?_drop,
    Nat.div_add_mod']

end IndexFleet

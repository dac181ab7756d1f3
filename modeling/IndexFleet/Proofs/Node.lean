import IndexFleet.Node
import Mathlib.Data.List.Basic

namespace IndexFleet

theorem toList_addressOf (host : String) (port : Port) :
    (addressOf host port).toList = host.toList ++ ':' :: port.toNat.repr.toList := by
  simp [addressOf, toString]

theorem colon_not_mem_repr (number : Nat) : ':' ∉ number.repr.toList := by
  rw [Nat.toList_repr]
  intro hcolon
  exact nomatch Nat.isDigit_of_mem_toDigits (by decide) (by decide) hcolon

-- A host may have colons in it, a port has none: the last colon of an address parts them.
theorem addressOf_inj {host other : String} {port another : Port} :
    addressOf host port = addressOf other another ↔ host = other ∧ port = another := by
  refine ⟨fun hsame => ?_, fun ⟨hhost, hport⟩ => hhost ▸ hport ▸ rfl⟩
  have hlists := congrArg (fun address => address.toList.reverse) hsame
  simp only [toList_addressOf, List.reverse_append, List.reverse_cons, List.append_assoc,
    List.singleton_append] at hlists
  have hsplit := congrArg (·.splitOn ':') hlists
  have hdigits : ∀ number : Nat, ':' ∉ number.repr.toList.reverse := by
    intro number hcolon
    exact colon_not_mem_repr number (List.mem_reverse.mp hcolon)
  simp only [List.splitOn_append_cons_self_of_not_mem (hdigits _)] at hsplit
  have hports := (List.cons.inj hsplit).1
  rw [hports, List.append_cancel_left_eq] at hlists
  have hhosts := List.reverse_inj.mp (List.cons.inj hlists).2
  have hnumbers := congrArg (Nat.ofDigitChars 10 · 0) (List.reverse_inj.mp hports)
  simp only [Nat.toList_repr, Nat.ofDigitChars_ten_toDigits] at hnumbers
  exact ⟨String.toList_inj.mp hhosts, UInt16.toNat_inj.mp hnumbers⟩

theorem Roles.has_ofList {roles : List Role} {role : Role} :
    (ofList roles).has role = true ↔ role ∈ roles := by
  have hmore : ∀ start : Roles,
      (roles.foldl insert start).has role = true ↔ start.has role = true ∨ role ∈ roles := by
    induction roles with
    | nil => simp
    | cons first roles ih =>
        intro start
        rw [List.foldl_cons, ih, has_insert, Bool.or_eq_true, decide_eq_true_iff, or_assoc,
          List.mem_cons, eq_comm (a := first)]
  rw [ofList, hmore, has_none, Bool.false_eq_true, false_or]

theorem Roles.ofList_concat (roles : List Role) (role : Role) :
    ofList (roles ++ [role]) = (ofList roles).insert role := by
  rw [ofList, List.foldl_append]
  rfl

namespace Node

-- What a node can be looked up by.
def keys (node : Node) : List String := [node.name, node.address]

theorem name_mem_keys (node : Node) : node.name ∈ node.keys := List.mem_cons_self

theorem address_mem_keys (node : Node) : node.address ∈ node.keys :=
  List.mem_cons_of_mem _ List.mem_cons_self

end Node

end IndexFleet

import Dispatch.Time
import Mathlib.Algebra.GroupWithZero.Nat
import Mathlib.Algebra.Order.BigOperators.Group.List
import Mathlib.Algebra.Order.Group.Nat
import Mathlib.Data.List.DropRight
import Mathlib.Data.List.Perm.Subperm
/-!
# Sums, places and newest items of lists

The sum of a number for each item does not depend on the order of the items, and changes by one
summand when one item is exchanged. The number of items with a property is the number of their places.
The newest items of a list that grows at its end can be kept without the others.
-/

namespace Dispatch

variable {β : Type} {f g : β → Nat} {l m : List β}

theorem sumOf_eq_sum (f : β → Nat) (l : List β) : sumOf f l = (l.map f).sum := by
  induction l with
  | nil => rfl
  | cons b rest ih => rw [sumOf, ih, List.map_cons, List.sum_cons]

theorem sumOf_append (f : β → Nat) (l m : List β) : sumOf f (l ++ m) = sumOf f l + sumOf f m := by
  simp only [sumOf_eq_sum, List.map_append, List.sum_append]

theorem sumOf_perm (h : l.Perm m) : sumOf f l = sumOf f m := by
  rw [sumOf_eq_sum, sumOf_eq_sum]
  exact (h.map f).sum_nat

/-- A sum is that over the rest of the list and the item at one place. -/
theorem sumOf_eraseIdx {index : Nat} {b : β} (h : l[index]? = some b) (f : β → Nat) :
    sumOf f l = f b + sumOf f (l.eraseIdx index) := by
  obtain ⟨hindex, rfl⟩ := List.getElem?_eq_some_iff.1 h
  exact sumOf_perm (List.getElem_cons_eraseIdx_perm hindex).symm

theorem sumOf_set {index : Nat} (hindex : index < l.length) (b : β) (f : β → Nat) :
    sumOf f (l.set index b) = f b + sumOf f (l.eraseIdx index) :=
  sumOf_perm (List.set_perm_cons_eraseIdx hindex b)

theorem sumOf_le (h : ∀ b ∈ l, f b ≤ g b) : sumOf f l ≤ sumOf g l := by
  rw [sumOf_eq_sum, sumOf_eq_sum]
  exact List.sum_le_sum h

theorem sumOf_le_length_mul {n : Nat} (h : ∀ b ∈ l, f b ≤ n) : sumOf f l ≤ l.length * n := by
  have hle := List.sum_le_card_nsmul (l.map f) n (List.forall_mem_map.2 h)
  rwa [List.length_map, ← sumOf_eq_sum] at hle

theorem sumOf_congr (h : ∀ b ∈ l, f b = g b) : sumOf f l = sumOf g l := by
  rw [sumOf_eq_sum, sumOf_eq_sum, List.map_congr_left h]

theorem length_flatMap_eq_sumOf {γ : Type} (items : β → List γ) (l : List β) :
    (l.flatMap items).length = sumOf (fun b => (items b).length) l := by
  rw [List.length_flatMap, sumOf_eq_sum]

theorem sumOf_count_map {γ : Type} [BEq γ] (f : β → γ) (c : γ) (lists : List (List β)) :
    sumOf (fun l => (l.map f).count c) lists = (lists.flatten.map f).count c := by
  rw [List.map_flatten, List.count_flatten, List.map_map, sumOf_eq_sum]
  rfl

/-! ## Places -/

section Places

variable {has : β → Bool} {places : List Nat} {place : Nat}

/-- The places of the items of a list that have a property. -/
def placesOf (has : β → Bool) (l : List β) : List Nat :=
  (List.range l.length).filter fun place => (l[place]?).any has

theorem mem_placesOf : place ∈ placesOf has l ↔ ∃ b, l[place]? = some b ∧ has b = true := by
  unfold placesOf
  rw [List.mem_filter, Option.any_eq_true, List.mem_range]
  exact and_iff_right_of_imp fun ⟨_, hb, _⟩ => (List.getElem?_eq_some_iff.1 hb).1

theorem nodup_placesOf (has : β → Bool) (l : List β) : (placesOf has l).Nodup :=
  List.nodup_range.sublist List.filter_sublist

theorem length_placesOf (has : β → Bool) (l : List β) : (placesOf has l).length = l.countP has := by
  have hmap : l.map some = (List.range l.length).map (l[·]?) := by
    refine List.ext_getElem? fun place => ?_
    by_cases hplace : place < l.length
    · simp [hplace]
    · simp [Nat.not_lt.1 hplace]
  have hcount := congrArg (List.countP (Option.any has)) hmap
  rw [List.countP_map, List.countP_map] at hcount
  rw [placesOf, ← List.countP_eq_length_filter]
  exact hcount.symm

theorem length_le_countP (hnodup : places.Nodup)
    (h : ∀ place ∈ places, ∃ b, l[place]? = some b ∧ has b = true) : places.length ≤ l.countP has := by
  rw [← length_placesOf]
  exact (List.Nodup.subperm hnodup fun place hplace => mem_placesOf.2 (h place hplace)).length_le

theorem countP_le_length (h : ∀ place b, l[place]? = some b → has b = true → place ∈ places) :
    l.countP has ≤ places.length := by
  rw [← length_placesOf]
  refine (List.Nodup.subperm (nodup_placesOf has l) fun place hplace => ?_).length_le
  obtain ⟨b, hb, hhas⟩ := mem_placesOf.1 hplace
  exact h place b hb hhas

end Places

/-! ## Newest items -/

/-- To keep the newest items, those kept so far are enough. -/
theorem rtake_concat_rtake (l : List β) (b : β) (n : Nat) :
    (l.rtake n ++ [b]).rtake n = (l ++ [b]).rtake n := by
  cases n with
  | zero => rw [List.rtake_zero, List.rtake_zero]
  | succ n =>
      rw [List.rtake_concat_succ, List.rtake_concat_succ]
      simp [List.rtake_eq_reverse_take_reverse, List.take_take]

theorem map_rtake {γ : Type} (f : β → γ) (l : List β) (n : Nat) :
    (l.rtake n).map f = (l.map f).rtake n := by
  simp [List.rtake, List.map_drop]

end Dispatch

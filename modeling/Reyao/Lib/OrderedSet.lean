import Mathlib.Data.List.Sort
import Mathlib.Data.List.TakeWhile

/-!
# Ordered sets with a comparator

A `std::set` as the list of its elements in order: an iterator is a position in
the list, and two elements are equivalent when the comparator puts neither
first. The comparator may look at state outside the elements, so nothing here
assumes that the list is ordered by it; the lemmas do, through a key in a linear
order that the comparator agrees with.
-/

namespace Reyao.Lib.OrderedSet

universe u v

variable {α : Type u} {κ : Type v}

/-- The position of the first element the comparator does not put before `x`. -/
def lowerBound (lt : α → α → Bool) (x : α) (xs : List α) : Nat :=
  (xs.takeWhile (lt · x)).length

/-- The position of an element equivalent to `x`. -/
def find (lt : α → α → Bool) (x : α) (xs : List α) : Option Nat :=
  match xs[lowerBound lt x xs]? with
  | some y => if lt x y then none else some (lowerBound lt x xs)
  | none => none

/-- Insert `x`, unless an equivalent element is there. -/
def insert (lt : α → α → Bool) (x : α) : List α → List α
  | [] => [x]
  | y :: ys =>
      if lt y x then y :: insert lt x ys
      else if lt x y then x :: y :: ys
      else y :: ys

variable [LinearOrder κ] {key : α → κ} {lt : α → α → Bool} {x : α} {xs : List α}

/-- The elements stand in strictly increasing order of their keys. -/
def Sorted (key : α → κ) (xs : List α) : Prop := xs.Pairwise fun a b => key a < key b

theorem Sorted.nodup (sorted : Sorted key xs) : xs.Nodup :=
  List.Pairwise.imp (fun less same => absurd (same ▸ less) (lt_irrefl _)) sorted

/-- Only the keys of the elements matter. -/
theorem Sorted.congr {key' : α → κ} (sorted : Sorted key xs)
    (same : ∀ y ∈ xs, key' y = key y) : Sorted key' xs := by
  refine List.Pairwise.imp_of_mem (fun {a b} memA memB less => ?_) sorted
  rw [same a memA, same b memB]
  exact less

theorem Sorted.sublist {ys : List α} (sorted : Sorted key xs) (sub : ys.Sublist xs) :
    Sorted key ys :=
  List.Pairwise.sublist sub sorted

/-- A member of an ordered set is found. -/
theorem Sorted.find_mem (agrees : ∀ a b, lt a b = true ↔ key a < key b)
    (sorted : Sorted key xs) (member : x ∈ xs) :
    ∃ i, find lt x xs = some i ∧ xs[i]? = some x := by
  obtain ⟨front, back, rfl⟩ := List.append_of_mem member
  obtain ⟨-, -, below⟩ := List.pairwise_append.mp sorted
  have before : ∀ y ∈ front, lt y x = true := fun y memY =>
    (agrees y x).mpr (below y memY x List.mem_cons_self)
  have same : ¬(lt x x = true) := fun less => lt_irrefl _ ((agrees x x).mp less)
  have bound : lowerBound lt x (front ++ x :: back) = front.length := by
    rw [lowerBound, List.takeWhile_append_of_pos before,
      List.takeWhile_cons_of_neg (p := (lt · x)) same, List.append_nil]
  have here : (front ++ x :: back)[front.length]? = some x := by
    rw [List.getElem?_append_right (le_refl _), Nat.sub_self, List.getElem?_cons_zero]
  refine ⟨front.length, ?_, here⟩
  rw [find, bound, here]
  exact if_neg same

/-- Erasing at the position of `x` takes out `x` and nothing else. -/
theorem mem_eraseIdx {i : Nat} (nodup : xs.Nodup) (here : xs[i]? = some x) (y : α) :
    y ∈ xs.eraseIdx i ↔ y ∈ xs ∧ y ≠ x := by
  induction xs generalizing i with
  | nil => cases here
  | cons z zs ih =>
      obtain ⟨fresh, rest⟩ := List.nodup_cons.mp nodup
      cases i with
      | zero =>
          rw [List.getElem?_cons_zero, Option.some.injEq] at here
          subst here
          rw [List.eraseIdx_cons_zero, List.mem_cons]
          constructor
          · exact fun memY => ⟨Or.inr memY, fun same => fresh (same ▸ memY)⟩
          · rintro ⟨same | memY, other⟩
            · exact absurd same other
            · exact memY
      | succ i =>
          rw [List.getElem?_cons_succ] at here
          have memX : x ∈ zs := List.mem_of_getElem? here
          rw [List.eraseIdx_cons_succ, List.mem_cons, ih rest here, List.mem_cons]
          constructor
          · rintro (rfl | ⟨memY, other⟩)
            · exact ⟨Or.inl rfl, fun same => fresh (same ▸ memX)⟩
            · exact ⟨Or.inr memY, other⟩
          · rintro ⟨same | memY, other⟩
            · exact Or.inl same
            · exact Or.inr ⟨memY, other⟩

/-- A new key goes in. -/
theorem mem_insert (agrees : ∀ a b, lt a b = true ↔ key a < key b)
    (fresh : ∀ y ∈ xs, key y ≠ key x) (y : α) : y ∈ insert lt x xs ↔ y = x ∨ y ∈ xs := by
  induction xs with
  | nil => rw [insert, List.mem_singleton, or_iff_left (List.not_mem_nil)]
  | cons z zs ih =>
      have ih := ih fun w memW => fresh w (List.mem_cons_of_mem z memW)
      rw [insert]
      by_cases before : lt z x = true
      · rw [if_pos before, List.mem_cons, ih, List.mem_cons]
        exact or_left_comm
      · have after : lt x z = true :=
          (agrees x z).mpr (lt_of_le_of_ne (not_lt.mp fun less => before ((agrees z x).mpr less))
            (fresh z List.mem_cons_self).symm)
        rw [if_neg before, if_pos after, List.mem_cons]

/-- Insertion keeps the order. -/
theorem Sorted.insert (agrees : ∀ a b, lt a b = true ↔ key a < key b)
    (sorted : Sorted key xs) (fresh : ∀ y ∈ xs, key y ≠ key x) :
    Sorted key (insert lt x xs) := by
  induction xs with
  | nil => exact List.pairwise_singleton _ _
  | cons z zs ih =>
      obtain ⟨least, rest⟩ := List.pairwise_cons.mp sorted
      have freshRest : ∀ y ∈ zs, key y ≠ key x := fun y memY =>
        fresh y (List.mem_cons_of_mem z memY)
      rw [OrderedSet.insert]
      by_cases before : lt z x = true
      · rw [if_pos before]
        refine List.pairwise_cons.mpr ⟨fun y memY => ?_, ih rest freshRest⟩
        rcases (mem_insert agrees freshRest y).mp memY with rfl | old
        · exact (agrees z y).mp before
        · exact least y old
      · have less : key x < key z :=
          lt_of_le_of_ne (not_lt.mp fun less => before ((agrees z x).mpr less))
            (fresh z List.mem_cons_self).symm
        rw [if_neg before, if_pos ((agrees x z).mpr less)]
        refine List.pairwise_cons.mpr ⟨fun y memY => ?_, sorted⟩
        rcases List.mem_cons.mp memY with rfl | old
        · exact less
        · exact less.trans (least y old)

theorem takeWhile_congr {p q : α → Bool} (same : ∀ y ∈ xs, p y = q y) :
    xs.takeWhile p = xs.takeWhile q := by
  induction xs with
  | nil => rfl
  | cons y ys ih =>
      rw [List.takeWhile_cons, List.takeWhile_cons, same y List.mem_cons_self,
        ih fun z member => same z (List.mem_cons_of_mem y member)]

/-- Where nothing that satisfies `p` stands behind something that does not, the elements up
to the first that does not satisfy `p` are all that do. -/
theorem takeWhile_eq_filter {p : α → Bool}
    (down : xs.Pairwise fun a b => p b = true → p a = true) :
    xs.takeWhile p = xs.filter p ∧ xs.dropWhile p = xs.filter (!p ·) := by
  induction xs with
  | nil => exact ⟨rfl, rfl⟩
  | cons x xs ih =>
      obtain ⟨first, rest⟩ := List.pairwise_cons.mp down
      by_cases here : p x = true
      · obtain ⟨taken, left⟩ := ih rest
        rw [List.takeWhile_cons_of_pos here, List.filter_cons_of_pos here, taken,
          List.dropWhile_cons_of_pos here, left, List.filter_cons_of_neg (by simp [here])]
        exact ⟨rfl, rfl⟩
      · have none_left : ∀ y ∈ x :: xs, ¬(p y = true) := by
          intro y member
          rcases List.mem_cons.mp member with rfl | behind
          · exact here
          · exact fun holds => here (first y behind holds)
        rw [List.takeWhile_cons_of_neg here, List.dropWhile_cons_of_neg here,
          List.filter_eq_nil_iff.mpr none_left,
          List.filter_eq_self.mpr fun y member => by simp [none_left y member]]
        exact ⟨rfl, rfl⟩

end Reyao.Lib.OrderedSet

import Mathlib.Algebra.Order.Ring.Nat
import Mathlib.Data.List.Sort
import Mathlib.Data.List.Perm.Subperm

/-!
# Ordered maps with keys that may be equivalent

A `std::map` as the list of its entries in order of their keys. Keys are compared
through their `rank`; two keys of one rank are equivalent without being equal,
and assigning to a key that is there keeps the key that is there.
-/

namespace Reyao.Lib.OrderedMap

universe u v w

variable {K : Type u} {V : Type v} {κ : Type w} [LinearOrder κ] {rank : K → κ}

/-- The entries stand in strictly increasing order of rank. -/
def Sorted (rank : K → κ) (m : List (K × V)) : Prop :=
  m.Pairwise fun a b => rank a.1 < rank b.1

/-- `m[k] = v`. -/
def assign (rank : K → κ) (k : K) (v : V) : List (K × V) → List (K × V)
  | [] => [(k, v)]
  | (k', v') :: rest =>
      if rank k' < rank k then (k', v') :: assign rank k v rest
      else if rank k < rank k' then (k, v) :: (k', v') :: rest
      else (k', v) :: rest

/-- `m.find(k)`, as the value found. -/
def lookup (rank : K → κ) (k : K) (m : List (K × V)) : Option V :=
  (m.find? fun entry => rank entry.1 = rank k).map Prod.snd

variable {k : K} {v : V} {m : List (K × V)}

theorem rank_of_mem_assign {entry : K × V} (member : entry ∈ assign rank k v m) :
    rank entry.1 = rank k ∨ entry ∈ m := by
  induction m with
  | nil =>
      rw [assign, List.mem_singleton] at member
      exact Or.inl (by rw [member])
  | cons head rest ih =>
      obtain ⟨k', v'⟩ := head
      rw [assign] at member
      by_cases before : rank k' < rank k
      · rw [if_pos before, List.mem_cons] at member
        rcases member with rfl | later
        · exact Or.inr List.mem_cons_self
        · exact (ih later).imp_right (List.mem_cons_of_mem _)
      · rw [if_neg before] at member
        by_cases after : rank k < rank k'
        · rw [if_pos after, List.mem_cons] at member
          rcases member with rfl | later
          · exact Or.inl rfl
          · exact Or.inr later
        · rw [if_neg after, List.mem_cons] at member
          rcases member with rfl | later
          · exact Or.inl (le_antisymm (not_lt.mp after) (not_lt.mp before))
          · exact Or.inr (List.mem_cons_of_mem _ later)

/-- Assignment keeps the order. -/
theorem Sorted.assign (sorted : Sorted rank m) (k : K) (v : V) :
    Sorted rank (assign rank k v m) := by
  induction m with
  | nil => exact List.pairwise_singleton _ _
  | cons head rest ih =>
      obtain ⟨k', v'⟩ := head
      obtain ⟨least, tail⟩ := List.pairwise_cons.mp sorted
      rw [OrderedMap.assign]
      by_cases before : rank k' < rank k
      · rw [if_pos before]
        refine List.pairwise_cons.mpr ⟨fun entry member => ?_, ih tail⟩
        rcases rank_of_mem_assign member with same | old
        · rw [same]
          exact before
        · exact least entry old
      · rw [if_neg before]
        by_cases after : rank k < rank k'
        · rw [if_pos after]
          refine List.pairwise_cons.mpr ⟨fun entry member => ?_, sorted⟩
          rcases List.mem_cons.mp member with rfl | old
          · exact after
          · exact after.trans (least entry old)
        · rw [if_neg after]
          exact List.pairwise_cons.mpr ⟨least, tail⟩

/-- What is true of every entry stays true if it is true of the new one, under its own
key or under an equivalent one that is there. -/
theorem forall_assign {P : K × V → Prop} (old : ∀ entry ∈ m, P entry) (new : P (k, v))
    (replaced : ∀ {k' v'}, rank k' = rank k → P (k', v') → P (k', v)) :
    ∀ entry ∈ assign rank k v m, P entry := by
  induction m with
  | nil =>
      intro entry member
      rw [assign, List.mem_singleton] at member
      rw [member]
      exact new
  | cons head rest ih =>
      obtain ⟨k', v'⟩ := head
      have first := old (k', v') List.mem_cons_self
      have later : ∀ entry ∈ rest, P entry := fun entry member =>
        old entry (List.mem_cons_of_mem _ member)
      rw [assign]
      by_cases before : rank k' < rank k
      · rw [if_pos before]
        exact List.forall_mem_cons.mpr ⟨first, ih later⟩
      · rw [if_neg before]
        by_cases after : rank k < rank k'
        · rw [if_pos after]
          exact List.forall_mem_cons.mpr ⟨new, old⟩
        · rw [if_neg after]
          have same : rank k' = rank k := le_antisymm (not_lt.mp after) (not_lt.mp before)
          exact List.forall_mem_cons.mpr ⟨replaced same first, later⟩

theorem assign_of_gt {k' : K} {v' : V} {rest : List (K × V)} (before : rank k' < rank k) :
    assign rank k v ((k', v') :: rest) = (k', v') :: assign rank k v rest := if_pos before

theorem assign_of_lt {k' : K} {v' : V} {rest : List (K × V)} (after : rank k < rank k') :
    assign rank k v ((k', v') :: rest) = (k, v) :: (k', v') :: rest := by
  rw [assign, if_neg after.asymm, if_pos after]

theorem assign_of_eq {k' : K} {v' : V} {rest : List (K × V)} (same : rank k' = rank k) :
    assign rank k v ((k', v') :: rest) = (k', v) :: rest := by
  rw [assign, if_neg (lt_irrefl _ <| lt_of_lt_of_eq · same.symm),
    if_neg (lt_irrefl _ <| lt_of_lt_of_eq · same)]

/-- Assignments to keys of two ranks, the lower one second, may be made the other way
around. -/
theorem assign_comm_of_lt {k' : K} {v' : V} (less : rank k' < rank k) :
    assign rank k' v' (assign rank k v m) = assign rank k v (assign rank k' v' m) := by
  induction m with
  | nil => rw [assign, assign, assign_of_lt less, assign_of_gt less, assign]
  | cons head rest ih =>
      obtain ⟨k₀, v₀⟩ := head
      rcases lt_trichotomy (rank k₀) (rank k) with before | same | after
      · rw [assign_of_gt before]
        rcases lt_trichotomy (rank k₀) (rank k') with before' | same' | after'
        · rw [assign_of_gt before', assign_of_gt before', assign_of_gt before, ih]
        · rw [assign_of_eq same', assign_of_eq same', assign_of_gt before]
        · rw [assign_of_lt after', assign_of_lt after', assign_of_gt less, assign_of_gt before]
      · have low : rank k' < rank k₀ := same ▸ less
        rw [assign_of_eq same, assign_of_lt low, assign_of_lt low, assign_of_gt less,
          assign_of_eq same]
      · have low : rank k' < rank k₀ := less.trans after
        rw [assign_of_lt after, assign_of_lt less, assign_of_lt low, assign_of_gt less,
          assign_of_lt after]

/-- Assignments to keys of different ranks may be made in either order. -/
theorem assign_comm {k' : K} {v' : V} (different : rank k ≠ rank k') :
    assign rank k' v' (assign rank k v m) = assign rank k v (assign rank k' v' m) := by
  rcases lt_or_gt_of_ne different with less | less
  · exact (assign_comm_of_lt less).symm
  · exact assign_comm_of_lt less

/-- A key of a new rank adds its entry. -/
theorem mem_assign (fresh : ∀ entry ∈ m, rank entry.1 ≠ rank k) (entry : K × V) :
    entry ∈ assign rank k v m ↔ entry = (k, v) ∨ entry ∈ m := by
  induction m with
  | nil => rw [assign, List.mem_singleton, or_iff_left List.not_mem_nil]
  | cons head rest ih =>
      obtain ⟨k', v'⟩ := head
      have ih := ih fun entry member => fresh entry (List.mem_cons_of_mem _ member)
      rw [assign]
      by_cases before : rank k' < rank k
      · rw [if_pos before, List.mem_cons, ih, List.mem_cons]
        exact or_left_comm
      · have after : rank k < rank k' :=
          lt_of_le_of_ne (not_lt.mp before) (fresh (k', v') List.mem_cons_self).symm
        rw [if_neg before, if_pos after, List.mem_cons]

/-- Keys of different ranks, none of them there yet, add their entries. -/
theorem mem_foldl_assign {fields : List (K × V)}
    (different : fields.Pairwise fun a b => rank a.1 ≠ rank b.1)
    (fresh : ∀ field ∈ fields, ∀ entry ∈ m, rank entry.1 ≠ rank field.1) (entry : K × V) :
    entry ∈ fields.foldl (fun m e => assign rank e.1 e.2 m) m ↔ entry ∈ m ∨ entry ∈ fields := by
  induction fields generalizing m with
  | nil => rw [List.foldl_nil, or_iff_left List.not_mem_nil]
  | cons field fields ih =>
      obtain ⟨others, different⟩ := List.pairwise_cons.mp different
      have added := mem_assign (v := field.2) (fresh field List.mem_cons_self)
      rw [List.foldl_cons, ih different, added, List.mem_cons]
      · exact ⟨fun h => by tauto, fun h => by tauto⟩
      · intro later inside entry member
        rcases (added entry).mp member with rfl | old
        · exact others later inside
        · exact fresh later (List.mem_cons_of_mem _ inside) entry old

theorem Sorted.nodup (sorted : Sorted rank m) : m.Nodup :=
  List.Pairwise.imp (fun less same => absurd (same ▸ less) (lt_irrefl _)) sorted

/-- Ordered maps with the same entries are the same. -/
theorem Sorted.ext {m' : List (K × V)} (sorted : Sorted rank m) (sorted' : Sorted rank m')
    (same : ∀ entry, entry ∈ m ↔ entry ∈ m') : m = m' := by
  have perm : m.Perm m' := (List.perm_ext_iff_of_nodup sorted.nodup sorted'.nodup).mpr same
  exact perm.eq_of_pairwise (fun a b _ _ less greater => absurd (less.trans greater) (lt_irrefl _))
    sorted sorted'

theorem lookup_cons (entry : K × V) (k : K) (m : List (K × V)) :
    lookup rank k (entry :: m) =
      if rank entry.1 = rank k then some entry.2 else lookup rank k m := by
  rw [lookup, List.find?_cons]
  by_cases same : rank entry.1 = rank k
  · rw [decide_eq_true same, if_pos same]
    rfl
  · rw [decide_eq_false same, if_neg same]
    rfl

/-- Looking up an entry of the map finds its value. -/
theorem Sorted.lookup_mem (sorted : Sorted rank m) {entry : K × V} (member : entry ∈ m)
    (same : rank entry.1 = rank k) : lookup rank k m = some entry.2 := by
  induction m with
  | nil => cases member
  | cons head rest ih =>
      obtain ⟨least, tail⟩ := List.pairwise_cons.mp sorted
      rw [lookup_cons]
      rcases List.mem_cons.mp member with rfl | later
      · rw [if_pos same]
      · have other : ¬(rank head.1 = rank k) := fun equal =>
          absurd (least entry later) (by rw [same, equal]; exact lt_irrefl _)
        rw [if_neg other]
        exact ih tail later

/-- What is looked up is an entry of the map. -/
theorem Sorted.lookup_eq_some_iff (sorted : Sorted rank m) :
    lookup rank k m = some v ↔ ∃ entry ∈ m, rank entry.1 = rank k ∧ entry.2 = v := by
  constructor
  · intro found
    rw [lookup, Option.map_eq_some_iff] at found
    obtain ⟨entry, found, rfl⟩ := found
    have same := List.find?_some found
    exact ⟨entry, List.mem_of_find?_eq_some found, of_decide_eq_true same, rfl⟩
  · rintro ⟨entry, member, same, rfl⟩
    exact sorted.lookup_mem member same

/-- After an assignment its key has the value, and the other keys have theirs. -/
theorem lookup_assign (k' k : K) (v : V) (m : List (K × V)) :
    lookup rank k' (assign rank k v m) =
      if rank k = rank k' then some v else lookup rank k' m := by
  induction m with
  | nil => exact lookup_cons (k, v) k' []
  | cons head rest ih =>
      obtain ⟨k₀, v₀⟩ := head
      rw [assign]
      by_cases before : rank k₀ < rank k
      · rw [if_pos before, lookup_cons, lookup_cons, ih]
        by_cases here : rank k₀ = rank k'
        · have other : rank k ≠ rank k' := by
            rw [← here]
            exact ne_of_gt before
          rw [if_pos here, if_neg other, if_pos here]
        · rw [if_neg here, if_neg here]
      · rw [if_neg before]
        by_cases after : rank k < rank k₀
        · rw [if_pos after, lookup_cons]
        · have equal : rank k₀ = rank k := le_antisymm (not_lt.mp after) (not_lt.mp before)
          rw [if_neg after, lookup_cons, lookup_cons, equal]
          split
          · rfl
          · rfl

/-- The summed weights of the entries. -/
def weight (size : K × V → Nat) (m : List (K × V)) : Nat := (m.map size).sum

theorem weight_perm {size : K × V → Nat} {m' : List (K × V)} (perm : m.Perm m') :
    weight size m = weight size m' :=
  (perm.map size).sum_nat

/-- An assignment adds no more than the weight of its entry, whatever it does to
an entry that was there, when sizes are those of the parts. -/
theorem weight_assign_le {sizeK : K → Nat} {sizeV : V → Nat} {c : Nat} :
    weight (fun e => sizeK e.1 + sizeV e.2 + c) (assign rank k v m) ≤
      weight (fun e => sizeK e.1 + sizeV e.2 + c) m + (sizeK k + sizeV v + c) := by
  induction m with
  | nil => simp [assign, weight]
  | cons head rest ih =>
      obtain ⟨k', v'⟩ := head
      simp only [weight, List.map_cons, List.sum_cons] at ih ⊢
      rw [assign]
      split
      · simp only [List.map_cons, List.sum_cons]
        omega
      · split
        · simp only [List.map_cons, List.sum_cons]
          omega
        · simp only [List.map_cons, List.sum_cons]
          omega

end Reyao.Lib.OrderedMap

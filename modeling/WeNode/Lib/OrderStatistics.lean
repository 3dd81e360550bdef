import Mathlib.Data.List.Sort
import Mathlib.Order.Bounds.Basic

/-!
# Order statistics and majorities

The entry at a place of the sorted list, told by how many entries are at least as large, and the
one value that more than half of the entries can have.
-/

namespace WeNode.Lib

variable {α : Type} [LinearOrder α]

/- The entries before a place of the sorted list are no greater, those behind it no less. -/
theorem sorted_split {l : List α} {k : Nat} {x : α}
    (h : (l.insertionSort (· ≤ ·))[k]? = some x) :
    ∃ pre post, l.Perm (pre ++ x :: post) ∧ pre.length = k ∧ (∀ z ∈ pre, z ≤ x) ∧
      ∀ z ∈ post, x ≤ z := by
  have hperm : (l.insertionSort (· ≤ ·)).Perm l := List.perm_insertionSort _ l
  have hsorted : (l.insertionSort (· ≤ ·)).Pairwise (· ≤ ·) := List.pairwise_insertionSort _ l
  generalize l.insertionSort (· ≤ ·) = sorted at h hperm hsorted
  obtain ⟨hk, rfl⟩ := List.getElem?_eq_some_iff.1 h
  have hsplit : sorted = sorted.take k ++ sorted[k] :: sorted.drop (k + 1) := by
    rw [← List.drop_eq_getElem_cons hk, List.take_append_drop]
  rw [hsplit] at hsorted
  obtain ⟨-, hpost, hpre⟩ := List.pairwise_append.1 hsorted
  exact ⟨_, _, hperm.symm.trans (.of_eq hsplit), List.length_take_of_le hk.le,
    fun z hz => hpre z hz _ List.mem_cons_self, fun z hz => List.rel_of_pairwise_cons hpost hz⟩

/-- Entry `k` of the sorted list is the greatest bound that all but `k` entries reach. -/
theorem isGreatest_sorted {l : List α} {k : Nat} {x : α}
    (h : (l.insertionSort (· ≤ ·))[k]? = some x) :
    IsGreatest {y | l.length - k ≤ l.countP (y ≤ ·)} x := by
  obtain ⟨pre, post, hperm, rfl, hpre, hpost⟩ := sorted_split h
  have hlength : pre.length + (post.length + 1) = l.length := by
    rw [hperm.length_eq, List.length_append, List.length_cons]
  have hcount (y : α) : l.countP (y ≤ ·) = pre.countP (y ≤ ·) + (x :: post).countP (y ≤ ·) := by
    rw [← List.countP_append]
    exact hperm.countP_eq _
  constructor
  · have hall : (x :: post).countP (x ≤ ·) = (x :: post).length := by
      rw [List.countP_eq_length]
      intro z hz
      rcases List.mem_cons.1 hz with rfl | hz
      · simp
      · simpa using hpost z hz
    rw [Set.mem_ofPred_eq, hcount, hall, List.length_cons]
    omega
  · intro y hy
    by_contra hlt
    have hlt' := lt_of_not_ge hlt
    -- neither the entry nor one before it reaches a greater bound
    have hnone : pre.countP (y ≤ ·) = 0 := by
      rw [List.countP_eq_zero]
      intro z hz
      simpa using (hpre z hz).trans_lt hlt'
    have hhead : (x :: post).countP (y ≤ ·) = post.countP (y ≤ ·) :=
      List.countP_cons_of_neg (by simpa using hlt')
    have hle : post.countP (y ≤ ·) ≤ post.length := List.countP_le_length
    rw [Set.mem_ofPred_eq, hcount, hnone, hhead] at hy
    omega

/-- How many entries are on either side of entry `k` of the sorted list. -/
theorem sorted_counts {l : List α} {k : Nat} {x : α}
    (h : (l.insertionSort (· ≤ ·))[k]? = some x) :
    k + 1 ≤ l.countP (· ≤ x) ∧ l.length ≤ l.countP (x ≤ ·) + k := by
  obtain ⟨pre, post, hperm, rfl, hpre, hpost⟩ := sorted_split h
  have hlength : l.length = pre.length + (post.length + 1) := by
    rw [hperm.length_eq, List.length_append, List.length_cons]
  have hlow : pre.countP (· ≤ x) = pre.length :=
    List.countP_eq_length.2 fun z hz => by simpa using hpre z hz
  have hhigh : post.countP (x ≤ ·) = post.length :=
    List.countP_eq_length.2 fun z hz => by simpa using hpost z hz
  rw [hperm.countP_eq, hperm.countP_eq, List.countP_append, List.countP_append, hlow,
    List.countP_cons_of_pos (by simp), List.countP_cons_of_pos (by simp), hhigh]
  omega

theorem countP_add_countP_le {β : Type} {p q : β → Bool} (hpq : ∀ a, p a = true → q a = false)
    (l : List β) : l.countP p + l.countP q ≤ l.length := by
  induction l with
  | nil => exact Nat.le_refl 0
  | cons a l ih =>
    rw [List.countP_cons, List.countP_cons, List.length_cons]
    cases hp : p a with
    | true =>
      rw [hpq a hp]
      simp
      omega
    | false => cases q a <;> simp <;> omega

/-- Two values with a majority each are one. -/
theorem majority_unique {β : Type} [BEq β] [LawfulBEq β] {l : List β} {k : Nat} {a b : β}
    (hk : l.length < 2 * k) (ha : k ≤ l.countP (· == a)) (hb : k ≤ l.countP (· == b)) : a = b := by
  by_contra hab
  have hsum := countP_add_countP_le (p := (· == a)) (q := (· == b)) (fun c hc => by
    obtain rfl : c = a := eq_of_beq hc
    exact beq_false_of_ne hab) l
  omega

end WeNode.Lib

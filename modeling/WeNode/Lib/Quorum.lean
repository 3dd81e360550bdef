import Mathlib

/-!
# Weighted quorums of members

A quorum has a threshold, a weight of its own and weighted members.  A member counts when it is
granted or when its own quorum is met in turn, which may refer back to others: the members that
count are a least fixpoint, and the ones that count within so many steps approach it.
-/

namespace WeNode.Lib

variable {α : Type}

/-- What it takes to be met. -/
structure Quorum (α : Type) where
  threshold : Nat
  own : Nat
  members : List (α × Nat)

namespace Quorum

open Classical in
/-- The weight of the members that are in a set. -/
noncomputable def weightIn (S : Set α) (l : List (α × Nat)) : Nat :=
  (l.map fun m => if m.1 ∈ S then m.2 else 0).sum

/-- The own weight and that of the members in `S` reach the threshold. -/
def Met (S : Set α) (q : Quorum α) : Prop := q.threshold ≤ q.own + weightIn S q.members

variable {S T : Set α} {l : List (α × Nat)} {m : α × Nat} {q : Quorum α}

@[simp] theorem weightIn_nil : weightIn S [] = 0 := rfl

theorem weightIn_of_mem (h : m.1 ∈ S) : weightIn S (m :: l) = m.2 + weightIn S l := by
  simp [weightIn, h]

theorem weightIn_of_not_mem (h : m.1 ∉ S) : weightIn S (m :: l) = weightIn S l := by
  simp [weightIn, h]

theorem weightIn_cons_le : weightIn S (m :: l) ≤ m.2 + weightIn S l := by
  by_cases h : m.1 ∈ S
  · rw [weightIn_of_mem h]
  · rw [weightIn_of_not_mem h]
    exact Nat.le_add_left _ _

theorem le_weightIn_cons : weightIn S l ≤ weightIn S (m :: l) := by
  by_cases h : m.1 ∈ S
  · rw [weightIn_of_mem h]
    exact Nat.le_add_left _ _
  · rw [weightIn_of_not_mem h]

theorem weightIn_mono (h : S ⊆ T) : weightIn S l ≤ weightIn T l := by
  induction l with
  | nil => rfl
  | cons m l ih =>
    by_cases hm : m.1 ∈ S
    · rw [weightIn_of_mem hm, weightIn_of_mem (h hm)]
      exact Nat.add_le_add_left ih _
    · rw [weightIn_of_not_mem hm]
      exact ih.trans le_weightIn_cons

theorem Met.mono (hq : Met S q) (h : S ⊆ T) : Met T q :=
  hq.trans (Nat.add_le_add_left (weightIn_mono h) _)

/-- The members that count once those in `S` do: the granted ones and those whose quorum is met. -/
def step (granted : Set α) (rule : α → Quorum α) : Set α →o Set α where
  toFun S := granted ∪ {a | Met S (rule a)}
  monotone' _ _ h := Set.union_subset_union_right _ fun _ ha => Met.mono ha h

variable {granted : Set α} {rule : α → Quorum α} {a : α} {d : Nat}

theorem mem_step : a ∈ step granted rule S ↔ a ∈ granted ∨ Met S (rule a) := Iff.rfl

/-- The members that count: the least fixpoint of the rule. -/
def counted (granted : Set α) (rule : α → Quorum α) : Set α := OrderHom.lfp (step granted rule)

/-- The members that count with at most so many members nested in each other. -/
def within (granted : Set α) (rule : α → Quorum α) (d : Nat) : Set α :=
  (step granted rule)^[d] granted

theorem mem_counted : a ∈ counted granted rule ↔ a ∈ granted ∨ Met (counted granted rule) (rule a) := by
  rw [← mem_step]
  unfold counted
  rw [OrderHom.map_lfp]

theorem mem_within_succ :
    a ∈ within granted rule (d + 1) ↔ a ∈ granted ∨ Met (within granted rule d) (rule a) := by
  rw [← mem_step]
  unfold within
  rw [Function.iterate_succ_apply']

theorem counted_mono {granted : Set α} {rule rule' : α → Quorum α}
    (h : ∀ a S, Met S (rule a) → Met S (rule' a)) :
    counted granted rule ⊆ counted granted rule' := by
  refine OrderHom.lfp_le _ ?_
  intro a ha
  rcases mem_step.1 ha with ha | ha
  · exact mem_counted.2 (.inl ha)
  · exact mem_counted.2 (.inr (h a _ ha))

/-! ### Members asked in turn

The members are asked one after the other until the threshold is reached. -/

open Classical in
/-- The members that are asked, of which those in `S` count. -/
noncomputable def asked (S : Set α) (threshold : Nat) : List (α × Nat) → Nat → List α
  | [], _ => []
  | m :: l, total =>
    m.1 :: if m.1 ∈ S then if threshold ≤ total + m.2 then [] else asked S threshold l (total + m.2)
      else asked S threshold l total

variable {threshold total total' : Nat} {x : α}

open Classical in
theorem asked_cons : asked S threshold (m :: l) total =
    m.1 :: if m.1 ∈ S then if threshold ≤ total + m.2 then [] else asked S threshold l (total + m.2)
      else asked S threshold l total := rfl

theorem asked_of_not_mem (h : m.1 ∉ S) :
    asked S threshold (m :: l) total = m.1 :: asked S threshold l total := by
  rw [asked_cons, if_neg h]

theorem asked_of_reached (h : m.1 ∈ S) (hreached : threshold ≤ total + m.2) :
    asked S threshold (m :: l) total = [m.1] := by
  rw [asked_cons, if_pos h, if_pos hreached]

theorem asked_of_below (h : m.1 ∈ S) (hbelow : ¬ threshold ≤ total + m.2) :
    asked S threshold (m :: l) total = m.1 :: asked S threshold l (total + m.2) := by
  rw [asked_cons, if_pos h, if_neg hbelow]

theorem mem_asked_cons : m.1 ∈ asked S threshold (m :: l) total := by
  rw [asked_cons]
  exact List.mem_cons_self

theorem mem_of_asked (h : x ∈ asked S threshold l total) : x ∈ l.map (·.1) := by
  induction l generalizing total with
  | nil => exact h
  | cons m l ih =>
    rw [List.map_cons]
    rw [asked_cons] at h
    refine List.mem_cons.2 ((List.mem_cons.1 h).imp_right fun hrest => ?_)
    split at hrest
    · split at hrest
      · cases hrest
      · exact ih hrest
    · exact ih hrest

/-- The fewer count, the more are asked. -/
theorem asked_anti (hsub : S ⊆ T) (htotal : total ≤ total')
    (h : x ∈ asked T threshold l total') : x ∈ asked S threshold l total := by
  induction l generalizing total total' with
  | nil => exact h
  | cons m l ih =>
    by_cases hx : x = m.1
    · rw [hx]
      exact mem_asked_cons
    · by_cases hT : m.1 ∈ T
      · by_cases hreached : threshold ≤ total' + m.2
        · rw [asked_of_reached hT hreached] at h
          exact absurd (List.mem_singleton.1 h) hx
        · rw [asked_of_below hT hreached] at h
          have hrest := (List.mem_cons.1 h).resolve_left hx
          by_cases hS : m.1 ∈ S
          · rw [asked_of_below hS (by omega)]
            exact List.mem_cons_of_mem _ (ih (by omega) hrest)
          · rw [asked_of_not_mem hS]
            exact List.mem_cons_of_mem _ (ih (by omega) hrest)
      · rw [asked_of_not_mem hT] at h
        rw [asked_of_not_mem fun hS => hT (hsub hS)]
        exact List.mem_cons_of_mem _ (ih htotal ((List.mem_cons.1 h).resolve_left hx))

/-- The members asked suffice to reach the threshold, when it can be reached. -/
theorem reached_of_asked (hreached : threshold ≤ total + weightIn S l)
    (h : ∀ x ∈ asked S threshold l total, x ∈ S → x ∈ T) :
    threshold ≤ total + weightIn T l := by
  induction l generalizing total with
  | nil => exact hreached
  | cons m l ih =>
    by_cases hS : m.1 ∈ S
    · have hT : m.1 ∈ T := h _ mem_asked_cons hS
      rw [weightIn_of_mem hS] at hreached
      rw [weightIn_of_mem hT]
      by_cases hstop : threshold ≤ total + m.2
      · omega
      · rw [asked_of_below hS hstop] at h
        have hrest : threshold ≤ total + m.2 + weightIn T l :=
          ih (by omega) fun x hx => h x (List.mem_cons_of_mem _ hx)
        omega
    · rw [weightIn_of_not_mem hS] at hreached
      rw [asked_of_not_mem hS] at h
      have hrest : threshold ≤ total + weightIn T l :=
        ih hreached fun x hx => h x (List.mem_cons_of_mem _ hx)
      exact hrest.trans (Nat.add_le_add_left le_weightIn_cons _)

theorem weightIn_append {l l' : List (α × Nat)} :
    weightIn S (l ++ l') = weightIn S l + weightIn S l' := by
  unfold weightIn
  rw [List.map_append, List.sum_append]

end Quorum

end WeNode.Lib

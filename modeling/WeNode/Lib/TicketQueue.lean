import Mathlib.Data.List.Nodup

/-!
# Queues of tickets

A queue kept as a number beside every customer: the ticket held, or zero where the customer is not
in line.  Tickets are given in ascending order and the lowest is served first.
-/

namespace WeNode.Lib

variable {α : Type}

/-- Those in line of some holders, in the order of their tickets, none above `last`. -/
structure InLine (holders : List (α × Nat)) (last : Nat) (line : List (α × Nat)) : Prop where
  perm : line.Perm (holders.filter fun h => decide (0 < h.2))
  sorted : line.Pairwise fun a b => a.2 < b.2
  le_last : ∀ h ∈ line, h.2 ≤ last

/-- A customer without a ticket, known or new, is given the number `n`. -/
inductive Takes (a : α) (n : Nat) : List (α × Nat) → List (α × Nat) → Prop
  | again (pre post : List (α × Nat)) : Takes a n (pre ++ (a, 0) :: post) (pre ++ (a, n) :: post)
  | first {holders : List (α × Nat)} (h : a ∉ holders.map (·.1)) :
    Takes a n holders (holders ++ [(a, n)])

namespace Takes

variable {a : α} {n : Nat} {holders holders' : List (α × Nat)}

theorem nodup (h : Takes a n holders holders') (hn : (holders.map (·.1)).Nodup) :
    (holders'.map (·.1)).Nodup := by
  cases h with
  | again pre post => simpa using hn
  | first h =>
    rw [List.map_append, List.map_singleton]
    exact List.Nodup.append hn (List.nodup_singleton a) (by simpa using h)

/-- Only a number above zero brings a customer into the line. -/
theorem waiting (h : Takes a n holders holders') :
    (holders'.filter fun h => decide (0 < h.2)).Perm
      ((holders.filter fun h => decide (0 < h.2)) ++ if n = 0 then [] else [(a, n)]) := by
  cases h with
  | again pre post =>
    by_cases hn : n = 0
    · simp [hn]
    · simp only [List.filter_append, List.filter_cons, Nat.pos_of_ne_zero hn, decide_true,
        Nat.lt_irrefl, decide_false, if_neg hn, if_true, Bool.false_eq_true, if_false,
        List.append_assoc]
      exact List.Perm.append_left _ (List.perm_append_singleton _ _).symm
  | first h =>
    by_cases hn : n = 0
    · simp [hn]
    · simp [hn, Nat.pos_of_ne_zero hn]

end Takes

namespace InLine

variable {a : α} {n last : Nat} {holders holders' line : List (α × Nat)}

theorem nil (h : ∀ x ∈ holders, x.2 = 0) : InLine holders last [] where
  perm := by
    rw [List.filter_eq_nil_iff.2 fun x hx => by simp [h x hx]]
  sorted := .nil
  le_last := nofun

/-- The number zero leaves the line as it is. -/
theorem pass (h : InLine holders last line) (ht : Takes a 0 holders holders') :
    InLine holders' last line where
  perm := h.perm.trans (by simpa using ht.waiting.symm)
  sorted := h.sorted
  le_last := h.le_last

/-- The next ticket is the last of the line. -/
theorem enter (h : InLine holders last line) (ht : Takes a (last + 1) holders holders') :
    InLine holders' (last + 1) (line ++ [(a, last + 1)]) where
  perm := by
    have hwaiting := ht.waiting
    rw [if_neg (Nat.succ_ne_zero last)] at hwaiting
    exact (h.perm.append_right _).trans hwaiting.symm
  sorted := by
    rw [List.pairwise_append]
    refine ⟨h.sorted, List.pairwise_singleton _ _, ?_⟩
    intro x hx y hy
    rw [List.mem_singleton.1 hy]
    exact Nat.lt_succ_of_le (h.le_last x hx)
  le_last := by
    intro x hx
    rcases List.mem_append.1 hx with hx | hx
    · exact Nat.le_succ_of_le (h.le_last x hx)
    · exact Nat.le_of_eq (congrArg Prod.snd (List.mem_singleton.1 hx))

theorem pos (h : InLine holders last line) {x : α × Nat} (hx : x ∈ line) : 0 < x.2 := by
  have hmem := h.perm.mem_iff.1 hx
  simpa using (List.mem_filter.1 hmem).2

theorem mem (h : InLine holders last line) {x : α × Nat} (hx : x ∈ line) : x ∈ holders :=
  (List.mem_filter.1 (h.perm.mem_iff.1 hx)).1

/-- The first of the line is served and gives the ticket back. -/
theorem serve {pre post : List (α × Nat)} (h : InLine (pre ++ (a, n) :: post) last ((a, n) :: line)) :
    InLine (pre ++ (a, 0) :: post) last line where
  perm := by
    have hpos : 0 < n := h.pos (List.mem_cons_self)
    have hperm := h.perm
    simp only [List.filter_append, List.filter_cons, hpos, decide_true, if_true] at hperm
    simp only [List.filter_append, List.filter_cons, Nat.lt_irrefl, decide_false,
      Bool.false_eq_true, if_false]
    exact (hperm.trans List.perm_middle).cons_inv
  sorted := (List.pairwise_cons.1 h.sorted).2
  le_last := fun x hx => h.le_last x (List.mem_cons_of_mem _ hx)

theorem length_eq (h : InLine holders last line) :
    line.length = (holders.filter fun h => decide (0 < h.2)).length := h.perm.length_eq

/-- No two customers hold the same ticket. -/
theorem tickets_nodup (h : InLine holders last line) :
    ((holders.filter fun h => decide (0 < h.2)).map (·.2)).Nodup := by
  have hline : (line.map (·.2)).Nodup := by
    unfold List.Nodup
    rw [List.pairwise_map]
    exact h.sorted.imp fun hlt => Nat.ne_of_lt hlt
  exact (h.perm.map (·.2)).nodup_iff.1 hline

/-- The line is what sorting the tickets makes of those who hold one. -/
theorem eq_of_sorted (h : InLine holders last line) {l : List (α × Nat)}
    (hp : l.Perm (holders.filter fun h => decide (0 < h.2)))
    (hs : l.Pairwise fun a b => a.2 ≤ b.2) : l = line := by
  have hunique : ∀ x y, x ∈ l → y ∈ line → x.2 ≤ y.2 → y.2 ≤ x.2 → x = y := by
    intro x y hx hy hxy hyx
    have hx' := hp.mem_iff.1 hx
    have hy' := h.perm.mem_iff.1 hy
    exact List.inj_on_of_nodup_map h.tickets_nodup hx' hy' (Nat.le_antisymm hxy hyx)
  exact List.Perm.eq_of_pairwise hunique hs (h.sorted.imp fun hlt => Nat.le_of_lt hlt)
    (hp.trans h.perm.symm)

end InLine

end WeNode.Lib

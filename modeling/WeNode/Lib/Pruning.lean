import Mathlib.Data.List.Nodup
import Mathlib.Tactic.Common

/-!
# Minimal sets by trial

Each element is left out in turn, and stays out when the others still pass.  Where passing is
monotone, none of those that are left can be left out.
-/

namespace WeNode.Lib

variable {α : Type} [DecidableEq α] {passes : List α → Bool}

/-- Of `kept`, what remains once each candidate has been tried. -/
def prune (passes : List α → Bool) : List α → List α → List α
  | [], kept => kept
  | x :: rest, kept =>
    if passes (kept.erase x) then prune passes rest (kept.erase x) else prune passes rest kept

theorem prune_sublist (passes : List α → Bool) (candidates kept : List α) :
    (prune passes candidates kept).Sublist kept := by
  induction candidates generalizing kept with
  | nil => exact List.Sublist.refl _
  | cons x rest ih =>
    rw [prune]
    split
    · exact (ih _).trans List.erase_sublist
    · exact ih _

theorem prune_passes {candidates kept : List α} (h : passes kept = true) :
    passes (prune passes candidates kept) = true := by
  induction candidates generalizing kept with
  | nil => exact h
  | cons x rest ih =>
    rw [prune]
    split
    · next hout => exact ih hout
    · exact ih h

theorem prune_minimal {candidates kept : List α} (hnodup : kept.Nodup)
    (hmono : ∀ l l' : List α, l ⊆ l' → l'.Sublist kept → passes l = true → passes l' = true) :
    ∀ x ∈ candidates, x ∈ prune passes candidates kept →
      passes ((prune passes candidates kept).erase x) = false := by
  induction candidates generalizing kept with
  | nil => nofun
  | cons x rest ih =>
    intro y hy hkept
    rw [prune] at hkept ⊢
    by_cases hout : passes (kept.erase x) = true
    · rw [if_pos hout] at hkept ⊢
      have hrest : y ∈ rest := by
        refine (List.mem_cons.1 hy).resolve_left ?_
        rintro rfl
        exact hnodup.not_mem_erase ((prune_sublist _ _ _).subset hkept)
      exact ih (hnodup.erase x)
        (fun l l' hsub hl' => hmono l l' hsub (hl'.trans List.erase_sublist)) y hrest hkept
    · rw [if_neg hout] at hkept ⊢
      rcases List.mem_cons.1 hy with rfl | hrest
      · -- it could not be left out of more
        refine Bool.eq_false_iff.2 fun hpass => hout ?_
        exact hmono _ _ ((prune_sublist _ rest kept).erase y).subset List.erase_sublist hpass
      · exact ih hnodup hmono y hrest hkept

end WeNode.Lib

import WeNode.Lib.Runs
import WeNode.Lib.Table

/-!
# Passes over rows

A pass that adds up its rows, and one that settles the rows that are due: at a given moment every
row of a table that is due is settled by a step that removes it.  The rows are collected first, in
any order; those after the pass are the ones that were not due.
-/

namespace WeNode.Lib

theorem run_adds {σ α ε G : Type} [AddCommGroup G] {f : σ → α → Except ε σ} {m : σ → G} {g : α → G}
    {l : List α} {s s' : σ} (h : l.foldlM f s = .ok s')
    (hf : ∀ t x t', f t x = .ok t' → m t' = m t + g x) : m s' = m s + (l.map g).sum := by
  induction l generalizing s with
  | nil =>
    cases h
    simp
  | cons x l ih =>
    obtain ⟨t, hx, hrest⟩ := run_cons.1 h
    rw [ih hrest, hf s x t hx, List.map_cons, List.sum_cons, add_assoc]

namespace Table

variable {σ α ε : Type} {rows : σ → Table α} {id : α → Nat} {f : σ → α → Except ε σ}
  {P : σ → Prop} {l : List α} {s s' : σ}

/-- A pass over rows with different ids, each of which is found by its step and removed. -/
theorem run_removes (h : l.foldlM f s = .ok s') (hk : (rows s).Keyed id)
    (hl : ∀ x ∈ l, x ∈ (rows s).rows) (hn : (l.map id).Nodup) (hs : P s)
    (hf : ∀ t x t', x ∈ l → (rows t).row id (id x) = some x → P t → f t x = .ok t' →
      P t' ∧ rows t' = (rows t).remove fun y => id y == id x) :
    P s' ∧ (rows s').Keyed id ∧ (rows s').nextId = (rows s).nextId ∧
      ∀ x, x ∈ (rows s').rows ↔ x ∈ (rows s).rows ∧ id x ∉ l.map id := by
  induction l generalizing s with
  | nil =>
    cases h
    exact ⟨hs, hk, rfl, fun x => by simp⟩
  | cons a l ih =>
    obtain ⟨t, ha, hrest⟩ := run_cons.1 h
    have hrow : (rows s).row id (id a) = some a := hk.row_iff.2 ⟨hl a List.mem_cons_self, rfl⟩
    obtain ⟨ht, hrows⟩ := hf s a t List.mem_cons_self hrow hs ha
    rw [List.map_cons, List.nodup_cons] at hn
    have hmem : ∀ x, x ∈ (rows t).rows ↔ x ∈ (rows s).rows ∧ id x ≠ id a := fun x => by
      rw [hrows]
      exact hk.mem_remove
    have hkt : (rows t).Keyed id := hrows ▸ hk.remove (id a)
    have hlt : ∀ x ∈ l, x ∈ (rows t).rows := fun x hx =>
      (hmem x).2 ⟨hl x (List.mem_cons_of_mem a hx), fun he => hn.1 (he ▸ List.mem_map_of_mem hx)⟩
    obtain ⟨hs', hks', hnext, hleft⟩ := ih hrest hkt hlt hn.2 ht fun u x u' hx =>
      hf u x u' (List.mem_cons_of_mem a hx)
    refine ⟨hs', hks', hnext.trans (by rw [hrows]; rfl), fun x => ?_⟩
    rw [hleft, hmem, List.map_cons, List.mem_cons, not_or, and_assoc]

variable (rows id) in
/-- A pass over all rows that are due: what is left was not. -/
theorem run_due {due : α → Bool} (h : l.foldlM f s = .ok s') (hk : (rows s).Keyed id)
    (hl : l.Perm ((rows s).rows.filter due)) (hs : P s)
    (hf : ∀ t x t', due x = true → (rows t).row id (id x) = some x → P t → f t x = .ok t' →
      P t' ∧ rows t' = (rows t).remove fun y => id y == id x) :
    P s' ∧ (rows s').Keyed id ∧ (rows s').nextId = (rows s).nextId ∧
      ∀ x, x ∈ (rows s').rows ↔ x ∈ (rows s).rows ∧ due x = false := by
  have hmem : ∀ x, x ∈ l ↔ x ∈ (rows s).rows ∧ due x = true := fun x => by
    rw [hl.mem_iff, List.mem_filter]
  have hn : (l.map id).Nodup :=
    (hl.map id).nodup_iff.2 (hk.nodup.sublist (List.filter_sublist.map id))
  obtain ⟨hs', hks', hnext, hleft⟩ := run_removes h hk (fun x hx => ((hmem x).1 hx).1) hn hs
    fun t x t' hx => hf t x t' ((hmem x).1 hx).2
  refine ⟨hs', hks', hnext, fun x => ?_⟩
  rw [hleft]
  refine and_congr_right fun hx => ?_
  rw [← Bool.not_eq_true]
  refine not_congr ⟨fun hid => ?_, fun hdue => List.mem_map_of_mem ((hmem x).2 ⟨hx, hdue⟩)⟩
  obtain ⟨y, hy, hyx⟩ := List.mem_map.1 hid
  obtain ⟨hyrow, hydue⟩ := (hmem y).1 hy
  rwa [← List.inj_on_of_nodup_map hk.nodup hyrow hx hyx]

end Table

end WeNode.Lib

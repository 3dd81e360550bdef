import Mathlib.Data.List.Nodup
import Mathlib.Tactic.Common

/-!
# Folds over ordered maps

A fold over the entries of a map whose steps each change what belongs to the key of the entry:
what belongs to a key in the end is what the entry of the key made of it.
-/

namespace WeNode.Lib

open Std

variable {σ τ α β : Type}

/-- Each step changes the view of its own key, by `g`, and of no other. -/
structure Local (key : β → Nat) (view : σ → Nat → τ) (f : σ → β → σ) (g : τ → β → τ) : Prop where
  self : ∀ s b, view (f s b) (key b) = g (view s (key b)) b
  other : ∀ s b k, k ≠ key b → view (f s b) k = view s k

namespace Local

variable {key : β → Nat} {view : σ → Nat → τ} {f : σ → β → σ} {g : τ → β → τ}

theorem foldl_of_not_mem (h : Local key view f g) {l : List β} {k : Nat} (hk : k ∉ l.map key)
    (s : σ) : view (l.foldl f s) k = view s k := by
  induction l generalizing s with
  | nil => rfl
  | cons b l ih =>
    simp only [List.map_cons, List.mem_cons, not_or] at hk
    rw [List.foldl_cons, ih hk.2, h.other s b k hk.1]

theorem foldl_of_mem (h : Local key view f g) {l : List β} (hl : (l.map key).Nodup) {b : β}
    (hb : b ∈ l) (s : σ) : view (l.foldl f s) (key b) = g (view s (key b)) b := by
  induction l generalizing s with
  | nil => cases hb
  | cons c l ih =>
    simp only [List.map_cons, List.nodup_cons] at hl
    rw [List.foldl_cons]
    rcases List.mem_cons.mp hb with rfl | hb
    · rw [h.foldl_of_not_mem hl.1, h.self]
    · have hne : key b ≠ key c := fun e => hl.1 (e ▸ List.mem_map_of_mem hb)
      rw [ih hl.2 hb, h.other s c _ hne]

end Local

theorem foldl_keeps (g : σ → τ) {f : σ → β → σ} (h : ∀ s b, g (f s b) = g s) (l : List β)
    (s : σ) : g (l.foldl f s) = g s := by
  induction l generalizing s with
  | nil => rfl
  | cons b l ih => rw [List.foldl_cons, ih, h]

/-! ### Maps and sets of numbers -/

theorem get_insertIfNew (m : ExtTreeMap Nat α) (k j : Nat) (v : α) :
    (m.insertIfNew k v)[j]? = if j = k then m[j]? <|> some v else m[j]? := by
  rw [ExtTreeMap.getElem?_insertIfNew]
  by_cases hj : j = k
  · subst hj
    cases hm : m[j]? with
    | none => simp [ExtTreeMap.mem_iff_isSome_getElem?, hm]
    | some w => simp [ExtTreeMap.mem_iff_isSome_getElem?, hm]
  · have hj' : ¬ k = j := fun e => hj e.symm
    simp [hj, hj']

theorem get_insert (m : ExtTreeMap Nat α) (k j : Nat) (v : α) :
    (m.insert k v)[j]? = if j = k then some v else m[j]? := by
  rw [ExtTreeMap.getElem?_insert]
  simp only [Std.compare_eq_iff_eq, @eq_comm _ k j]

theorem get_erase (m : ExtTreeMap Nat α) (k j : Nat) :
    (m.erase k)[j]? = if j = k then none else m[j]? := by
  rw [ExtTreeMap.getElem?_erase]
  simp only [Std.compare_eq_iff_eq, @eq_comm _ k j]

theorem nodup_keys_toList (m : ExtTreeMap Nat α) : (m.toList.map Prod.fst).Nodup := by
  rw [List.Nodup, List.pairwise_map]
  refine m.distinct_keys_toList.imp ?_
  intro a b hab
  simpa using hab

theorem nodup_toList (m : ExtTreeSet Nat) : (m.toList.map id).Nodup := by
  rw [List.map_id]
  refine m.distinct_toList.imp ?_
  intro a b hab
  simpa using hab

theorem sorted_keys_toList (m : ExtTreeMap Nat α) : m.toList.Pairwise fun a b => a.1 < b.1 := by
  refine m.ordered_keys_toList.imp ?_
  intro a b hab
  simpa [Nat.compare_eq_lt] using hab

theorem not_mem_keys_toList {m : ExtTreeMap Nat α} {k : Nat} (h : m[k]? = none) :
    k ∉ m.toList.map Prod.fst := by
  intro hk
  obtain ⟨p, hp, rfl⟩ := List.mem_map.mp hk
  rw [ExtTreeMap.mem_toList_iff_getElem?_eq_some.mp hp] at h
  cases h

theorem Local.foldl_toList {view : σ → Nat → τ} {f : σ → Nat × α → σ} {g : τ → Nat × α → τ}
    (h : Local Prod.fst view f g) (m : ExtTreeMap Nat α) (s : σ) (k : Nat) :
    view (m.toList.foldl f s) k =
      match m[k]? with
      | none => view s k
      | some v => g (view s k) (k, v) := by
  cases hk : m[k]? with
  | none => exact h.foldl_of_not_mem (not_mem_keys_toList hk) s
  | some v =>
    have hmem : (k, v) ∈ m.toList := ExtTreeMap.mem_toList_iff_getElem?_eq_some.mpr hk
    exact h.foldl_of_mem (nodup_keys_toList m) hmem s

theorem Local.foldl_toSet {view : σ → Nat → τ} {f : σ → Nat → σ} {g : τ → Nat → τ}
    (h : Local id view f g) (m : ExtTreeSet Nat) (s : σ) (k : Nat) :
    view (m.toList.foldl f s) k = if k ∈ m then g (view s k) k else view s k := by
  split
  · next hk => exact h.foldl_of_mem (nodup_toList m) (ExtTreeSet.mem_toList.mpr hk) s
  · next hk =>
    refine h.foldl_of_not_mem ?_ s
    rw [List.map_id]
    exact fun hm => hk (ExtTreeSet.mem_toList.mp hm)

end WeNode.Lib

import Mathlib.Algebra.BigOperators.Group.List.Basic
import Mathlib.Data.List.Nodup
import Mathlib.Tactic.Abel

/-!
# Rows under a unique key

A list of rows as a map: the row of a key is looked up, changed, made where there is none, and taken
away.  Where no two rows have one key, a change touches one row, and sums over the rows follow it.
-/

namespace WeNode.Lib

variable {α κ : Type} [DecidableEq κ]

def lookup (key : α → κ) (l : List α) (k : κ) : Option α := l.find? fun a => decide (key a = k)

def change (key : α → κ) (k : κ) (f : α → α) (l : List α) : List α :=
  l.map fun a => if key a = k then f a else a

/- The row of the key is changed; where there is none, it is made. -/
def upsert (key : α → κ) (k : κ) (n : α) (f : α → α) (l : List α) : List α :=
  if (lookup key l k).isSome then change key k f l else l ++ [n]

def without (key : α → κ) (k : κ) (l : List α) : List α := l.filter fun a => !decide (key a = k)

variable {key : α → κ} {k k' : κ} {l : List α} {a n : α} {f : α → α}

/-! ### Lookups -/

theorem lookup_some (h : lookup key l k = some a) : a ∈ l ∧ key a = k :=
  ⟨List.mem_of_find?_eq_some h, by simpa using List.find?_some h⟩

theorem lookup_none : lookup key l k = none ↔ k ∉ l.map key := by
  simp [lookup, List.find?_eq_none]

theorem lookup_of_mem (hn : (l.map key).Nodup) (ha : a ∈ l) : lookup key l (key a) = some a := by
  cases h : lookup key l (key a) with
  | none => exact absurd (List.mem_map_of_mem ha) (lookup_none.1 h)
  | some b =>
    obtain ⟨hb, hkey⟩ := lookup_some h
    rw [List.inj_on_of_nodup_map hn hb ha hkey]

theorem lookup_append_new (hk : lookup key l k = none) (hnew : key n = k) :
    lookup key (l ++ [n]) k' = if k' = k then some n else lookup key l k' := by
  unfold lookup at hk ⊢
  rw [List.find?_append]
  by_cases h : k' = k
  · subst h
    rw [hk, if_pos rfl]
    simp [hnew]
  · have hne : ¬ key n = k' := fun he => h (he.symm.trans hnew)
    rw [if_neg h]
    simp [hne]

theorem map_key_change (hf : ∀ b, key (f b) = key b) :
    (change key k f l).map key = l.map key := by
  unfold change
  rw [List.map_map]
  refine List.map_congr_left fun b _ => ?_
  by_cases hb : key b = k
  · simp [hb, hf]
  · simp [hb]

/- A change of what was changed before. -/
theorem change_change {g : α → α} (hg : ∀ b, key (g b) = key b) :
    change key k f (change key k g l) = change key k (fun b => f (g b)) l := by
  unfold change
  rw [List.map_map]
  refine List.map_congr_left fun b _ => ?_
  by_cases hb : key b = k <;> simp [hb, hg]

theorem lookup_change (hf : ∀ b, key (f b) = key b) :
    lookup key (change key k f l) k' =
      if k' = k then (lookup key l k).map f else lookup key l k' := by
  induction l with
  | nil => by_cases h : k' = k <;> simp [lookup, change, h]
  | cons b l ih =>
    unfold lookup change at ih ⊢
    rw [List.map_cons]
    by_cases hb : key b = k
    · by_cases h : k' = k
      · subst h
        simp [hb, hf]
      · have hne : ¬ key b = k' := fun he => h (he.symm.trans hb)
        rw [if_neg h] at ih ⊢
        rw [if_pos hb, List.find?_cons_of_neg (by simpa [hf] using hne),
          List.find?_cons_of_neg (by simpa using hne), ih]
    · rw [if_neg hb]
      by_cases h : k' = k
      · subst h
        rw [if_pos rfl] at ih ⊢
        rw [List.find?_cons_of_neg (by simpa using hb), List.find?_cons_of_neg (by simpa using hb),
          ih]
      · rw [if_neg h] at ih ⊢
        by_cases hb' : key b = k'
        · rw [List.find?_cons_of_pos (by simpa using hb'),
            List.find?_cons_of_pos (by simpa using hb')]
        · rw [List.find?_cons_of_neg (by simpa using hb'),
            List.find?_cons_of_neg (by simpa using hb'), ih]

theorem upsert_none (h : lookup key l k = none) : upsert key k n f l = l ++ [n] := by
  unfold upsert
  rw [h]
  exact if_neg Bool.false_ne_true

theorem upsert_some (h : lookup key l k = some a) : upsert key k n f l = change key k f l := by
  unfold upsert
  rw [h]
  exact if_pos Option.isSome_some

theorem lookup_upsert (hnew : key n = k) (hf : ∀ b, key (f b) = key b) :
    lookup key (upsert key k n f l) k' =
      if k' = k then some ((lookup key l k).elim n f) else lookup key l k' := by
  cases h : lookup key l k with
  | none =>
    rw [upsert_none h]
    exact lookup_append_new h hnew
  | some b =>
    rw [upsert_some h, lookup_change hf, h]
    rfl

theorem nodup_upsert (hnew : key n = k) (hf : ∀ b, key (f b) = key b)
    (hn : (l.map key).Nodup) : ((upsert key k n f l).map key).Nodup := by
  unfold upsert
  split
  · rwa [map_key_change hf]
  · next h =>
    have hk := lookup_none.1 (Option.not_isSome_iff_eq_none.1 h)
    rw [List.map_append, List.map_singleton, hnew]
    exact List.Nodup.append hn (List.nodup_singleton k) (List.disjoint_singleton.2 hk)

theorem isSome_upsert (hnew : key n = k) (hf : ∀ b, key (f b) = key b) :
    (lookup key (upsert key k n f l) k').isSome ↔ k' = k ∨ (lookup key l k').isSome := by
  rw [lookup_upsert hnew hf]
  by_cases h : k' = k <;> simp [h]

theorem mem_upsert (h : a ∈ upsert key k n f l) :
    a ∈ l ∨ a = n ∨ ∃ b ∈ l, key b = k ∧ a = f b := by
  unfold upsert at h
  split at h
  · obtain ⟨b, hb, rfl⟩ := List.mem_map.1 h
    split
    · next hk => exact Or.inr (Or.inr ⟨b, hb, hk, rfl⟩)
    · exact Or.inl hb
  · rcases List.mem_append.1 h with h | h
    · exact Or.inl h
    · exact Or.inr (Or.inl (List.mem_singleton.1 h))

theorem lookup_without :
    lookup key (without key k l) k' = if k' = k then none else lookup key l k' := by
  by_cases h : k' = k
  · subst h
    rw [if_pos rfl, lookup_none]
    intro hmem
    obtain ⟨b, hb, heq⟩ := List.mem_map.1 hmem
    have hne := (List.mem_filter.1 hb).2
    simp [heq] at hne
  · rw [if_neg h]
    unfold lookup without
    rw [List.find?_filter]
    refine congrArg (fun p => l.find? p) (funext fun b => ?_)
    by_cases hb : key b = k'
    · simp [hb, h]
    · simp [hb]

theorem nodup_without (hn : (l.map key).Nodup) : ((without key k l).map key).Nodup :=
  hn.sublist (List.filter_sublist.map key)

/-! ### Sums over the rows -/

/-- The row of a unique key stands between rows of other keys. -/
theorem lookup_split (hn : (l.map key).Nodup) (ha : lookup key l k = some a) :
    ∃ pre post, l = pre ++ a :: post ∧ (∀ b ∈ pre, key b ≠ k) ∧ ∀ b ∈ post, key b ≠ k := by
  obtain ⟨hmem, hkey⟩ := lookup_some ha
  obtain ⟨pre, post, rfl⟩ := List.append_of_mem hmem
  rw [List.map_append, List.map_cons, List.nodup_middle, List.nodup_cons, List.mem_append] at hn
  refine ⟨pre, post, rfl, ?_, ?_⟩
  · intro b hb he
    exact hn.1 (Or.inl (hkey.trans he.symm ▸ List.mem_map_of_mem hb))
  · intro b hb he
    exact hn.1 (Or.inr (hkey.trans he.symm ▸ List.mem_map_of_mem hb))

theorem change_of_ne (h : ∀ b ∈ l, key b ≠ k) : change key k f l = l := by
  have hsame : ∀ b ∈ l, (if key b = k then f b else b) = id b := fun b hb => if_neg (h b hb)
  exact (List.map_congr_left hsame).trans (List.map_id l)

theorem without_of_ne (h : ∀ b ∈ l, key b ≠ k) : without key k l = l := by
  unfold without
  rw [List.filter_eq_self]
  intro b hb
  simpa using h b hb

theorem change_split (hn : (l.map key).Nodup) (ha : lookup key l k = some a) :
    ∃ pre post, l = pre ++ a :: post ∧ change key k f l = pre ++ f a :: post := by
  obtain ⟨pre, post, rfl, hpre, hpost⟩ := lookup_split hn ha
  refine ⟨pre, post, rfl, ?_⟩
  have hsplit : change key k f (pre ++ a :: post) =
      change key k f pre ++ (if key a = k then f a else a) :: change key k f post := by
    simp [change]
  rw [hsplit, change_of_ne hpre, change_of_ne hpost, if_pos (lookup_some ha).2]

theorem without_split (hn : (l.map key).Nodup) (ha : lookup key l k = some a) :
    ∃ pre post, l = pre ++ a :: post ∧ without key k l = pre ++ post := by
  obtain ⟨pre, post, rfl, hpre, hpost⟩ := lookup_split hn ha
  refine ⟨pre, post, rfl, ?_⟩
  have hsplit : without key k (pre ++ a :: post) = without key k pre ++ without key k post := by
    simp [without, (lookup_some ha).2]
  rw [hsplit, without_of_ne hpre, without_of_ne hpost]

section Sums

variable {M : Type} [AddCommMonoid M] {g : α → M}

theorem sum_change (hn : (l.map key).Nodup) (ha : lookup key l k = some a) :
    ((change key k f l).map g).sum + g a = (l.map g).sum + g (f a) := by
  obtain ⟨pre, post, hl, hchange⟩ := change_split (f := f) hn ha
  rw [hchange, hl]
  simp only [List.map_append, List.map_cons, List.sum_append, List.sum_cons]
  abel

theorem sum_without (hn : (l.map key).Nodup) (ha : lookup key l k = some a) :
    ((without key k l).map g).sum + g a = (l.map g).sum := by
  obtain ⟨pre, post, hl, hwithout⟩ := without_split hn ha
  rw [hwithout, hl]
  simp only [List.map_append, List.map_cons, List.sum_append, List.sum_cons]
  abel

end Sums

/-! ### Numbers of rows -/

section Counts

variable {p : α → Bool}

theorem countP_change (hn : (l.map key).Nodup) (ha : lookup key l k = some a) :
    (change key k f l).countP p + (if p a then 1 else 0) =
      l.countP p + (if p (f a) then 1 else 0) := by
  obtain ⟨pre, post, hl, hchange⟩ := change_split (f := f) hn ha
  rw [hchange, hl]
  simp only [List.countP_append, List.countP_cons]
  omega

theorem countP_upsert (hn : (l.map key).Nodup) :
    (upsert key k n f l).countP p + (lookup key l k).elim 0 (fun a => if p a then 1 else 0) =
      l.countP p + (if p ((lookup key l k).elim n f) then 1 else 0) := by
  cases h : lookup key l k with
  | none =>
    rw [upsert_none h, List.countP_append, List.countP_singleton]
    rfl
  | some a =>
    rw [upsert_some h]
    exact countP_change hn h

omit [DecidableEq κ] in
theorem sum_boole {M : Type} [AddCommMonoidWithOne M] (q : α → Prop) [DecidablePred q] :
    (l.map fun a => if q a then (1 : M) else 0).sum = (l.countP fun a => decide (q a) : M) := by
  rw [List.sum_map_ite, List.map_const', List.map_const', List.sum_replicate, List.sum_replicate,
    nsmul_zero, add_zero, nsmul_one, List.countP_eq_length_filter]

end Counts

end WeNode.Lib

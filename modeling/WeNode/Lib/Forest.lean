import Mathlib.Data.List.Nodup
import Mathlib.Logic.Relation

/-!
# Forests kept as lists

A node names the one above it by a key.  In a forest the keys are distinct and the node named is
there, one level higher.  What is above a node is a list of keys, read off level by level; the
descendants of a node are the nodes that have its key above them.
-/

namespace WeNode.Lib

/- How nodes are keyed, named and ranked. -/
structure Shape (α κ : Type) where
  key : α → κ
  up : α → Option κ
  depth : α → Nat

namespace Shape

variable {α κ : Type} (S : Shape α κ)

structure Forest (l : List α) : Prop where
  keys : (l.map S.key).Nodup
  grounded : ∀ a ∈ l, ∀ k, S.up a = some k → ∃ p ∈ l, S.key p = k ∧ S.depth a = S.depth p + 1

/- `b` is right above `a`. -/
def Under (l : List α) (a b : α) : Prop := a ∈ l ∧ b ∈ l ∧ S.up a = some (S.key b)

variable {S} {l l' l₁ l₂ : List α} {a b p : α}

namespace Forest

theorem eq_of_key (h : S.Forest l) (ha : a ∈ l) (hb : b ∈ l) (hk : S.key a = S.key b) : a = b :=
  List.inj_on_of_nodup_map h.keys ha hb hk

/-- From the roots down: what holds of them, and of a node when it holds of the one above. -/
theorem induction (h : S.Forest l) {motive : ∀ a, a ∈ l → Prop}
    (root : ∀ a ha, S.up a = none → motive a ha)
    (under : ∀ a ha p hp, S.up a = some (S.key p) → S.depth a = S.depth p + 1 →
      motive p hp → motive a ha) (a : α) (ha : a ∈ l) : motive a ha := by
  have hall : ∀ n a ha, S.depth a = n → motive a ha := by
    intro n
    induction n using Nat.strongRecOn with
    | _ n ih =>
      intro a ha hn
      cases hup : S.up a with
      | none => exact root a ha hup
      | some k =>
        obtain ⟨p, hp, rfl, hdepth⟩ := h.grounded a ha k hup
        exact under a ha p hp hup hdepth (ih _ (by omega) p hp rfl)
  exact hall _ a ha rfl

/-! ### Growing and pruning -/

theorem insert (h : S.Forest (l₁ ++ l₂)) (hnew : ∀ b ∈ l₁ ++ l₂, S.key b ≠ S.key a)
    (hup : ∀ k, S.up a = some k → ∃ p ∈ l₁ ++ l₂, S.key p = k ∧ S.depth a = S.depth p + 1) :
    S.Forest (l₁ ++ a :: l₂) := by
  have hperm : (l₁ ++ a :: l₂).Perm (a :: (l₁ ++ l₂)) := List.perm_middle
  constructor
  · refine ((hperm.map S.key).nodup_iff).2 (List.nodup_cons.2 ⟨?_, h.keys⟩)
    intro hk
    obtain ⟨b, hb, hkey⟩ := List.mem_map.1 hk
    exact hnew b hb hkey
  · intro b hb k hk
    have hfound : ∃ p ∈ l₁ ++ l₂, S.key p = k ∧ S.depth b = S.depth p + 1 := by
      rcases List.mem_cons.1 (hperm.mem_iff.1 hb) with rfl | hb
      · exact hup k hk
      · exact h.grounded b hb k hk
    obtain ⟨p, hp, hkp⟩ := hfound
    exact ⟨p, hperm.mem_iff.2 (List.mem_cons_of_mem _ hp), hkp⟩

theorem prune (h : S.Forest (l₁ ++ a :: l₂)) (hleaf : ∀ b ∈ l₁ ++ a :: l₂, S.up b ≠ some (S.key a)) :
    S.Forest (l₁ ++ l₂) := by
  have hperm : (l₁ ++ a :: l₂).Perm (a :: (l₁ ++ l₂)) := List.perm_middle
  constructor
  · exact (List.nodup_cons.1 ((hperm.map S.key).nodup_iff.1 h.keys)).2
  · intro b hb k hk
    have hb' := hperm.mem_iff.2 (List.mem_cons_of_mem _ hb)
    obtain ⟨p, hp, rfl, hdepth⟩ := h.grounded b hb' k hk
    rcases List.mem_cons.1 (hperm.mem_iff.1 hp) with rfl | hp
    · exact absurd hk (hleaf b hb')
    · exact ⟨p, hp, rfl, hdepth⟩

end Forest

/-! ### The way up -/

variable [DecidableEq κ] (S)

/- The keys met on the way up from `k`, through `n` levels. -/
def path (l : List α) : Nat → Option κ → List κ
  | 0, _ => []
  | _ + 1, none => []
  | n + 1, some k => k :: path l n ((l.find? fun p => S.key p = k).bind S.up)

def ancestors (l : List α) (a : α) : List κ := S.path l (S.depth a) (S.up a)

/- How many nodes lie below `k`. -/
def descendants (l : List α) (k : κ) : Nat := l.countP fun a => k ∈ S.ancestors l a

variable {S}

theorem ancestors_root (h : S.up a = none) : S.ancestors l a = [] := by
  unfold ancestors
  rw [h]
  cases S.depth a <;> rfl

namespace Forest

theorem find_key (h : S.Forest l) (hp : p ∈ l) :
    (l.find? fun q => S.key q = S.key p) = some p := by
  cases hf : l.find? fun q => S.key q = S.key p with
  | none =>
    have hnone := List.find?_eq_none.1 hf p hp
    simp at hnone
  | some q =>
    have hkey := List.find?_some hf
    rw [h.eq_of_key (List.mem_of_find?_eq_some hf) hp (by simpa using hkey)]

/-- What is above a node that names `p`: `p` and what is above it. -/
theorem ancestors_under (h : S.Forest l) (hp : p ∈ l) (hup : S.up a = some (S.key p))
    (hdepth : S.depth a = S.depth p + 1) :
    S.ancestors l a = S.key p :: S.ancestors l p := by
  unfold ancestors
  rw [hup, hdepth]
  show S.key p :: S.path l (S.depth p) _ = _
  rw [h.find_key hp]
  rfl

theorem mem_ancestors (h : S.Forest l) (ha : a ∈ l) {k : κ} (hk : k ∈ S.ancestors l a) :
    ∃ p ∈ l, S.key p = k ∧ S.depth p < S.depth a := by
  induction a, ha using h.induction with
  | root a ha hup =>
    rw [ancestors_root hup] at hk
    cases hk
  | under a ha p hp hup hdepth ih =>
    rw [h.ancestors_under hp hup hdepth] at hk
    cases hk with
    | head => exact ⟨p, hp, rfl, by omega⟩
    | tail _ hk =>
      obtain ⟨q, hq, hkey, hlt⟩ := ih hk
      exact ⟨q, hq, hkey, by omega⟩

theorem key_notMem_ancestors (h : S.Forest l) (ha : a ∈ l) : S.key a ∉ S.ancestors l a := by
  intro hk
  obtain ⟨p, hp, hkey, hlt⟩ := h.mem_ancestors ha hk
  rw [h.eq_of_key hp ha hkey] at hlt
  omega

/-- The keys above a node are those of the nodes above it, step by step. -/
theorem mem_ancestors_iff (h : S.Forest l) (ha : a ∈ l) (hb : b ∈ l) :
    S.key b ∈ S.ancestors l a ↔ Relation.TransGen (S.Under l) a b := by
  induction a, ha using h.induction with
  | root a ha hup =>
    rw [ancestors_root hup]
    refine ⟨nofun, fun hab => ?_⟩
    obtain ⟨c, ⟨-, -, hc⟩, -⟩ := Relation.TransGen.head'_iff.1 hab
    rw [hup] at hc
    cases hc
  | under a ha p hp hup hdepth ih =>
    have hstep : S.Under l a p := ⟨ha, hp, hup⟩
    rw [h.ancestors_under hp hup hdepth, List.mem_cons]
    constructor
    · rintro (hkey | hk)
      · rw [h.eq_of_key hb hp hkey]
        exact .single hstep
      · exact .head hstep (ih.1 hk)
    · intro hab
      obtain ⟨c, ⟨-, hc, hca⟩, hcb⟩ := Relation.TransGen.head'_iff.1 hab
      have hcp : c = p := h.eq_of_key hc hp (by rw [hup] at hca; simpa using hca.symm)
      rw [hcp] at hcb
      rcases Relation.reflTransGen_iff_eq_or_transGen.1 hcb with rfl | hpb
      · exact .inl rfl
      · exact .inr (ih.2 hpb)

/-- A node without descendants is named by none. -/
theorem leaf (h : S.Forest l) (ha : a ∈ l) (hd : S.descendants l (S.key a) = 0) :
    ∀ b ∈ l, S.up b ≠ some (S.key a) := by
  intro b hb hup
  have hb' : S.key a ∈ S.ancestors l b := (h.mem_ancestors_iff hb ha).2 (.single ⟨hb, ha, hup⟩)
  have hnone := List.countP_eq_zero.1 hd b hb
  simp [hb'] at hnone

theorem descendants_absent (h : S.Forest l) {k : κ} (hk : ∀ a ∈ l, S.key a ≠ k) :
    S.descendants l k = 0 := by
  refine List.countP_eq_zero.2 fun a ha hka => ?_
  obtain ⟨p, hp, hkey, -⟩ := h.mem_ancestors ha (of_decide_eq_true hka)
  exact hk p hp hkey

/-- The way up from a node is the same in a larger forest. -/
theorem ancestors_subset (h : S.Forest l) (h' : S.Forest l') (hsub : l ⊆ l') (ha : a ∈ l) :
    S.ancestors l' a = S.ancestors l a := by
  induction a, ha using h.induction with
  | root a ha hup => rw [ancestors_root hup, ancestors_root hup]
  | under a ha p hp hup hdepth ih =>
    rw [h.ancestors_under hp hup hdepth, h'.ancestors_under (hsub hp) hup hdepth, ih]

/-- One more leaf counts once below everything above it. -/
theorem descendants_insert (h : S.Forest (l₁ ++ l₂)) (h' : S.Forest (l₁ ++ a :: l₂)) (k : κ) :
    S.descendants (l₁ ++ a :: l₂) k = S.descendants (l₁ ++ l₂) k +
      if k ∈ S.ancestors (l₁ ++ a :: l₂) a then 1 else 0 := by
  have hperm : (l₁ ++ a :: l₂).Perm (a :: (l₁ ++ l₂)) := List.perm_middle
  have hsame : (l₁ ++ l₂).countP (fun b => k ∈ S.ancestors (l₁ ++ a :: l₂) b) =
      (l₁ ++ l₂).countP (fun b => k ∈ S.ancestors (l₁ ++ l₂) b) := by
    refine List.countP_congr fun b hb => ?_
    rw [h.ancestors_subset h' (fun c hc => hperm.mem_iff.2 (List.mem_cons_of_mem _ hc)) hb]
  unfold descendants
  rw [hperm.countP_eq, List.countP_cons, hsame]
  simp

end Forest

/-! ### Nodes seen through a map -/

section map

variable {β : Type} {T : Shape β κ} {f : α → β}

theorem path_map (hkey : ∀ a, T.key (f a) = S.key a) (hup : ∀ a, T.up (f a) = S.up a) (n : Nat)
    (k : Option κ) : T.path (l.map f) n k = S.path l n k := by
  induction n generalizing k with
  | zero => rfl
  | succ n ih =>
    cases k with
    | none => rfl
    | some k =>
      have hfind : ((l.map f).find? fun p => T.key p = k).bind T.up =
          (l.find? fun p => S.key p = k).bind S.up := by
        rw [List.find?_map]
        cases hf : l.find? fun p => S.key p = k <;> simp [Function.comp_def, hkey, hup, hf]
      show k :: T.path (l.map f) n _ = k :: S.path l n _
      rw [hfind, ih]

theorem ancestors_map (hkey : ∀ a, T.key (f a) = S.key a) (hup : ∀ a, T.up (f a) = S.up a)
    (hdepth : ∀ a, T.depth (f a) = S.depth a) (a : α) :
    T.ancestors (l.map f) (f a) = S.ancestors l a := by
  unfold ancestors
  rw [path_map hkey hup, hup, hdepth]

theorem descendants_map (hkey : ∀ a, T.key (f a) = S.key a) (hup : ∀ a, T.up (f a) = S.up a)
    (hdepth : ∀ a, T.depth (f a) = S.depth a) (k : κ) :
    T.descendants (l.map f) k = S.descendants l k := by
  unfold descendants
  rw [List.countP_map]
  refine List.countP_congr fun a _ => ?_
  simp [ancestors_map hkey hup hdepth]

end map

namespace Forest

variable {β : Type} {T : Shape β κ} {f : α → β}

omit [DecidableEq κ] in
theorem of_map (hkey : ∀ a, T.key (f a) = S.key a) (hup : ∀ a, T.up (f a) = S.up a)
    (hdepth : ∀ a, T.depth (f a) = S.depth a) (h : T.Forest (l.map f)) : S.Forest l where
  keys := by
    have hkeys := h.keys
    rw [List.map_map] at hkeys
    rwa [show T.key ∘ f = S.key from funext hkey] at hkeys
  grounded a ha k hk := by
    obtain ⟨q, hq, hqk, hd⟩ := h.grounded (f a) (List.mem_map_of_mem ha) k (by rwa [hup])
    obtain ⟨p, hp, rfl⟩ := List.mem_map.1 hq
    exact ⟨p, hp, by rwa [hkey] at hqk, by rwa [hdepth, hdepth] at hd⟩

end Forest

/-! ### Counters -/

/- The counters of the keys `ks`, moved by `g`. -/
def bump (g : Nat → Nat) (ks : List κ) (c : κ × Nat) : κ × Nat :=
  if c.1 ∈ ks then (c.1, g c.2) else c

@[simp] theorem bump_key (g : Nat → Nat) (ks : List κ) (c : κ × Nat) : (bump g ks c).1 = c.1 := by
  unfold bump
  split <;> rfl

@[simp] theorem bump_nil (g : Nat → Nat) : (bump g [] : κ × Nat → κ × Nat) = id := by
  funext c
  simp [bump]

theorem bump_bump (g : Nat → Nat) {k : κ} {ks : List κ} (hk : k ∉ ks) (c : κ × Nat) :
    bump g ks (bump g [k] c) = bump g (k :: ks) c := by
  unfold bump
  by_cases hc : c.1 = k
  · simp [hc, hk]
  · simp [hc]

end Shape

end WeNode.Lib

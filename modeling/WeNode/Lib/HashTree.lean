import Mathlib.Data.Set.Operations

/-!
# Hash trees

Trees built over a list level by level: neighbours are paired from the left, an odd last one goes up
as it is.  With an injective pair hash, under which no leaf is the hash of a pair, the hash of the
root determines the tree, so also the list of its leaves, whatever the lengths.
-/

namespace WeNode.Lib

inductive HashTree (α : Type) where
  | leaf (a : α)
  | node (left right : HashTree α)

namespace HashTree

variable {α : Type}

def leaves : HashTree α → List α
  | leaf a => [a]
  | node l r => l.leaves ++ r.leaves

/- The hash of the root. -/
def hash (pair : α × α → α) : HashTree α → α
  | leaf a => a
  | node l r => pair (l.hash pair, r.hash pair)

/- One level up. -/
def pairUp : List (HashTree α) → List (HashTree α)
  | l :: r :: rest => node l r :: pairUp rest
  | rest => rest

theorem pairUp_length (ts : List (HashTree α)) : (pairUp ts).length = (ts.length + 1) / 2 := by
  induction ts using pairUp.induct with
  | case1 l r rest ih =>
    simp only [pairUp, List.length_cons, ih]
    omega
  | case2 rest h =>
    cases rest with
    | nil => simp [pairUp]
    | cons a rest =>
      cases rest with
      | nil => simp [pairUp]
      | cons b rest => exact absurd rfl (h a b rest)

/- The tree over a list with the first element `t`. -/
def build (t : HashTree α) : List (HashTree α) → HashTree α
  | [] => t
  | r :: rest => build (node t r) (pairUp rest)
termination_by ts => ts.length
decreasing_by
  have := pairUp_length rest
  simp only [List.length_cons]
  omega

theorem build_cons (t r : HashTree α) (rest : List (HashTree α)) :
    build t (r :: rest) = build (node t r) (pairUp rest) := by
  rw [build]

theorem leaves_pairUp (ts : List (HashTree α)) :
    (pairUp ts).flatMap leaves = ts.flatMap leaves := by
  induction ts using pairUp.induct with
  | case1 l r rest ih =>
    simp only [pairUp, List.flatMap_cons, leaves, ih, List.append_assoc]
  | case2 rest h =>
    rw [pairUp]
    exact h

theorem leaves_build (t : HashTree α) (ts : List (HashTree α)) :
    (build t ts).leaves = t.leaves ++ ts.flatMap leaves := by
  induction t, ts using build.induct with
  | case1 t => simp [build]
  | case2 t r rest ih =>
    rw [build_cons, ih, leaves_pairUp]
    simp only [leaves, List.flatMap_cons, List.append_assoc]

/- The tree over the leaves `a :: as`. -/
def ofLeaves (a : α) (as : List α) : HashTree α := build (leaf a) (as.map leaf)

theorem leaves_ofLeaves (a : α) (as : List α) : (ofLeaves a as).leaves = a :: as := by
  have hleaves : (as.map leaf).flatMap leaves = as := by
    rw [List.flatMap_map]
    exact List.flatMap_singleton' as
  rw [ofLeaves, leaves_build, hleaves]
  rfl

/-! ### The hashes of a level -/

variable (pair : α × α → α)

def pairHashes : List α → List α
  | a :: b :: rest => pair (a, b) :: pairHashes rest
  | rest => rest

theorem map_hash_pairUp (ts : List (HashTree α)) :
    (pairUp ts).map (hash pair) = pairHashes pair (ts.map (hash pair)) := by
  induction ts using pairUp.induct with
  | case1 l r rest ih => simp only [pairUp, List.map_cons, hash, ih, pairHashes]
  | case2 rest h =>
    rw [pairUp]
    · cases rest with
      | nil => rfl
      | cons a rest =>
        cases rest with
        | nil => rfl
        | cons b rest => exact absurd rfl (h a b rest)
    · exact h

theorem pairHashes_append {as : List α} (bs : List α) (heven : as.length % 2 = 0) :
    pairHashes pair (as ++ bs) = pairHashes pair as ++ pairHashes pair bs := by
  induction as using pairHashes.induct with
  | case1 a b rest ih =>
    simp only [List.length_cons] at heven
    simp only [List.cons_append, pairHashes, ih (by omega)]
  | case2 rest h =>
    cases rest with
    | nil => rfl
    | cons a rest =>
      cases rest with
      | nil => simp at heven
      | cons b rest => exact absurd rfl (h a b rest)

/-! ### Binding -/

variable {pair}

/-- Without collisions, and with no leaf the hash of a pair, the root's hash determines the tree. -/
theorem hash_inj (hpair : Function.Injective pair) {t u : HashTree α}
    (ht : ∀ a ∈ t.leaves, a ∉ Set.range pair) (hu : ∀ a ∈ u.leaves, a ∉ Set.range pair)
    (h : t.hash pair = u.hash pair) : t = u := by
  induction t generalizing u with
  | leaf a =>
    cases u with
    | leaf b =>
      have hab : a = b := h
      rw [hab]
    | node l r => exact absurd ⟨_, h.symm⟩ (ht a (List.mem_singleton.2 rfl))
  | node l r ihl ihr =>
    cases u with
    | leaf b => exact absurd ⟨_, h⟩ (hu b (List.mem_singleton.2 rfl))
    | node l' r' =>
      have hsame := Prod.mk.inj (hpair h)
      have hleft : l = l' := ihl (fun a ha => ht a (List.mem_append_left _ ha))
        (fun a ha => hu a (List.mem_append_left _ ha)) hsame.1
      have hright : r = r' := ihr (fun a ha => ht a (List.mem_append_right _ ha))
        (fun a ha => hu a (List.mem_append_right _ ha)) hsame.2
      rw [hleft, hright]

/-- Two lists of leaves with the same root are the same list. -/
theorem ofLeaves_inj (hpair : Function.Injective pair) {a b : α} {as bs : List α}
    (ha : ∀ x ∈ a :: as, x ∉ Set.range pair) (hb : ∀ x ∈ b :: bs, x ∉ Set.range pair)
    (h : (ofLeaves a as).hash pair = (ofLeaves b bs).hash pair) : a :: as = b :: bs := by
  have htree : ofLeaves a as = ofLeaves b bs := by
    apply hash_inj hpair _ _ h
    · rwa [leaves_ofLeaves]
    · rwa [leaves_ofLeaves]
  rw [← leaves_ofLeaves a as, htree, leaves_ofLeaves]

end HashTree

end WeNode.Lib

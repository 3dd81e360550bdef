import Mathlib.Data.List.Basic
import Mathlib.Data.List.Nodup
import Mathlib.Order.Lattice

/-!
# Flat maps

A map kept as a list of entries with ascending keys.  An entry under a key that is there already is
not inserted.  Positions stand for iterators, the length of the list for the end.
-/

namespace WeNode.Lib

structure FlatMap (κ β : Type) [LinearOrder κ] where
  entries : List (κ × β) := []
  ascending : entries.Pairwise fun x y => x.1 < y.1 := by exact .nil

namespace FlatMap

variable {κ β : Type} [LinearOrder κ]

def insertEntry (x : κ × β) : List (κ × β) → List (κ × β)
  | [] => [x]
  | y :: l => if x.1 < y.1 then x :: y :: l else if x.1 = y.1 then y :: l else y :: insertEntry x l

variable {x y : κ × β} {k : κ} {l pre post : List (κ × β)}

theorem insertEntry_cons : insertEntry x (y :: l) =
    if x.1 < y.1 then x :: y :: l else if x.1 = y.1 then y :: l else y :: insertEntry x l := rfl

theorem mem_of_insertEntry (h : y ∈ insertEntry x l) : y = x ∨ y ∈ l := by
  induction l with
  | nil => exact Or.inl (List.mem_singleton.1 h)
  | cons z l ih =>
    rw [insertEntry_cons] at h
    split at h
    · exact List.mem_cons.1 h
    · split at h
      · exact Or.inr h
      · rcases List.mem_cons.1 h with rfl | h
        · exact Or.inr (List.mem_cons_self ..)
        · exact (ih h).imp_right (List.mem_cons_of_mem z)

theorem mem_insertEntry (h : y ∈ l) : y ∈ insertEntry x l := by
  induction l with
  | nil => cases h
  | cons z l ih =>
    rw [insertEntry_cons]
    split
    · exact List.mem_cons_of_mem x h
    · split
      · exact h
      · rcases List.mem_cons.1 h with rfl | h
        · exact List.mem_cons_self ..
        · exact List.mem_cons_of_mem z (ih h)

/- Either the entry is there, or its key was. -/
theorem key_insertEntry : x ∈ insertEntry x l ∨ ∃ y ∈ l, y.1 = x.1 := by
  induction l with
  | nil => exact Or.inl (List.mem_singleton_self x)
  | cons z l ih =>
    rw [insertEntry_cons]
    split
    · exact Or.inl (List.mem_cons_self ..)
    · split
      · next he => exact Or.inr ⟨z, List.mem_cons_self .., he.symm⟩
      · rcases ih with h | ⟨y, hy, he⟩
        · exact Or.inl (List.mem_cons_of_mem z h)
        · exact Or.inr ⟨y, List.mem_cons_of_mem z hy, he⟩

theorem ascending_insertEntry (h : l.Pairwise fun x y => x.1 < y.1) :
    (insertEntry x l).Pairwise fun x y => x.1 < y.1 := by
  induction l with
  | nil => exact List.pairwise_singleton _ x
  | cons z l ih =>
    obtain ⟨hz, hl⟩ := List.pairwise_cons.1 h
    rw [insertEntry_cons]
    split
    · next hlt =>
      refine List.pairwise_cons.2 ⟨fun y hy => ?_, h⟩
      rcases List.mem_cons.1 hy with rfl | hy
      · exact hlt
      · exact hlt.trans (hz y hy)
    · next hge =>
      split
      · exact h
      · next hne =>
        refine List.pairwise_cons.2 ⟨fun y hy => ?_, ih hl⟩
        rcases mem_of_insertEntry hy with rfl | hy
        · exact lt_of_le_of_ne (not_lt.1 hge) fun he => hne he.symm
        · exact hz y hy

def insert (m : FlatMap κ β) (x : κ × β) : FlatMap κ β :=
  ⟨insertEntry x m.entries, ascending_insertEntry m.ascending⟩

def ofList (l : List (κ × β)) : FlatMap κ β := l.foldl insert {}

def get (m : FlatMap κ β) (k : κ) : Option β :=
  (m.entries.find? fun x => decide (x.1 = k)).map Prod.snd

/- The value of a key that is there. -/
def set (m : FlatMap κ β) (k : κ) (b : β) : FlatMap κ β where
  entries := m.entries.map fun x => if x.1 = k then (k, b) else x
  ascending := by
    refine List.pairwise_map.2 (m.ascending.imp fun {x y} h => ?_)
    have hkey : ∀ z : κ × β, (if z.1 = k then (k, b) else z).1 = z.1 := by
      intro z
      split
      · next hz => exact hz.symm
      · rfl
    rw [hkey, hkey]
    exact h

/- From the bound of a key on, entries are erased as long as the condition holds of their keys. -/
def eraseWhile (m : FlatMap κ β) (k : κ) (p : κ → Bool) : FlatMap κ β where
  entries := m.entries.takeWhile (fun x => decide (x.1 < k)) ++
    (m.entries.dropWhile fun x => decide (x.1 < k)).dropWhile fun x => p x.1
  ascending := by
    refine m.ascending.sublist ?_
    conv => rhs; rw [← List.takeWhile_append_dropWhile (p := fun x => decide (x.1 < k)) (l := m.entries)]
    exact (List.Sublist.refl _).append (List.dropWhile_sublist _)

def lowerBound (m : FlatMap κ β) (k : κ) : Nat :=
  (m.entries.takeWhile fun x => decide (x.1 < k)).length

variable {m : FlatMap κ β}

/- Where an entry under the key could only be the same one. -/
theorem mem_insert (h : ∀ z ∈ m.entries, z.1 = x.1 → z = x) :
    y ∈ (m.insert x).entries ↔ y ∈ m.entries ∨ y = x := by
  refine ⟨fun hy => (mem_of_insertEntry hy).symm, fun hy => ?_⟩
  rcases hy with hy | rfl
  · exact mem_insertEntry hy
  · rcases key_insertEntry (x := y) (l := m.entries) with hin | ⟨z, hz, he⟩
    · exact hin
    · exact mem_insertEntry (h z hz he ▸ hz)

theorem mem_foldl_insert (h : ∀ x ∈ l, ∀ y ∈ l, x.1 = y.1 → x = y) (hm : ∀ y ∈ m.entries, y ∈ l)
    (hpost : ∀ y ∈ post, y ∈ l) :
    x ∈ (post.foldl insert m).entries ↔ x ∈ m.entries ∨ x ∈ post := by
  induction post generalizing m with
  | nil => simp
  | cons z post ih =>
    have hz := hpost z (List.mem_cons_self ..)
    have hmem : ∀ y, y ∈ (m.insert z).entries ↔ y ∈ m.entries ∨ y = z :=
      fun _ => mem_insert fun w hw => h w (hm w hw) z hz
    have hm' : ∀ y ∈ (m.insert z).entries, y ∈ l := by
      intro y hy
      rcases (hmem y).1 hy with hy | rfl
      · exact hm y hy
      · exact hz
    rw [List.foldl_cons, ih hm' fun y hy => hpost y (List.mem_cons_of_mem z hy), hmem,
      List.mem_cons, or_assoc]

/-- Where all entries of one key are one, nothing is left out. -/
theorem mem_ofList (h : ∀ x ∈ l, ∀ y ∈ l, x.1 = y.1 → x = y) :
    x ∈ (ofList l).entries ↔ x ∈ l := by
  rw [ofList, mem_foldl_insert h (fun _ hy => absurd hy List.not_mem_nil) fun _ => id]
  exact or_iff_right List.not_mem_nil

theorem get_some {b : β} : m.get k = some b ↔ (k, b) ∈ m.entries := by
  unfold get
  rw [Option.map_eq_some_iff]
  constructor
  · rintro ⟨x, hx, rfl⟩
    have hk : x.1 = k := of_decide_eq_true (List.find?_some (p := fun x : κ × β => decide (x.1 = k)) hx)
    exact hk ▸ List.mem_of_find?_eq_some hx
  · intro h
    cases hf : m.entries.find? fun x => decide (x.1 = k) with
    | none => exact absurd (decide_eq_true rfl) (List.find?_eq_none.1 hf (k, b) h)
    | some x =>
      have hk : x.1 = k := of_decide_eq_true (List.find?_some (p := fun x : κ × β => decide (x.1 = k)) hf)
      have hkeys : (m.entries.map Prod.fst).Nodup :=
        List.pairwise_map.2 (m.ascending.imp fun hlt => hlt.ne)
      have hx := List.inj_on_of_nodup_map hkeys (List.mem_of_find?_eq_some hf) h hk
      exact ⟨x, rfl, congrArg Prod.snd hx⟩

theorem get_insert {b : β} (h : m.get k = none) (j : κ) :
    (m.insert (k, b)).get j = if j = k then some b else m.get j := by
  have hkey : ∀ z ∈ m.entries, z.1 ≠ k := by
    intro z hz he
    have hget : m.get k = some z.2 := get_some.2 (he ▸ hz)
    rw [h] at hget
    cases hget
  refine Option.ext fun c => ?_
  rw [get_some, mem_insert fun z hz he => absurd he (hkey z hz)]
  split
  · next hj =>
    subst hj
    refine ⟨fun hc => ?_, fun hc => ?_⟩
    · rcases hc with hc | hc
      · exact absurd rfl (hkey _ hc)
      · rw [(Prod.mk.inj hc).2]
    · exact Or.inr (by rw [Option.some.inj hc])
  · next hj =>
    rw [get_some]
    exact or_iff_left fun he => hj (Prod.mk.inj he).1

theorem get_set {b c : β} (h : m.get k = some c) (j : κ) :
    (m.set k b).get j = if j = k then some b else m.get j := by
  refine Option.ext fun d => ?_
  rw [get_some]
  unfold set
  rw [List.mem_map]
  split
  · next hj =>
    subst hj
    refine ⟨fun hd => ?_, fun hd => ?_⟩
    · obtain ⟨x, hx, he⟩ := hd
      split at he
      · rw [(Prod.mk.inj he).2]
      · next hne => exact absurd (congrArg Prod.fst he) hne
    · refine ⟨(j, c), get_some.1 h, ?_⟩
      rw [if_pos rfl, Option.some.inj hd]
  · next hj =>
    rw [get_some]
    refine ⟨fun hd => ?_, fun hd => ?_⟩
    · obtain ⟨x, hx, he⟩ := hd
      split at he
      · exact absurd (Prod.mk.inj he).1.symm hj
      · exact he ▸ hx
    · exact ⟨(j, d), hd, if_neg hj⟩

section Bounds

variable {α : Type} {q : α → Bool} {l : List α} {x : α}

theorem mem_takeWhile (hq : l.Pairwise fun x y => q y → q x) :
    x ∈ l.takeWhile q ↔ x ∈ l ∧ q x := by
  induction l with
  | nil => simp
  | cons y l ih =>
    obtain ⟨hy, hl⟩ := List.pairwise_cons.1 hq
    by_cases hqy : q y
    · rw [List.takeWhile_cons_of_pos hqy, List.mem_cons, ih hl, List.mem_cons, or_and_right]
      exact or_congr_left (and_iff_left_of_imp fun he => he ▸ hqy).symm
    · rw [List.takeWhile_cons_of_neg hqy]
      refine iff_of_false List.not_mem_nil fun h => ?_
      rcases List.mem_cons.1 h.1 with rfl | hx
      · exact hqy h.2
      · exact hqy (hy x hx h.2)

theorem mem_dropWhile (hq : l.Pairwise fun x y => q y → q x) :
    x ∈ l.dropWhile q ↔ x ∈ l ∧ ¬ q x := by
  induction l with
  | nil => simp
  | cons y l ih =>
    obtain ⟨hy, hl⟩ := List.pairwise_cons.1 hq
    by_cases hqy : q y
    · rw [List.dropWhile_cons_of_pos hqy, ih hl, List.mem_cons]
      refine and_congr_left fun hx => (or_iff_right fun he => ?_).symm
      exact hx (he ▸ hqy)
    · rw [List.dropWhile_cons_of_neg hqy]
      refine (and_iff_left_of_imp fun hx hqx => ?_).symm
      rcases List.mem_cons.1 hx with rfl | hx
      · exact hqy hqx
      · exact hqy (hy x hx hqx)

end Bounds

theorem mem_eraseWhile {p : κ → Bool} (hp : ∀ i j, k ≤ i → i < j → p j → p i) :
    x ∈ (m.eraseWhile k p).entries ↔ x ∈ m.entries ∧ ¬ (k ≤ x.1 ∧ p x.1) := by
  have hbelow : m.entries.Pairwise fun x y => decide (y.1 < k) = true → decide (x.1 < k) = true :=
    m.ascending.imp fun h hy => decide_eq_true (h.trans (of_decide_eq_true hy))
  have habove : ∀ y ∈ m.entries.dropWhile (fun z => decide (z.1 < k)), k ≤ y.1 := fun y hy =>
    not_lt.1 fun hlt => ((mem_dropWhile hbelow).1 hy).2 (decide_eq_true hlt)
  have herased : (m.entries.dropWhile fun z => decide (z.1 < k)).Pairwise
      fun x y => p y.1 = true → p x.1 = true := by
    refine (m.ascending.sublist (List.dropWhile_sublist _)).imp_of_mem fun hx _ h hy => ?_
    exact hp _ _ (habove _ hx) h hy
  refine List.mem_append.trans ?_
  rw [mem_takeWhile hbelow, mem_dropWhile herased, mem_dropWhile hbelow, decide_eq_true_eq, not_lt]
  by_cases hk : k ≤ x.1
  · simp [hk, not_lt.2 hk]
  · simp [hk, not_le.1 hk]

theorem get_eraseWhile {p : κ → Bool} (hp : ∀ i j, k ≤ i → i < j → p j → p i) (j : κ) :
    (m.eraseWhile k p).get j = if k ≤ j ∧ p j then none else m.get j := by
  refine Option.ext fun b => ?_
  rw [get_some, mem_eraseWhile hp]
  split
  · next h => simp [h]
  · next h =>
    rw [get_some]
    exact and_iff_left h

/- The entries before and after one. -/
theorem split_at (h : x ∈ m.entries) : ∃ pre post, m.entries = pre ++ x :: post ∧
    (∀ y ∈ pre, y.1 < x.1) ∧ ∀ y ∈ post, x.1 < y.1 := by
  obtain ⟨pre, post, hl⟩ := List.append_of_mem h
  have hasc := m.ascending
  rw [hl, List.pairwise_append] at hasc
  obtain ⟨-, hpost, hpre⟩ := hasc
  exact ⟨pre, post, hl, fun y hy => hpre y hy x (List.mem_cons_self ..),
    (List.pairwise_cons.1 hpost).1⟩

theorem lowerBound_eq (hl : m.entries = pre ++ post) (hpre : ∀ y ∈ pre, y.1 < k)
    (hpost : ∀ y ∈ post.head?, k ≤ y.1) : m.lowerBound k = pre.length := by
  unfold lowerBound
  rw [hl, List.takeWhile_append_of_pos fun y hy => decide_eq_true (hpre y hy), List.length_append]
  cases post with
  | nil => rfl
  | cons y post =>
    have hy : ¬ y.1 < k := not_lt.2 (hpost y rfl)
    rw [List.takeWhile_cons_of_neg (by simpa using hy)]
    rfl

end FlatMap

end WeNode.Lib

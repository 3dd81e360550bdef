import Mathlib.Data.Finset.Basic
import Mathlib.Data.Finset.SDiff
import Mathlib.Data.List.Pairwise

/-!
# Sets in parts

A set kept beside a list of disjoint sets that it is the union of, and how both change together.
-/

namespace WeNode.Lib

/- An entry of a list, and the list with it changed. -/
theorem split_modify {β : Type} {l : List β} {i : Nat} {a : β} (h : l[i]? = some a) :
    ∃ pre post, l = pre ++ a :: post ∧ ∀ f : β → β, l.modify i f = pre ++ f a :: post := by
  induction l generalizing i with
  | nil => cases h
  | cons b l ih =>
    cases i with
    | zero =>
      cases h
      exact ⟨[], l, rfl, fun _ => rfl⟩
    | succ i =>
      obtain ⟨pre, post, hl, hf⟩ := ih (i := i) (by simpa using h)
      exact ⟨b :: pre, post, by rw [hl]; rfl, fun f => by rw [List.modify_succ_cons, hf]; rfl⟩

variable {α : Type} [DecidableEq α]

/-- `s` is the disjoint union of the sets of `l`. -/
structure Parts (l : List (Finset α)) (s : Finset α) : Prop where
  disjoint : l.Pairwise Disjoint
  mem_iff : ∀ x, x ∈ s ↔ ∃ t ∈ l, x ∈ t

namespace Parts

variable {l pre post : List (Finset α)} {s s' t t' new : Finset α} {x : α}

omit [DecidableEq α] in
theorem nil : Parts ([] : List (Finset α)) ∅ := ⟨.nil, by simp⟩

/- In the middle of the list stands a part that is disjoint from the others. -/
theorem cons_iff : Parts (pre ++ t :: post) s ↔ Parts (pre ++ post) (s \ t) ∧ t ⊆ s := by
  constructor
  · rintro ⟨hdisjoint, hmem⟩
    rw [List.pairwise_middle fun h => h.symm, List.pairwise_cons] at hdisjoint
    refine ⟨⟨hdisjoint.2, fun x => ?_⟩, fun x hx => (hmem x).2 ⟨t, by simp, hx⟩⟩
    rw [Finset.mem_sdiff, hmem]
    constructor
    · rintro ⟨⟨u, hu, hxu⟩, hxt⟩
      have hut : u ≠ t := fun heq => hxt (heq ▸ hxu)
      exact ⟨u, by simpa [hut] using hu, hxu⟩
    · rintro ⟨u, hu, hxu⟩
      exact ⟨⟨u, by simp only [List.mem_append, List.mem_cons] at hu ⊢; tauto, hxu⟩,
        fun hxt => Finset.disjoint_left.1 (hdisjoint.1 u hu) hxt hxu⟩
  · rintro ⟨⟨hdisjoint, hmem⟩, hts⟩
    refine ⟨?_, fun x => ?_⟩
    · rw [List.pairwise_middle fun h => h.symm, List.pairwise_cons]
      refine ⟨fun u hu => Finset.disjoint_left.2 fun x hxt hxu => ?_, hdisjoint⟩
      exact (Finset.mem_sdiff.1 ((hmem x).2 ⟨u, hu, hxu⟩)).2 hxt
    · constructor
      · intro hx
        by_cases hxt : x ∈ t
        · exact ⟨t, by simp, hxt⟩
        · obtain ⟨u, hu, hxu⟩ := (hmem x).1 (Finset.mem_sdiff.2 ⟨hx, hxt⟩)
          exact ⟨u, by simp only [List.mem_append, List.mem_cons] at hu ⊢; tauto, hxu⟩
      · rintro ⟨u, hu, hxu⟩
        rcases List.mem_append.1 hu with hu | hu
        · exact (Finset.mem_sdiff.1 ((hmem x).2 ⟨u, by simp [hu], hxu⟩)).1
        · rcases List.mem_cons.1 hu with rfl | hu
          · exact hts hxu
          · exact (Finset.mem_sdiff.1 ((hmem x).2 ⟨u, by simp [hu], hxu⟩)).1

/-- A part grows by what is in no part. -/
theorem union (h : Parts (pre ++ t :: post) s) (hnew : Disjoint new s) :
    Parts (pre ++ (t ∪ new) :: post) (s ∪ new) := by
  obtain ⟨hrest, hts⟩ := cons_iff.1 h
  refine cons_iff.2 ⟨?_, Finset.union_subset_union_left hts⟩
  have hsame : (s ∪ new) \ (t ∪ new) = s \ t := by
    ext x
    have hx : x ∈ new → x ∉ s := fun h => Finset.disjoint_left.1 hnew h
    simp only [Finset.mem_sdiff, Finset.mem_union]
    tauto
  rwa [hsame]

/-- What leaves its part leaves the set. -/
theorem sdiff (h : Parts (pre ++ t :: post) s) (hnew : new ⊆ t) :
    Parts (pre ++ (t \ new) :: post) (s \ new) := by
  obtain ⟨hrest, hts⟩ := cons_iff.1 h
  refine cons_iff.2 ⟨?_, Finset.sdiff_subset_sdiff hts le_rfl⟩
  have hsame : (s \ new) \ (t \ new) = s \ t := by
    ext x
    have hx := @hnew x
    simp only [Finset.mem_sdiff]
    tauto
  rwa [hsame]

theorem append_empty (h : Parts l s) : Parts (l ++ [∅]) s :=
  cons_iff.2 ⟨by rwa [List.append_nil, Finset.sdiff_empty], Finset.empty_subset s⟩

end Parts

end WeNode.Lib

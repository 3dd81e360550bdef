import Mathlib.Data.List.MinMax
import Mathlib.Data.List.Nodup
import WeNode.Lib.KeyedRows

/-!
# Rows numbered for their owners

A list of rows, in the order of their creation.  Every owner's rows have 32-bit numbers that go on
from its newest one, and its oldest rows are evicted once their numbers are too far behind.
-/

namespace WeNode.Lib

variable {α κ : Type} [DecidableEq κ] (owner : α → κ) (number : α → Nat)

def rowsOf (k : κ) (l : List α) : List α := l.filter fun x => decide (owner x = k)

/- The number that follows the greatest one of an owner. -/
def nextNumber (k : κ) (l : List α) : Nat :=
  match (rowsOf owner k l).argmax number with
  | none => 0
  | some x => (number x + 1) % 2 ^ 32

/- As long as the number of the oldest row is more than `limit` behind, it is removed. -/
def evict (k : κ) (next limit : Nat) : Nat → List α → List α
  | 0, l => l
  | fuel + 1, l =>
    match (rowsOf owner k l).argmin number with
    | none => l
    | some x =>
      if limit < (next + (2 ^ 32 - number x)) % 2 ^ 32 then
        evict k next limit fuel
          (l.filter fun y => !(decide (owner y = k) && decide (number y = number x)))
      else l

/- Every row is removed in a round of its own. -/
def evictAll (k : κ) (next limit : Nat) (l : List α) : List α :=
  evict owner number k next limit l.length l

/-- The numbers of every owner ascend. -/
def Ascending (l : List α) : Prop :=
  ∀ k, (rowsOf owner k l).Pairwise fun x y => number x < number y

variable {owner number} {k k' : κ} {l : List α} {n : α} {next limit : Nat}

theorem mem_rowsOf {x : α} : x ∈ rowsOf owner k l ↔ x ∈ l ∧ owner x = k := by
  simp [rowsOf]

section Pairs

variable {ι : Type} [DecidableEq ι] (item : α → ι) (owner) {i : ι}

/-- The row of an item and an owner is among the rows of the owner. -/
theorem lookup_pair : lookup (fun x => (item x, owner x)) l (i, k) =
    (rowsOf owner k l).find? fun x => decide (item x = i) := by
  unfold lookup rowsOf
  rw [List.find?_filter]
  refine congrArg (fun p => l.find? p) (funext fun x => ?_)
  simp [Bool.and_comm]

theorem not_mem_of_pair (h : lookup (fun x => (item x, owner x)) l (i, k) = none) :
    i ∉ (rowsOf owner k l).map item := by
  rw [lookup_pair, List.find?_eq_none] at h
  intro hm
  obtain ⟨x, hx, rfl⟩ := List.mem_map.1 hm
  exact h x hx (decide_eq_true rfl)

end Pairs

theorem rowsOf_append_self (hn : owner n = k) :
    rowsOf owner k (l ++ [n]) = rowsOf owner k l ++ [n] := by
  simp [rowsOf, hn]

theorem rowsOf_append_other (hn : owner n ≠ k) : rowsOf owner k (l ++ [n]) = rowsOf owner k l := by
  simp [rowsOf, hn]

theorem rowsOf_map {f : α → α} (hf : ∀ x, owner (f x) = owner x) :
    rowsOf owner k (l.map f) = (rowsOf owner k l).map f := by
  simp [rowsOf, List.filter_map, Function.comp_def, hf]

theorem rowsOf_filter (p : α → Bool) :
    rowsOf owner k (l.filter p) = (rowsOf owner k l).filter p := by
  unfold rowsOf
  rw [List.filter_filter, List.filter_filter]
  exact List.filter_congr fun x _ => Bool.and_comm _ _

theorem Ascending.nodup (h : Ascending owner number l) (k : κ) :
    ((rowsOf owner k l).map number).Nodup := by
  refine List.pairwise_map.2 ((h k).imp fun hlt => Nat.ne_of_lt hlt)

/-! ### Numbers -/

theorem nextNumber_lt : nextNumber owner number k l < 2 ^ 32 := by
  unfold nextNumber
  split
  · decide
  · exact Nat.mod_lt _ (by decide)

/-- As long as numbers fit, the next one is above all of them. -/
theorem lt_nextNumber (hfit : ∀ x ∈ rowsOf owner k l, number x + 1 < 2 ^ 32) {x : α}
    (hx : x ∈ rowsOf owner k l) : number x < nextNumber owner number k l := by
  unfold nextNumber
  split
  · next hnone =>
    rw [List.argmax_eq_none.1 hnone] at hx
    cases hx
  · next m hm =>
    have hmax : number x ≤ number m := List.le_of_mem_argmax hx hm
    have hmem := hfit m (List.argmax_mem hm)
    rw [Nat.mod_eq_of_lt hmem]
    omega

/- The rows that an owner has of one row for each of a few. -/
theorem rowsOf_each {f : κ → α} {ks : List κ} (hf : ∀ j, owner (f j) = j) (hn : ks.Nodup) :
    rowsOf owner k (ks.map f) = if k ∈ ks then [f k] else [] := by
  have hmap : rowsOf owner k (ks.map f) = (ks.filter (· = k)).map f := by
    unfold rowsOf
    rw [List.filter_map]
    exact congrArg (List.map f) (List.filter_congr fun j _ => by simp [hf])
  rw [hmap, List.filter_eq]
  split
  · next hk => rw [List.count_eq_one_of_mem hn hk, List.replicate_one, List.map_singleton]
  · next hk => rw [List.count_eq_zero_of_not_mem hk, List.replicate_zero, List.map_nil]

/- Rows that are numbered from zero on go on with their count. -/
theorem nextNumber_range (h : (rowsOf owner k l).map number = List.range (rowsOf owner k l).length)
    (hroom : (rowsOf owner k l).length < 2 ^ 32) :
    nextNumber owner number k l = (rowsOf owner k l).length := by
  have hmem : ∀ i, i ∈ (rowsOf owner k l).map number ↔ i < (rowsOf owner k l).length := by
    intro i
    rw [h]
    exact List.mem_range
  unfold nextNumber
  split
  · next hnone => rw [List.argmax_eq_none.1 hnone, List.length_nil]
  · next x hx =>
    have hlt := (hmem _).1 (List.mem_map_of_mem (List.argmax_mem hx))
    obtain ⟨y, hy, hlast⟩ := List.mem_map.1 ((hmem ((rowsOf owner k l).length - 1)).2 (by omega))
    have hle : number y ≤ number x := List.le_of_mem_argmax hy hx
    omega

/- Where numbers differ and fit, an owner has no more rows than there are numbers. -/
theorem length_le_numbers (hn : (l.map fun x => (owner x, number x)).Nodup)
    (hfit : ∀ x ∈ l, number x < 2 ^ 32) : (rowsOf owner k l).length ≤ 2 ^ 32 := by
  have hnodup : ((rowsOf owner k l).map number).Nodup := by
    refine (List.nodup_map_iff_inj_on (hn.of_map.filter _)).2 fun x hx y hy he => ?_
    have he' : (owner x, number x) = (owner y, number y) := by
      rw [(mem_rowsOf.1 hx).2, (mem_rowsOf.1 hy).2, he]
    exact List.inj_on_of_nodup_map hn (mem_rowsOf.1 hx).1 (mem_rowsOf.1 hy).1 he'
  have hsub : (rowsOf owner k l).map number ⊆ List.range (2 ^ 32) := by
    intro i hi
    obtain ⟨x, hx, rfl⟩ := List.mem_map.1 hi
    exact List.mem_range.2 (hfit x (mem_rowsOf.1 hx).1)
  have hle := List.Nodup.length_le_of_subset hnodup hsub
  rwa [List.length_map, List.length_range] at hle

/-! ### Eviction -/

theorem filter_others (hnil : rowsOf owner k l = []) (p : α → Bool) :
    (l.filter fun x => !(decide (owner x = k) && p x)) = l := by
  rw [List.filter_eq_self]
  intro x hx
  have hother : owner x ≠ k := by
    intro he
    have hmem := mem_rowsOf.2 ⟨hx, he⟩
    rw [hnil] at hmem
    cases hmem
  simp [hother]

/- What is removed are the rows whose numbers are too far behind. -/
theorem evict_eq {fuel : Nat} (hnext : next < 2 ^ 32) (hle : ∀ x ∈ rowsOf owner k l, number x ≤ next)
    (hfuel : (rowsOf owner k l).length ≤ fuel) :
    evict owner number k next limit fuel l =
      l.filter fun x => !(decide (owner x = k) && decide (number x + limit < next)) := by
  induction fuel generalizing l with
  | zero =>
    have hnil : rowsOf owner k l = [] := List.length_eq_zero_iff.1 (Nat.le_zero.1 hfuel)
    exact (filter_others hnil _).symm
  | succ fuel ih =>
    unfold evict
    split
    · next hnone => exact (filter_others (List.argmin_eq_none.1 hnone) _).symm
    · next m hm =>
      have hmem := List.argmin_mem hm
      have hm' := hle m hmem
      have hdistance : (next + (2 ^ 32 - number m)) % 2 ^ 32 = next - number m := by omega
      rw [hdistance]
      split
      · next hfar =>
        have hrows : rowsOf owner k
              (l.filter fun y => !(decide (owner y = k) && decide (number y = number m))) =
            (rowsOf owner k l).filter fun y =>
              !(decide (owner y = k) && decide (number y = number m)) := rowsOf_filter _
        have hshorter : ((rowsOf owner k l).filter fun y =>
            !(decide (owner y = k) && decide (number y = number m))).length <
              (rowsOf owner k l).length := by
          refine List.length_filter_lt_length_iff_exists.2 ⟨m, hmem, ?_⟩
          simp [(mem_rowsOf.1 hmem).2]
        rw [ih, List.filter_filter]
        · refine List.filter_congr fun x _ => ?_
          by_cases he : number x = number m
          · have hlow : number x + limit < next := by omega
            simp [he, he ▸ hlow]
          · simp [he]
        · intro x hx
          rw [hrows] at hx
          exact hle x (List.mem_of_mem_filter hx)
        · rw [hrows]
          omega
      · next hnear =>
        -- the oldest row is near enough, and so are the others
        refine (List.filter_eq_self.2 fun x hx => ?_).symm
        by_cases he : owner x = k
        · have hmin : number m ≤ number x := List.le_of_mem_argmin (mem_rowsOf.2 ⟨hx, he⟩) hm
          have hkeep : ¬ number x + limit < next := by omega
          simp [hkeep]
        · simp [he]

theorem evictAll_eq (hnext : next < 2 ^ 32) (hle : ∀ x ∈ rowsOf owner k l, number x ≤ next) :
    evictAll owner number k next limit l =
      l.filter fun x => !(decide (owner x = k) && decide (number x + limit < next)) :=
  evict_eq hnext hle (List.length_filter_le _ _)

theorem rowsOf_evictAll (hnext : next < 2 ^ 32) (hle : ∀ x ∈ rowsOf owner k l, number x ≤ next) :
    rowsOf owner k (evictAll owner number k next limit l) =
      (rowsOf owner k l).filter fun x => decide (next ≤ number x + limit) := by
  rw [evictAll_eq hnext hle, rowsOf_filter]
  refine List.filter_congr fun x hx => ?_
  rw [decide_eq_true (mem_rowsOf.1 hx).2, Bool.true_and, ← decide_not, decide_eq_decide]
  exact not_lt

/-- A choice of rows that takes all rows of others, and with a row of the owner all later ones. -/
structure Later (owner : α → κ) (number : α → Nat) (k : κ) (l : List α) (p : α → Bool) : Prop where
  others : ∀ x, owner x ≠ k → p x
  later : ∀ x ∈ rowsOf owner k l, ∀ y ∈ rowsOf owner k l, number x ≤ number y → p x → p y

theorem Later.all (l : List α) : ∃ p, Later owner number k l p ∧ l = l.filter p :=
  ⟨fun _ => true, ⟨fun _ _ => rfl, fun _ _ _ _ _ _ => rfl⟩,
    (List.filter_eq_self.2 fun _ _ => rfl).symm⟩

/- The oldest row is not taken. -/
theorem Later.without_oldest {m : α} (hm : m ∈ (rowsOf owner k l).argmin number) :
    Later owner number k l fun y => !(decide (owner y = k) && decide (number y = number m)) where
  others x hx := by simp [hx]
  later x hx y hy hle h := by
    have hmin : number m ≤ number x := List.le_of_mem_argmin hx hm
    have hne : number x ≠ number m := by simpa [(mem_rowsOf.1 hx).2] using h
    have hne' : number y ≠ number m := by omega
    simp [hne']

theorem Later.and {p q : α → Bool} (hp : Later owner number k l p)
    (hq : Later owner number k (l.filter p) q) :
    Later owner number k l fun x => p x && q x where
  others x hx := by rw [hp.others x hx, hq.others x hx, Bool.true_and]
  later x hx y hy hle h := by
    obtain ⟨hpx, hqx⟩ := Bool.and_eq_true_iff.1 h
    have hpy := hp.later x hx y hy hle hpx
    have hmem : ∀ z ∈ rowsOf owner k l, p z → z ∈ rowsOf owner k (l.filter p) := by
      intro z hz hpz
      rw [rowsOf_filter]
      exact List.mem_filter.2 ⟨hz, hpz⟩
    rw [hpy, hq.later x (hmem x hx hpx) y (hmem y hy hpy) hle hqx, Bool.true_and]

/-- Whatever the limit and the next number are, the rows that stay are the later ones. -/
theorem evict_later (k : κ) (next limit fuel : Nat) (l : List α) :
    ∃ p, Later owner number k l p ∧ evict owner number k next limit fuel l = l.filter p := by
  induction fuel generalizing l with
  | zero => exact Later.all l
  | succ fuel ih =>
    unfold evict
    split
    · exact Later.all l
    · next m hm =>
      split
      · obtain ⟨q, hq, hrest⟩ :=
          ih (l.filter fun y => !(decide (owner y = k) && decide (number y = number m)))
        refine ⟨_, (Later.without_oldest hm).and hq, ?_⟩
        rw [hrest, List.filter_filter]
        exact List.filter_congr fun x _ => Bool.and_comm _ _
      · exact Later.all l

theorem rowsOf_later {p : α → Bool} (hp : Later owner number k l p) (hk : k' ≠ k) :
    rowsOf owner k' (l.filter p) = rowsOf owner k' l := by
  rw [rowsOf_filter, List.filter_eq_self]
  intro x hx
  exact hp.others x fun he => hk ((mem_rowsOf.1 hx).2.symm.trans he)

/-- Of ascending numbers the later ones are the end of the list. -/
theorem filter_suffix {p : α → Bool} (h : l.Pairwise fun x y => number x < number y)
    (hp : ∀ x ∈ l, ∀ y ∈ l, number x ≤ number y → p x → p y) : l.filter p <:+ l := by
  induction l with
  | nil => exact List.suffix_refl []
  | cons x l ih =>
    obtain ⟨hlt, hrest⟩ := List.pairwise_cons.1 h
    by_cases hx : p x
    · have hall : ∀ y ∈ x :: l, p y = true := by
        intro y hy
        rcases List.mem_cons.1 hy with rfl | hmem
        · exact hx
        · exact hp x (List.mem_cons_self ..) y hy (hlt y hmem).le hx
      exact (List.filter_eq_self.2 hall).symm ▸ List.suffix_refl _
    · rw [List.filter_cons_of_neg hx]
      refine (ih hrest fun y hy z hz => ?_).trans (List.suffix_cons x l)
      exact hp y (List.mem_cons_of_mem x hy) z (List.mem_cons_of_mem x hz)

theorem rowsOf_evictAll_other (hk : k' ≠ k) :
    rowsOf owner k' (evictAll owner number k next limit l) = rowsOf owner k' l := by
  obtain ⟨p, hp, hl⟩ := @evict_later _ _ _ owner number k next limit l.length l
  unfold evictAll
  rw [hl, rowsOf_later hp hk]

theorem evictAll_sublist : (evictAll owner number k next limit l).Sublist l := by
  obtain ⟨p, -, hl⟩ := @evict_later _ _ _ owner number k next limit l.length l
  unfold evictAll
  rw [hl]
  exact List.filter_sublist

theorem evictAll_suffix (h : (rowsOf owner k' l).Pairwise fun x y => number x < number y) :
    rowsOf owner k' (evictAll owner number k next limit l) <:+ rowsOf owner k' l := by
  obtain ⟨p, hp, hl⟩ := @evict_later _ _ _ owner number k next limit l.length l
  unfold evictAll
  rw [hl]
  by_cases hk : k' = k
  · subst hk
    rw [rowsOf_filter]
    exact filter_suffix h hp.later
  · exact (rowsOf_later hp hk).symm ▸ List.suffix_refl _

theorem Ascending.filter (h : Ascending owner number l) (p : α → Bool) :
    Ascending owner number (l.filter p) := by
  intro k
  rw [rowsOf_filter]
  exact (h k).sublist List.filter_sublist

theorem Ascending.map {f : α → α} (h : Ascending owner number l) (hf : ∀ x, owner (f x) = owner x)
    (hnumber : ∀ x, number (f x) = number x) : Ascending owner number (l.map f) := by
  intro k
  rw [rowsOf_map hf, List.pairwise_map]
  exact (h k).imp fun hlt => by rwa [hnumber, hnumber]

/- A row with the next number. -/
theorem Ascending.append (h : Ascending owner number l) (hn : owner n = k)
    (habove : ∀ x ∈ rowsOf owner k l, number x < number n) :
    Ascending owner number (l ++ [n]) := by
  intro k'
  by_cases hk : k = k'
  · subst hk
    rw [rowsOf_append_self hn, List.pairwise_append]
    refine ⟨h k, List.pairwise_singleton _ n, fun x hx y hy => ?_⟩
    rw [List.mem_singleton.1 hy]
    exact habove x hx
  · have hother : owner n ≠ k' := fun he => hk (hn.symm.trans he)
    rw [rowsOf_append_other hother]
    exact h k'

/-! ### Bounded caches -/

section Bounded

variable {ι : Type} {item : α → ι}

/-- Numbers still fit after the next one. -/
def NumbersFit (owner : α → κ) (number : α → Nat) (k : κ) (l : List α) : Prop :=
  ∀ x ∈ rowsOf owner k l, number x + 1 < 2 ^ 32

/- The rows that are near enough to the next number are fewer than the limit. -/
def HasRoom (owner : α → κ) (number : α → Nat) (limit : Nat) (k : κ) (l : List α) : Prop :=
  (rowsOf owner k l).countP (fun x => decide (nextNumber owner number k l ≤ number x + limit)) <
    limit

/-- Every owner has at most `limit` rows, one for an item, and their numbers ascend. -/
structure Bounded (owner : α → κ) (number : α → Nat) (item : α → ι) (limit : Nat) (l : List α) :
    Prop where
  ascending : Ascending owner number l
  items : ∀ k, ((rowsOf owner k l).map item).Nodup
  size : ∀ k, (rowsOf owner k l).length ≤ limit

/-- The rows of an owner after a step go on from those before: at most one is new, and what is left
is newer than what is not. -/
def Evicts (item : α → ι) (l l' : List α) : Prop :=
  ∃ new : List ι, new.length ≤ 1 ∧ (∀ i ∈ new, i ∉ l.map item) ∧ l'.map item <:+ l.map item ++ new

theorem Evicts.of_suffix {l l' : List α} (h : l'.map item <:+ l.map item) : Evicts item l l' :=
  ⟨[], Nat.zero_le 1, nofun, (List.append_nil (l.map item)).symm ▸ h⟩

theorem Evicts.refl (item : α → ι) (l : List α) : Evicts item l l := .of_suffix (List.suffix_refl _)

theorem Evicts.push {l l' : List α} {n : α} (h : l' <:+ l) (hnew : item n ∉ l.map item) :
    Evicts item l (l' ++ [n]) := by
  obtain ⟨pre, rfl⟩ := h
  refine ⟨[item n], le_refl 1, ?_, pre.map item, ?_⟩
  · intro i hi
    rw [List.mem_singleton.1 hi]
    exact hnew
  · simp

theorem Evicts.append (hn : owner n = k) (hnew : item n ∉ (rowsOf owner k l).map item) (k' : κ) :
    Evicts item (rowsOf owner k' l) (rowsOf owner k' (l ++ [n])) := by
  by_cases hk : owner n = k'
  · rw [rowsOf_append_self hk]
    exact .push (List.suffix_refl _) (hk.symm.trans hn ▸ hnew)
  · rw [rowsOf_append_other hk]
    exact .refl item _

theorem Evicts.congr {l₁ l l' : List α} (h : Evicts item l₁ l') (hsame : l₁.map item = l.map item) :
    Evicts item l l' := by
  unfold Evicts at h ⊢
  rwa [← hsame]

instance (k : κ) (l : List α) : Decidable (NumbersFit owner number k l) :=
  inferInstanceAs (Decidable (∀ x ∈ rowsOf owner k l, number x + 1 < 2 ^ 32))

instance (limit : Nat) (k : κ) (l : List α) : Decidable (HasRoom owner number limit k l) :=
  inferInstanceAs (Decidable (_ < limit))

theorem numbersFit_congr {l l' : List α} (h : rowsOf owner k l' = rowsOf owner k l) :
    NumbersFit owner number k l' ↔ NumbersFit owner number k l := by
  unfold NumbersFit
  rw [h]

theorem nextNumber_congr {l l' : List α} (h : rowsOf owner k l' = rowsOf owner k l) :
    nextNumber owner number k l' = nextNumber owner number k l := by
  unfold nextNumber
  rw [h]

theorem hasRoom_congr {l l' : List α} (h : rowsOf owner k l' = rowsOf owner k l) :
    HasRoom owner number limit k l' ↔ HasRoom owner number limit k l := by
  unfold HasRoom
  rw [h, nextNumber_congr h]

namespace Bounded

/- Fewer rows than there may be leave room for a new one. -/
theorem append (h : Bounded owner number item limit l) (hfit : NumbersFit owner number k l)
    (hn : owner n = k) (hnumber : number n = nextNumber owner number k l)
    (hitem : item n ∉ (rowsOf owner k l).map item) (hfew : (rowsOf owner k l).length < limit) :
    Bounded owner number item limit (l ++ [n]) := by
  refine ⟨h.ascending.append hn fun x hx => ?_, fun k' => ?_, fun k' => ?_⟩
  · rw [hnumber]
    exact lt_nextNumber hfit hx
  · by_cases hk : owner n = k'
    · have hk' : k = k' := hn.symm.trans hk
      subst hk'
      rw [rowsOf_append_self hk, List.map_append, List.map_singleton]
      exact List.Nodup.append (h.items k) (List.nodup_singleton _) (List.disjoint_singleton.2 hitem)
    · rw [rowsOf_append_other hk]
      exact h.items k'
  · by_cases hk : owner n = k'
    · have hk' : k = k' := hn.symm.trans hk
      subst hk'
      rw [rowsOf_append_self hk, List.length_append]
      exact hfew
    · rw [rowsOf_append_other hk]
      exact h.size k'

theorem filter (h : Bounded owner number item limit l) (p : α → Bool) :
    Bounded owner number item limit (l.filter p) := by
  refine ⟨h.ascending.filter p, fun k => ?_, fun k => ?_⟩
  · rw [rowsOf_filter]
    exact (h.items k).sublist (List.filter_sublist.map item)
  · rw [rowsOf_filter]
    exact (List.length_filter_le _ _).trans (h.size k)

theorem map {f : α → α} (h : Bounded owner number item limit l)
    (hf : ∀ x, owner (f x) = owner x) (hnumber : ∀ x, number (f x) = number x)
    (hitem : ∀ x, item (f x) = item x) : Bounded owner number item limit (l.map f) := by
  refine ⟨h.ascending.map hf hnumber, fun k => ?_, fun k => ?_⟩
  · rw [rowsOf_map hf, List.map_map]
    have hsame : item ∘ f = item := funext hitem
    rw [hsame]
    exact h.items k
  · rw [rowsOf_map hf, List.length_map]
    exact h.size k

/- Rows are evicted, and none is new. -/
theorem evict (h : Bounded owner number item limit l) (next : Nat) :
    Bounded owner number item limit (evictAll owner number k next limit l) := by
  obtain ⟨p, -, hl⟩ := @evict_later _ _ _ owner number k next limit l.length l
  unfold evictAll
  rw [hl]
  exact h.filter p

theorem evict_evicts (h : Bounded owner number item limit l) (next : Nat) (k' : κ) :
    Evicts item (rowsOf owner k' l)
      (rowsOf owner k' (evictAll owner number k next limit l)) :=
  .of_suffix ((evictAll_suffix (h.ascending k')).map item)

section Push

variable (h : Bounded owner number item limit l) (hfit : NumbersFit owner number k l)
  (hn : owner n = k) (hnumber : number n = nextNumber owner number k l)

include hfit hn hnumber

/- Of the rows before, those near enough to the new one stay. -/
theorem rowsOf_push : rowsOf owner k
      (evictAll owner number k (nextNumber owner number k l) limit (l ++ [n])) =
    ((rowsOf owner k l).filter fun x =>
      decide (nextNumber owner number k l ≤ number x + limit)) ++ [n] := by
  have hle : ∀ x ∈ rowsOf owner k (l ++ [n]), number x ≤ nextNumber owner number k l := by
    intro x hx
    rw [rowsOf_append_self hn] at hx
    rcases List.mem_append.1 hx with hx | hx
    · exact (lt_nextNumber hfit hx).le
    · rw [List.mem_singleton.1 hx, hnumber]
  rw [rowsOf_evictAll nextNumber_lt hle, rowsOf_append_self hn, List.filter_append,
    List.filter_cons_of_pos, List.filter_nil]
  rw [hnumber]
  exact decide_eq_true (Nat.le_add_right _ _)

include h

theorem push_evicts (hitem : item n ∉ (rowsOf owner k l).map item) (k' : κ) :
    Evicts item (rowsOf owner k' l) (rowsOf owner k'
      (evictAll owner number k (nextNumber owner number k l) limit (l ++ [n]))) := by
  by_cases hk : k' = k
  · subst hk
    rw [rowsOf_push hfit hn hnumber]
    refine .push (filter_suffix (h.ascending k') fun x _ y _ hle hx => ?_) hitem
    exact decide_eq_true ((of_decide_eq_true hx).trans (Nat.add_le_add_right hle limit))
  · rw [rowsOf_evictAll_other hk, rowsOf_append_other fun he => hk (he.symm.trans hn)]
    exact .refl item _

/- A new row, after which the oldest ones are evicted. -/
theorem push (hitem : item n ∉ (rowsOf owner k l).map item)
    (hroom : HasRoom owner number limit k l) : Bounded owner number item limit
      (evictAll owner number k (nextNumber owner number k l) limit (l ++ [n])) := by
  have happend : Ascending owner number (l ++ [n]) := h.ascending.append hn fun x hx => by
    rw [hnumber]
    exact lt_nextNumber hfit hx
  refine ⟨fun k' => (happend k').sublist (evictAll_suffix (happend k')).sublist, fun k' => ?_,
    fun k' => ?_⟩
  · by_cases hk : k' = k
    · subst hk
      rw [rowsOf_push hfit hn hnumber, List.map_append, List.map_singleton]
      refine List.Nodup.append ?_ (List.nodup_singleton _) (List.disjoint_singleton.2 fun hm => ?_)
      · exact (h.items k').sublist (List.filter_sublist.map item)
      · obtain ⟨x, hx, he⟩ := List.mem_map.1 hm
        exact hitem (he ▸ List.mem_map_of_mem (List.mem_of_mem_filter hx))
    · rw [rowsOf_evictAll_other hk, rowsOf_append_other fun he => hk (he.symm.trans hn)]
      exact h.items k'
  · by_cases hk : k' = k
    · subst hk
      rw [rowsOf_push hfit hn hnumber, List.length_append, ← List.countP_eq_length_filter]
      exact hroom
    · rw [rowsOf_evictAll_other hk, rowsOf_append_other fun he => hk (he.symm.trans hn)]
      exact h.size k'

end Push

end Bounded

end Bounded

end WeNode.Lib

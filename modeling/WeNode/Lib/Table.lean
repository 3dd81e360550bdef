import Mathlib.Algebra.BigOperators.Group.List.Basic
import Mathlib.Data.List.Nodup
import Mathlib.Tactic.Abel

/-!
# Tables of rows

An index of an object database: the rows in the order of their creation and the id the next row
gets.  A row is looked up, changed and removed through a key, a predicate that picks the first
row it holds of; where keys are unique there is no other.
-/

namespace WeNode.Lib

structure Table (α : Type) where
  rows : List α := []
  nextId : Nat := 0

namespace Table

variable {α ε : Type}

def find (t : Table α) (key : α → Bool) : Option α := t.rows.find? key

def create (t : Table α) (row : Nat → α) : Table α := ⟨t.rows ++ [row t.nextId], t.nextId + 1⟩

def remove (t : Table α) (key : α → Bool) : Table α := ⟨t.rows.eraseP key, t.nextId⟩

def map (t : Table α) (f : α → α) : Table α := ⟨t.rows.map f, t.nextId⟩

/- The row of the key is replaced by what `f` makes of it. -/
def modifyRows (missing : ε) (key : α → Bool) (f : α → Except ε α) :
    List α → Except ε (List α)
  | [] => .error missing
  | x :: xs =>
    if key x then do
      let y ← f x
      return y :: xs
    else do
      let ys ← modifyRows missing key f xs
      return x :: ys

def modify (t : Table α) (missing : ε) (key : α → Bool) (f : α → Except ε α) :
    Except ε (Table α) := do
  let rows ← modifyRows missing key f t.rows
  return ⟨rows, t.nextId⟩

/-! ### What a change leaves -/

/-- `l'` is `l` with the first row of the key, `x`, replaced by `y`. -/
structure Replaced (key : α → Bool) (l l' : List α) (x y : α) : Prop where
  key_x : key x = true
  split : ∃ pre post, l = pre ++ x :: post ∧ l' = pre ++ y :: post ∧ ∀ z ∈ pre, key z = false

theorem modifyRows_ok {missing : ε} {key : α → Bool} {f : α → Except ε α} {l l' : List α}
    (h : modifyRows missing key f l = .ok l') :
    ∃ x y, f x = .ok y ∧ Replaced key l l' x y := by
  induction l generalizing l' with
  | nil => cases h
  | cons z zs ih =>
    unfold modifyRows at h
    split at h
    · next hz =>
      cases hf : f z with
      | error e =>
        rw [hf] at h
        cases h
      | ok y =>
        rw [hf] at h
        cases h
        exact ⟨z, y, hf, hz, [], zs, rfl, rfl, by simp⟩
    · next hz =>
      cases hr : modifyRows missing key f zs with
      | error e =>
        rw [hr] at h
        cases h
      | ok ys =>
        rw [hr] at h
        cases h
        obtain ⟨x, y, hf, hx, pre, post, rfl, rfl, hpre⟩ := ih hr
        refine ⟨x, y, hf, hx, z :: pre, post, rfl, rfl, ?_⟩
        intro w hw
        rcases List.mem_cons.mp hw with rfl | hw
        · simpa using hz
        · exact hpre w hw

theorem modify_ok {t t' : Table α} {missing : ε} {key : α → Bool} {f : α → Except ε α}
    (h : t.modify missing key f = .ok t') :
    ∃ x y, f x = .ok y ∧ Replaced key t.rows t'.rows x y ∧ t'.nextId = t.nextId := by
  unfold modify at h
  cases hr : modifyRows missing key f t.rows with
  | error e =>
    rw [hr] at h
    cases h
  | ok rows =>
    rw [hr] at h
    cases h
    obtain ⟨x, y, hf, hrep⟩ := modifyRows_ok hr
    exact ⟨x, y, hf, hrep, rfl⟩

/-- A row that is found and can be changed is changed. -/
theorem modify_of_find {t : Table α} {missing : ε} {key : α → Bool} {f : α → Except ε α} {x y : α}
    (hx : t.find key = some x) (hy : f x = .ok y) : ∃ t', t.modify missing key f = .ok t' := by
  have hrows : ∀ l : List α, l.find? key = some x → ∃ l', modifyRows missing key f l = .ok l' := by
    intro l hl
    induction l with
    | nil => cases hl
    | cons z zs ih =>
      unfold modifyRows
      by_cases hz : key z
      · rw [List.find?_cons_of_pos hz] at hl
        cases hl
        exact ⟨y :: zs, by rw [if_pos hz, hy]; rfl⟩
      · rw [List.find?_cons_of_neg hz] at hl
        obtain ⟨l', hl'⟩ := ih hl
        exact ⟨z :: l', by rw [if_neg hz, hl']; rfl⟩
  obtain ⟨l', hl'⟩ := hrows t.rows hx
  exact ⟨⟨l', t.nextId⟩, by unfold modify; rw [hl']; rfl⟩

namespace Replaced

variable {key : α → Bool} {l l' : List α} {x y : α}

theorem find_eq (h : Replaced key l l' x y) : l.find? key = some x := by
  obtain ⟨pre, post, rfl, -, hpre⟩ := h.split
  rw [List.find?_append, List.find?_eq_none.mpr (by simpa using hpre)]
  simp [h.key_x]

theorem mem (h : Replaced key l l' x y) : x ∈ l := List.mem_of_find?_eq_some h.find_eq

theorem of_mem (h : Replaced key l l' x y) {z : α} (hz : z ∈ l') : z ∈ l ∨ z = y := by
  obtain ⟨pre, post, rfl, rfl, -⟩ := h.split
  simp only [List.mem_append, List.mem_cons] at hz ⊢
  tauto

theorem map_eq {β : Type} (h : Replaced key l l' x y) {g : α → β} (hg : g y = g x) :
    l'.map g = l.map g := by
  obtain ⟨pre, post, rfl, rfl, -⟩ := h.split
  simp [hg]

theorem sum_eq {G : Type} [AddCommGroup G] (h : Replaced key l l' x y) (g : α → G) :
    (l'.map g).sum = (l.map g).sum + (g y - g x) := by
  obtain ⟨pre, post, rfl, rfl, -⟩ := h.split
  simp only [List.map_append, List.map_cons, List.sum_append, List.sum_cons]
  abel

end Replaced

/-! ### Rows with unique keys -/

/-- A replaced list holds the new row and those with other keys. -/
theorem Replaced.of_mem_nodup {β : Type} {key : α → Bool} {l l' : List α} {x y z : α} {f : α → β}
    (h : Replaced key l l' x y) (hn : (l.map f).Nodup) (hz : z ∈ l') :
    z = y ∨ z ∈ l ∧ f z ≠ f x := by
  obtain ⟨pre, post, rfl, rfl, -⟩ := h.split
  rw [List.map_append, List.map_cons, List.nodup_middle, List.nodup_cons, List.mem_append] at hn
  simp only [List.mem_append, List.mem_cons] at hz ⊢
  rcases hz with hz | rfl | hz
  · exact Or.inr ⟨Or.inl hz, fun he => hn.1 (Or.inl (he ▸ List.mem_map_of_mem hz))⟩
  · exact Or.inl rfl
  · exact Or.inr ⟨Or.inr (Or.inr hz), fun he => hn.1 (Or.inr (he ▸ List.mem_map_of_mem hz))⟩

theorem mem_remove_of_nodup {β : Type} [DecidableEq β] {t : Table α} {f : α → β} {b : β} {x : α}
    (hn : (t.rows.map f).Nodup) :
    x ∈ (t.remove fun y => f y == b).rows ↔ x ∈ t.rows ∧ f x ≠ b := by
  unfold remove
  cases hfind : t.rows.find? fun y => f y == b with
  | none =>
    have hnone := List.find?_eq_none.1 hfind
    rw [List.eraseP_of_forall_not hnone]
    constructor
    · exact fun hx => ⟨hx, by simpa using hnone x hx⟩
    · exact fun hx => hx.1
  | some y =>
    obtain ⟨hy, pre, post, hrows, hpre⟩ := List.find?_eq_some_iff_append.1 hfind
    have hyb : f y = b := by simpa using hy
    rw [hrows, List.eraseP_append_right _ (by simpa using hpre),
      List.eraseP_cons_of_pos (p := fun y => f y == b) hy]
    rw [hrows, List.map_append, List.map_cons, List.nodup_middle, List.nodup_cons,
      List.mem_append] at hn
    simp only [List.mem_append, List.mem_cons]
    constructor
    · rintro (hx | hx)
      · exact ⟨Or.inl hx, fun he => hn.1 (Or.inl ((hyb.trans he.symm) ▸ List.mem_map_of_mem hx))⟩
      · exact ⟨Or.inr (Or.inr hx),
          fun he => hn.1 (Or.inr ((hyb.trans he.symm) ▸ List.mem_map_of_mem hx))⟩
    · rintro ⟨hx | rfl | hx, he⟩
      · exact Or.inl hx
      · exact absurd hyb he
      · exact Or.inr hx

/-! ### Rows by their id -/

section Row

variable {id : α → Nat} {t t' : Table α} {i j : Nat} {x : α}

def row (id : α → Nat) (t : Table α) (i : Nat) : Option α := t.find fun x => id x == i

/-- Every id is given once, in order. -/
structure Keyed (id : α → Nat) (t : Table α) : Prop where
  nodup : (t.rows.map id).Nodup
  fresh : ∀ x ∈ t.rows, id x < t.nextId

theorem row_some (h : t.row id i = some x) : x ∈ t.rows ∧ id x = i :=
  ⟨List.mem_of_find?_eq_some h, eq_of_beq (List.find?_some (p := fun x => id x == i) h)⟩

theorem row_none : t.row id i = none ↔ ∀ x ∈ t.rows, id x ≠ i := by
  simp [row, find, List.find?_eq_none]

theorem row_of_nodup (h : (t.rows.map id).Nodup) (hx : x ∈ t.rows) (hi : id x = i) :
    t.row id i = some x := by
  cases hr : t.row id i with
  | none => exact absurd hi (row_none.1 hr x hx)
  | some y =>
    obtain ⟨hy, hyi⟩ := row_some hr
    rw [List.inj_on_of_nodup_map h hy hx (hyi.trans hi.symm)]

theorem Keyed.empty : Keyed id {} := ⟨List.nodup_nil, nofun⟩

namespace Keyed

theorem row_iff (h : Keyed id t) : t.row id i = some x ↔ x ∈ t.rows ∧ id x = i := by
  constructor
  · exact row_some
  · rintro ⟨hx, hi⟩
    exact row_of_nodup h.nodup hx hi

theorem create {r : Nat → α} (h : Keyed id t) (hr : id (r t.nextId) = t.nextId) :
    Keyed id (t.create r) := by
  constructor
  · have hrows : (t.create r).rows.map id = t.rows.map id ++ [t.nextId] := by
      rw [← hr]
      exact List.map_append
    rw [hrows]
    refine List.Nodup.append h.nodup (List.nodup_singleton _) ?_
    rw [List.disjoint_singleton]
    intro hmem
    obtain ⟨x, hx, hxi⟩ := List.mem_map.1 hmem
    exact Nat.ne_of_lt (h.fresh x hx) hxi
  · intro x hx
    rcases List.mem_append.1 hx with hx | hx
    · exact Nat.lt_succ_of_lt (h.fresh x hx)
    · rw [List.mem_singleton.1 hx, hr]
      exact Nat.lt_succ_self _

theorem row_create {r : Nat → α} (h : Keyed id t) (hr : id (r t.nextId) = t.nextId) :
    (t.create r).row id i = if i = t.nextId then some (r t.nextId) else t.row id i := by
  refine Option.ext fun x => ?_
  rw [(h.create hr).row_iff]
  split
  · next hi =>
    have hnot : x ∈ t.rows → id x ≠ t.nextId := fun hx => Nat.ne_of_lt (h.fresh x hx)
    simp only [Table.create, List.mem_append, List.mem_singleton, hi, Option.some.injEq]
    constructor
    · rintro ⟨hx | hx, hxi⟩
      · exact absurd hxi (hnot hx)
      · exact hx.symm
    · rintro rfl
      exact ⟨Or.inr rfl, hr⟩
  · next hi =>
    rw [h.row_iff]
    simp only [Table.create, List.mem_append, List.mem_singleton]
    constructor
    · rintro ⟨hx | rfl, hxi⟩
      · exact ⟨hx, hxi⟩
      · exact absurd (hxi.symm.trans hr) hi
    · rintro ⟨hx, hxi⟩
      exact ⟨Or.inl hx, hxi⟩

theorem mem_remove (h : Keyed id t) :
    x ∈ (t.remove fun y => id y == i).rows ↔ x ∈ t.rows ∧ id x ≠ i := mem_remove_of_nodup h.nodup

theorem remove (h : Keyed id t) (i : Nat) : Keyed id (t.remove fun y => id y == i) := by
  constructor
  · exact h.nodup.sublist (List.Sublist.map id List.eraseP_sublist)
  · exact fun x hx => h.fresh x (List.mem_of_mem_eraseP hx)

theorem row_remove (h : Keyed id t) :
    (t.remove fun y => id y == i).row id j = if j = i then none else t.row id j := by
  refine Option.ext fun x => ?_
  rw [(h.remove i).row_iff, h.mem_remove]
  split
  · next hj =>
    refine iff_of_false ?_ nofun
    rintro ⟨⟨-, hxi⟩, hxj⟩
    exact hxi (hxj.trans hj)
  · next hj =>
    rw [h.row_iff]
    constructor
    · rintro ⟨⟨hx, -⟩, hxj⟩
      exact ⟨hx, hxj⟩
    · rintro ⟨hx, rfl⟩
      exact ⟨⟨hx, hj⟩, rfl⟩

/-- A row is replaced by what a function that keeps its id makes of it. -/
theorem modify {missing : ε} {f : α → Except ε α} (h : Keyed id t)
    (ht : t.modify missing (fun y => id y == i) f = .ok t')
    (hf : ∀ x y, t.row id i = some x → f x = .ok y → id y = id x) :
    Keyed id t' ∧ t'.nextId = t.nextId ∧ ∃ x y, t.row id i = some x ∧ f x = .ok y ∧
      ∀ j, t'.row id j = if j = i then some y else t.row id j := by
  obtain ⟨x, y, hxy, hrep, hnext⟩ := modify_ok ht
  have hyx := hf x y hrep.find_eq hxy
  have hxi : id x = i := by simpa using hrep.key_x
  have hids : t'.rows.map id = t.rows.map id := hrep.map_eq hyx
  have hkeyed : Keyed id t' := by
    constructor
    · rw [hids]
      exact h.nodup
    · intro z hz
      rw [hnext]
      rcases hrep.of_mem hz with hz | rfl
      · exact h.fresh z hz
      · rw [hyx]
        exact h.fresh x hrep.mem
  refine ⟨hkeyed, hnext, x, y, hrep.find_eq, hxy, fun j => Option.ext fun z => ?_⟩
  rw [hkeyed.row_iff]
  obtain ⟨pre, post, hl, hl', -⟩ := hrep.split
  have hnodup := h.nodup
  rw [hl, List.map_append, List.map_cons, List.nodup_middle, List.nodup_cons, List.mem_append]
    at hnodup
  have hother : z ∈ pre ∨ z ∈ post → id z ≠ i := by
    rintro hz hzi
    refine hnodup.1 ?_
    rw [hxi, ← hzi]
    exact hz.imp (List.mem_map_of_mem (f := id)) (List.mem_map_of_mem (f := id))
  split
  · next hj =>
    rw [hl']
    simp only [List.mem_append, List.mem_cons, Option.some.injEq, hj]
    constructor
    · rintro ⟨hz | hz | hz, hzi⟩
      · exact absurd hzi (hother (Or.inl hz))
      · exact hz.symm
      · exact absurd hzi (hother (Or.inr hz))
    · rintro rfl
      exact ⟨Or.inr (Or.inl rfl), hyx.trans hxi⟩
  · next hj =>
    rw [h.row_iff, hl, hl']
    simp only [List.mem_append, List.mem_cons]
    constructor
    · rintro ⟨hz | rfl | hz, hzj⟩
      · exact ⟨Or.inl hz, hzj⟩
      · exact absurd (hzj.symm.trans (hyx.trans hxi)) hj
      · exact ⟨Or.inr (Or.inr hz), hzj⟩
    · rintro ⟨hz | rfl | hz, hzj⟩
      · exact ⟨Or.inl hz, hzj⟩
      · exact absurd (hzj.symm.trans hxi) hj
      · exact ⟨Or.inr (Or.inr hz), hzj⟩

end Keyed

end Row

/-! ### Sums over a table -/

section Sum

variable {G : Type} [AddCommGroup G]

def sum (t : Table α) (g : α → G) : G := (t.rows.map g).sum

@[simp] theorem sum_create (t : Table α) (row : Nat → α) (g : α → G) :
    (t.create row).sum g = t.sum g + g (row t.nextId) := by
  simp [sum, create]

theorem sum_remove {t : Table α} {key : α → Bool} {x : α} (h : t.find key = some x) (g : α → G) :
    (t.remove key).sum g = t.sum g - g x := by
  unfold find at h
  unfold sum remove
  obtain ⟨pre, post, hl, hpre⟩ := List.find?_eq_some_iff_append.mp h |>.2
  rw [hl, List.eraseP_append_right _ (by simpa using hpre)]
  have hx : key x = true := List.find?_some h
  simp only [List.eraseP_cons_of_pos hx, List.map_append, List.map_cons, List.sum_append,
    List.sum_cons]
  abel

theorem sum_modify {t t' : Table α} {missing : ε} {key : α → Bool} {f : α → Except ε α}
    (h : t.modify missing key f = .ok t') {g : α → G} {d : G}
    (hf : ∀ x y, t.find key = some x → f x = .ok y → g y = g x + d) :
    t'.sum g = t.sum g + d := by
  obtain ⟨x, y, hxy, hrep, -⟩ := modify_ok h
  unfold sum
  rw [hrep.sum_eq g, hf x y hrep.find_eq hxy]
  abel

theorem sum_filter {t : Table α} {g : α → G} (keep : α → Bool)
    (h : ∀ x ∈ t.rows, keep x = false → g x = 0) :
    ({ t with rows := t.rows.filter keep } : Table α).sum g = t.sum g := by
  unfold sum
  have hl := h
  generalize t.rows = l at hl
  induction l with
  | nil => rfl
  | cons x l ih =>
    have ih := ih fun y hy => hl y (List.mem_cons_of_mem x hy)
    cases hx : keep x with
    | true => rw [List.filter_cons_of_pos hx, List.map_cons, List.map_cons, List.sum_cons,
        List.sum_cons, ih]
    | false => rw [List.filter_cons_of_neg (by simp [hx]), List.map_cons, List.sum_cons, ih,
        hl x List.mem_cons_self hx, zero_add]

end Sum

end Table

end WeNode.Lib

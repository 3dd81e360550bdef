import WeNode.Chainbase.GenericIndex
import WeNode.Lib.KeyedFold

/-!
# Undo sessions restore an index

What an undo state holds of one id says how the object of the id came from what it was when the
session started: the table in the comment of `squash` (chainbase.hpp:357-379).
-/

namespace WeNode.Chainbase

open Std WeNode.Lib

variable {α : Type} {clash : α → α → Bool}

/-! ### Notes of one id -/

/-- What an undo state holds of one id. -/
structure Note (α : Type) where
  new : Bool
  old : Option α
  removed : Option α

namespace Note

def modify (n : Note α) (v : α) : Note α :=
  if n.new then n else if n.old.isSome then n else { n with old := some v }

def remove (n : Note α) (v : α) : Note α :=
  if n.new then { n with new := false }
  else { n with old := none, removed := n.removed <|> n.old <|> some v }

def create (n : Note α) : Note α := { n with new := true }

end Note

def UndoState.noted (u : UndoState α) (id : Nat) : Note α :=
  ⟨u.newIds.contains id, u.oldValues[id]?, u.removedValues[id]?⟩

/-- The object of an id `before` the session and `now`, and the note of it.  An object that a
failed `modify` erased is `lost`. -/
inductive Entry (lost : Prop) : Note α → (before now : Option α) → Prop
  | new (y : α) : Entry lost ⟨true, none, none⟩ none (some y)
  | upd (x y : α) : Entry lost ⟨false, some x, none⟩ (some x) (some y)
  | del (x : α) : Entry lost ⟨false, none, some x⟩ (some x) none
  | nop (o : Option α) : Entry lost ⟨false, none, none⟩ o o
  | lostNew (h : lost) : Entry lost ⟨true, none, none⟩ none none
  | lostUpd (h : lost) (x : α) : Entry lost ⟨false, some x, none⟩ (some x) none

namespace Entry

variable {lost : Prop} {n n' : Note α} {a b c : Option α} {v : α}

theorem modify (h : Entry lost n a (some v)) (w : α) : Entry lost (n.modify v) a (some w) := by
  cases h with
  | new => exact .new w
  | upd x => exact .upd x w
  | nop => exact .upd v w

theorem lose (h : Entry lost n a (some v)) (hl : lost) : Entry lost (n.modify v) a none := by
  cases h with
  | new => exact .lostNew hl
  | upd x => exact .lostUpd hl x
  | nop => exact .lostUpd hl v

theorem remove (h : Entry lost n a (some v)) : Entry lost (n.remove v) a none := by
  cases h with
  | new => exact .nop none
  | upd x => exact .del x
  | nop => exact .del v

theorem create (h : Entry lost n none none) (hn : n.new = false) (w : α) :
    Entry lost n.create none (some w) := by
  cases h with
  | nop => exact .new w
  | lostNew => cases hn

/-- Without losses the object of a note is there. -/
theorem present (h : Entry False n a b) (hn : n.new = true ∨ n.old.isSome) : b.isSome := by
  cases h with
  | new => rfl
  | upd => rfl
  | del => simp at hn
  | nop => simp at hn
  | lostNew hl => exact hl.elim
  | lostUpd hl => exact hl.elim

theorem weaken (h : Entry False n a b) : Entry True n a b := by
  cases h with
  | new y => exact .new y
  | upd x y => exact .upd x y
  | del x => exact .del x
  | nop => exact .nop _
  | lostNew hl => exact hl.elim
  | lostUpd hl => exact hl.elim

theorem before_of_old (h : Entry lost n a b) (hn : n.old = some v) : a = some v := by
  cases h <;> simp_all

theorem old_of_new (h : Entry lost n a b) (hn : n.new = true) : n.old = none := by
  cases h <;> simp_all

/-- An object without an old value is new or as it was. -/
theorem new_or_same (h : Entry lost n a (some v)) (hn : n.old = none) :
    n.new = true ∨ a = some v := by
  cases h <;> simp_all

end Entry

/-! ### The notes follow the changes -/

namespace UndoState

variable (u : UndoState α) (id k : Nat) (v : α)

theorem noted_onModify :
    (u.onModify id v).noted k = if k = id then (u.noted k).modify v else u.noted k := by
  unfold onModify noted Note.modify
  by_cases hn : id ∈ u.newIds
  · by_cases hk : k = id <;> simp [hn, hk]
  · by_cases ho : id ∈ u.oldValues
    · by_cases hk : k = id <;> simp [hn, ho, hk]
    · have ho' : u.oldValues[id]? = none := ExtTreeMap.getElem?_eq_none ho
      simp only [if_neg hn, if_neg ho, get_insertIfNew]
      by_cases hk : k = id <;> simp [hn, ho', hk]

theorem noted_onRemove :
    (u.onRemove id v).noted k = if k = id then (u.noted k).remove v else u.noted k := by
  unfold onRemove noted Note.remove
  by_cases hn : id ∈ u.newIds
  · by_cases hk : k = id
    · simp [hn, hk]
    · have hk' : ¬ id = k := fun e => hk e.symm
      simp [hn, hk, hk', ExtTreeSet.contains_erase]
  · cases ho : u.oldValues[id]? with
    | some old =>
      simp only [if_neg hn, get_insertIfNew, get_erase]
      by_cases hk : k = id <;> simp [hn, ho, hk]
    | none =>
      by_cases hr : id ∈ u.removedValues
      · by_cases hk : k = id <;> simp [hn, ho, hr, hk]
      · have hr' : u.removedValues[id]? = none := ExtTreeMap.getElem?_eq_none hr
        simp only [if_neg hn, if_neg hr, get_insertIfNew]
        by_cases hk : k = id <;> simp [hn, ho, hr', hk]

theorem onModify_newIds : (u.onModify id v).newIds = u.newIds := by
  unfold onModify
  split
  · rfl
  · split <;> rfl

theorem onModify_oldNextId : (u.onModify id v).oldNextId = u.oldNextId := by
  unfold onModify
  split
  · rfl
  · split <;> rfl

theorem onModify_revision : (u.onModify id v).revision = u.revision := by
  unfold onModify
  split
  · rfl
  · split <;> rfl

theorem onRemove_revision : (u.onRemove id v).revision = u.revision := by
  unfold onRemove
  split
  · rfl
  · split
    · rfl
    · split <;> rfl

theorem onRemove_oldNextId : (u.onRemove id v).oldNextId = u.oldNextId := by
  unfold onRemove
  split
  · rfl
  · split
    · rfl
    · split <;> rfl

variable {id k v} in
theorem mem_newIds_of_onRemove (h : k ∈ (u.onRemove id v).newIds) : k ∈ u.newIds := by
  unfold onRemove at h
  split at h
  · exact ExtTreeSet.mem_of_mem_erase h
  · split at h
    · exact h
    · split at h <;> exact h

theorem noted_onCreate :
    (u.onCreate id).noted k = if k = id then (u.noted k).create else u.noted k := by
  unfold onCreate noted Note.create
  by_cases hk : k = id
  · subst hk
    simp [ExtTreeSet.contains_insert]
  · have hk' : ¬ id = k := fun e => hk e.symm
    simp [hk, hk', ExtTreeSet.contains_insert]

section

variable {u} {id} {v} {lost : Prop} {before now : ExtTreeMap Nat α}

/-- The entries of all ids follow a change of one. -/
theorem entries_change (id : Nat) {u' : UndoState α} {now' : ExtTreeMap Nat α}
    (h : ∀ k : Nat, Entry lost (u.noted k) before[k]? now[k]?)
    (hid : Entry lost (u'.noted id) before[id]? now'[id]?)
    (hnotes : ∀ k, k ≠ id → u'.noted k = u.noted k) (hnow : ∀ k, k ≠ id → now'[k]? = now[k]?)
    (k : Nat) : Entry lost (u'.noted k) before[k]? now'[k]? := by
  by_cases hk : k = id
  · rw [hk]
    exact hid
  · rw [hnotes k hk, hnow k hk]
    exact h k

theorem entries_modify (h : ∀ k : Nat, Entry lost (u.noted k) before[k]? now[k]?)
    (hv : now[id]? = some v) (w : α) :
    ∀ k, Entry lost ((u.onModify id v).noted k) before[k]? (now.insert id w)[k]? := by
  have hid := h id
  rw [hv] at hid
  refine entries_change id h ?_ (fun k hk => ?_) fun k hk => ?_
  · rw [noted_onModify, if_pos rfl, get_insert, if_pos rfl]
    exact hid.modify w
  · rw [noted_onModify, if_neg hk]
  · rw [get_insert, if_neg hk]

theorem entries_lose (h : ∀ k : Nat, Entry lost (u.noted k) before[k]? now[k]?)
    (hv : now[id]? = some v) (hl : lost) :
    ∀ k, Entry lost ((u.onModify id v).noted k) before[k]? (now.erase id)[k]? := by
  have hid := h id
  rw [hv] at hid
  refine entries_change id h ?_ (fun k hk => ?_) fun k hk => ?_
  · rw [noted_onModify, if_pos rfl, get_erase, if_pos rfl]
    exact hid.lose hl
  · rw [noted_onModify, if_neg hk]
  · rw [get_erase, if_neg hk]

theorem entries_remove (h : ∀ k : Nat, Entry lost (u.noted k) before[k]? now[k]?)
    (hv : now[id]? = some v) :
    ∀ k, Entry lost ((u.onRemove id v).noted k) before[k]? (now.erase id)[k]? := by
  have hid := h id
  rw [hv] at hid
  refine entries_change id h ?_ (fun k hk => ?_) fun k hk => ?_
  · rw [noted_onRemove, if_pos rfl, get_erase, if_pos rfl]
    exact hid.remove
  · rw [noted_onRemove, if_neg hk]
  · rw [get_erase, if_neg hk]

theorem entries_create (h : ∀ k : Nat, Entry lost (u.noted k) before[k]? now[k]?)
    (hnone : now[id]? = none) (hbefore : before[id]? = none) (hnew : (u.noted id).new = false)
    (w : α) :
    ∀ k, Entry lost ((u.onCreate id).noted k) before[k]? (now.insert id w)[k]? := by
  have hid := h id
  rw [hnone, hbefore] at hid
  refine entries_change id h ?_ (fun k hk => ?_) fun k hk => ?_
  · rw [noted_onCreate, if_pos rfl, get_insert, if_pos rfl, hbefore]
    exact hid.create hnew w
  · rw [noted_onCreate, if_neg hk]
  · rw [get_insert, if_neg hk]

end

theorem squashRemoved_eq (p : Nat × α) : u.squashRemoved p = u.onRemove p.1 p.2 := by
  unfold squashRemoved onRemove
  split
  · rfl
  · split
    · rfl
    · split
      · next hr =>
        have he : u.removedValues.insertIfNew p.1 p.2 = u.removedValues := by
          apply ExtTreeMap.ext_getElem?
          intro j
          rw [get_insertIfNew]
          split
          · next hj =>
            obtain ⟨w, hw⟩ :=
              Option.isSome_iff_exists.mp (ExtTreeMap.mem_iff_isSome_getElem?.mp (hj ▸ hr))
            rw [hw]
            rfl
          · rfl
        rw [he]
      · rfl

end UndoState

/-! ### Merging -/

/- The note of an id in a merged state. -/
def Note.merge (prev state : Note α) : Note α :=
  let prev := state.old.elim prev prev.modify
  let prev := if state.new then prev.create else prev
  state.removed.elim prev prev.remove

theorem Note.new_of_merge {prev state : Note α} (h : (prev.merge state).new = true) :
    prev.new = true ∨ state.new = true := by
  obtain ⟨n, o, r⟩ := prev
  obtain ⟨n', o', r'⟩ := state
  cases n <;> cases n' <;> cases o <;> cases o' <;> cases r' <;>
    simp_all [Note.merge, Note.modify, Note.create, Note.remove]

theorem local_squashOld : Local Prod.fst (@UndoState.noted α) UndoState.squashOld
    fun n p => n.modify p.2 where
  self u p := by
    rw [show u.squashOld p = u.onModify p.1 p.2 from rfl, u.noted_onModify, if_pos rfl]
  other u p k hk := by
    rw [show u.squashOld p = u.onModify p.1 p.2 from rfl, u.noted_onModify, if_neg hk]

theorem local_squashNew : Local id (@UndoState.noted α) UndoState.squashNew
    fun n _ => n.create where
  self u i := by
    rw [show u.squashNew i = u.onCreate i from rfl, id, u.noted_onCreate, if_pos rfl]
  other u i k hk := by
    rw [show u.squashNew i = u.onCreate i from rfl, u.noted_onCreate]
    exact if_neg hk

theorem local_squashRemoved : Local Prod.fst (@UndoState.noted α) UndoState.squashRemoved
    fun n p => n.remove p.2 where
  self u p := by rw [u.squashRemoved_eq, u.noted_onRemove, if_pos rfl]
  other u p k hk := by rw [u.squashRemoved_eq, u.noted_onRemove, if_neg hk]

theorem noted_merge (prev state : UndoState α) (k : Nat) :
    (prev.merge state).noted k = (prev.noted k).merge (state.noted k) := by
  unfold UndoState.merge Note.merge
  dsimp only
  rw [local_squashRemoved.foldl_toList, local_squashNew.foldl_toSet, local_squashOld.foldl_toList]
  simp only [UndoState.noted]
  cases state.oldValues[k]? <;> cases state.removedValues[k]? <;> simp

/-- Merging keeps what none of the three notes changes. -/
theorem merge_keeps {τ : Type} (g : UndoState α → τ)
    (hold : ∀ (u : UndoState α) id v, g (u.onModify id v) = g u)
    (hnew : ∀ (u : UndoState α) id, g (u.onCreate id) = g u)
    (hrem : ∀ (u : UndoState α) id v, g (u.onRemove id v) = g u) (prev state : UndoState α) :
    g (prev.merge state) = g prev := by
  have hrem' : ∀ (u : UndoState α) p, g (u.squashRemoved p) = g u := by
    intro u p
    rw [u.squashRemoved_eq, hrem]
  have hnew' : ∀ (u : UndoState α) i, g (u.squashNew i) = g u := hnew
  have hold' : ∀ (u : UndoState α) p, g (u.squashOld p) = g u := fun u p => hold u p.1 p.2
  unfold UndoState.merge
  dsimp only
  rw [foldl_keeps g hrem', foldl_keeps g hnew', foldl_keeps g hold']

theorem merge_oldNextId (prev state : UndoState α) :
    (prev.merge state).oldNextId = prev.oldNextId :=
  merge_keeps UndoState.oldNextId UndoState.onModify_oldNextId (fun _ _ => rfl)
    UndoState.onRemove_oldNextId prev state

theorem merge_revision (prev state : UndoState α) :
    (prev.merge state).revision = prev.revision :=
  merge_keeps UndoState.revision UndoState.onModify_revision (fun _ _ => rfl)
    UndoState.onRemove_revision prev state

/-- The table of `squash`; a new object was not there before either session. -/
theorem Entry.merge {n n' : Note α} {a b c : Option α} (h : Entry False n a b)
    (h' : Entry False n' b c) (hnew : n'.new = true → a = none) : Entry False (n.merge n') a c := by
  cases h' with
  | new y =>
    obtain rfl := hnew rfl
    cases h with
    | nop => exact .new y
    | lostNew hl => exact hl.elim
  | upd y z => exact h.modify z
  | del y => exact h.remove
  | nop => exact h
  | lostNew hl => exact hl.elim
  | lostUpd hl => exact hl.elim

/-! ### Restoring -/

/- No two objects have a unique key in common. -/
def Distinct (clash : α → α → Bool) (m : ExtTreeMap Nat α) : Prop :=
  ∀ (i j : Nat) (x y : α), i ≠ j → m[i]? = some x → m[j]? = some y → clash y x = false

/- No new object, and no changed one that is restored later, has a key of the old value. -/
def Free (clash : α → α → Bool) (u : UndoState α) (m : ExtTreeMap Nat α) (i : Nat) (x : α) : Prop :=
  ∀ (j : Nat) (y : α), m[j]? = some y → (j ∈ u.newIds ∨ i < j ∧ j ∈ u.oldValues) → clash y x = false

/-- What the container has to be like for `undo` to succeed. -/
structure Clear (clash : α → α → Bool) (u : UndoState α) (m : ExtTreeMap Nat α) : Prop where
  new : ∀ id ∈ u.newIds, id ∈ m
  old : ∀ (id : Nat) (x : α), u.oldValues[id]? = some x → id ∈ m ∧ Free clash u m id x

theorem taken_eq_false {m : ExtTreeMap Nat α} {id : Nat} {v : α} :
    taken clash m id v = false ↔ ∀ (j : Nat) (y : α), m[j]? = some y → j ≠ id → clash y v = false := by
  unfold taken
  rw [List.any_eq_false]
  constructor
  · intro h j y hj hne
    simpa [hne] using h (j, y) (ExtTreeMap.mem_toList_iff_getElem?_eq_some.mpr hj)
  · intro h p hp
    have := h p.1 p.2 (ExtTreeMap.mem_toList_iff_getElem?_eq_some.mp hp)
    simpa using this

/-- The container while the old values are restored: those of `l` are still to come. -/
structure Restoring (u : UndoState α) (m : ExtTreeMap Nat α) (l : List (Nat × α))
    (cur : ExtTreeMap Nat α) : Prop where
  entries : ∀ p ∈ l, u.oldValues[p.1]? = some p.2
  sorted : l.Pairwise fun a b => a.1 < b.1
  later : ∀ p ∈ l, ∀ (j : Nat) (y : α), u.oldValues[j]? = some y → p.1 < j → (j, y) ∈ l
  todo : ∀ p ∈ l, cur[p.1]? = m[p.1]?
  done : ∀ (j : Nat) (y : α), u.oldValues[j]? = some y → j ∉ l.map Prod.fst → cur[j]? = some y
  rest : ∀ j : Nat, u.oldValues[j]? = none → cur[j]? = m[j]?

namespace Restoring

variable {u : UndoState α} {m b cur : ExtTreeMap Nat α} {l : List (Nat × α)} {p : Nat × α}

theorem start (u : UndoState α) (m : ExtTreeMap Nat α) : Restoring u m u.oldValues.toList m where
  entries p hp := ExtTreeMap.mem_toList_iff_getElem?_eq_some.mp hp
  sorted := sorted_keys_toList u.oldValues
  later _ _ _ _ hy _ := ExtTreeMap.mem_toList_iff_getElem?_eq_some.mpr hy
  todo _ _ := rfl
  done j y hy hj := by
    have hmem : (j, y) ∈ u.oldValues.toList := ExtTreeMap.mem_toList_iff_getElem?_eq_some.mpr hy
    exact absurd (List.mem_map_of_mem hmem) hj
  rest _ _ := rfl

theorem step (h : Restoring u m (p :: l) cur) : Restoring u m l (cur.insert p.1 p.2) where
  entries q hq := h.entries q (List.mem_cons_of_mem _ hq)
  sorted := h.sorted.of_cons
  later q hq j y hy hlt := by
    have hpq := (List.pairwise_cons.mp h.sorted).1 q hq
    rcases List.mem_cons.mp (h.later q (List.mem_cons_of_mem _ hq) j y hy hlt) with he | hmem
    · have : p.1 = j := by rw [← he]
      omega
    · exact hmem
  todo q hq := by
    have hpq := (List.pairwise_cons.mp h.sorted).1 q hq
    rw [get_insert, if_neg (by omega)]
    exact h.todo q (List.mem_cons_of_mem _ hq)
  done j y hy hj := by
    rw [get_insert]
    split
    · next he =>
      rw [← h.entries p (by simp), ← he]
      exact hy
    · next hne => exact h.done j y hy (by simpa [hne] using hj)
  rest j hj := by
    have hne : j ≠ p.1 := by
      rintro rfl
      rw [h.entries p (by simp)] at hj
      cases hj
    rw [get_insert, if_neg hne]
    exact h.rest j hj

/-- Only new objects and those restored later can stand in the way of an old value. -/
theorem taken_iff (h : Restoring u m (p :: l) cur) (hb : Distinct clash b)
    (he : ∀ id, Entry True (u.noted id) b[id]? m[id]?) :
    taken clash cur p.1 p.2 = false ↔ Free clash u m p.1 p.2 := by
  have hp : u.oldValues[p.1]? = some p.2 := h.entries p (by simp)
  have hbp : b[p.1]? = some p.2 := (he p.1).before_of_old hp
  rw [taken_eq_false]
  constructor
  · intro ht j y hj hor
    rcases hor with hnew | ⟨hlt, hold⟩
    · have hnone : u.oldValues[j]? = none :=
        (he j).old_of_new (ExtTreeSet.mem_iff_contains.mp hnew)
      have hne : j ≠ p.1 := by
        rintro rfl
        rw [hp] at hnone
        cases hnone
      exact ht j y ((h.rest j hnone).trans hj) hne
    · obtain ⟨z, hz⟩ := Option.isSome_iff_exists.mp (ExtTreeMap.mem_iff_isSome_getElem?.mp hold)
      have hmem := h.later p (by simp) j z hz hlt
      exact ht j y ((h.todo _ hmem).trans hj) (by omega)
  · intro hf j y hj hne
    cases ho : u.oldValues[j]? with
    | none =>
      rw [h.rest j ho] at hj
      have hj' := he j
      rw [hj] at hj'
      rcases hj'.new_or_same ho with hn | hbj
      · exact hf j y hj (.inl (ExtTreeSet.mem_iff_contains.mpr hn))
      · exact hb p.1 j p.2 y hne.symm hbp hbj
    | some z =>
      by_cases hlt : p.1 < j
      · have hmem := h.later p (by simp) j z ho hlt
        rw [h.todo _ hmem] at hj
        exact hf j y hj (.inr ⟨hlt, ExtTreeMap.mem_iff_isSome_getElem?.mpr (by simp [ho])⟩)
      · have hnot : j ∉ (p :: l).map Prod.fst := by
          intro hmem
          obtain ⟨q, hq, rfl⟩ := List.mem_map.mp hmem
          rcases List.mem_cons.mp hq with rfl | hq
          · exact hne rfl
          · exact hlt ((List.pairwise_cons.mp h.sorted).1 q hq)
        have hbj : b[j]? = some z := (he j).before_of_old ho
        have hcur := h.done j z ho hnot
        rw [hj] at hcur
        cases hcur
        exact hb p.1 j p.2 y hne.symm hbp hbj

theorem of_foldlM (hb : Distinct clash b) (he : ∀ id, Entry True (u.noted id) b[id]? m[id]?)
    (h : Restoring u m l cur) (r : ExtTreeMap Nat α) :
    l.foldlM (restoreOld clash) cur = .ok r →
      (∀ p ∈ l, p.1 ∈ m ∧ Free clash u m p.1 p.2) ∧ Restoring u m [] r := by
  induction l generalizing cur with
  | nil =>
    intro hr
    cases hr
    exact ⟨by simp, h⟩
  | cons p l ih =>
    intro hr
    have hin : p.1 ∈ cur ↔ p.1 ∈ m := by
      rw [ExtTreeMap.mem_iff_isSome_getElem?, ExtTreeMap.mem_iff_isSome_getElem?,
        h.todo p (by simp)]
    rw [List.foldlM_cons] at hr
    unfold restoreOld at hr
    split at hr
    · next hmem =>
      cases ht : taken clash cur p.1 p.2 with
      | true => simp [ht, bind, Except.bind] at hr
      | false =>
        simp only [ht, Bool.false_eq_true, if_false] at hr
        obtain ⟨hl, hres⟩ := ih h.step hr
        refine ⟨?_, hres⟩
        intro q hq
        rcases List.mem_cons.mp hq with rfl | hq
        · exact ⟨hin.mp hmem, (h.taken_iff hb he).mp ht⟩
        · exact hl q hq
    · cases hr

theorem foldlM_ok (hb : Distinct clash b) (he : ∀ id : Nat, Entry True (u.noted id) b[id]? m[id]?)
    (h : Restoring u m l cur) (hl : ∀ p ∈ l, p.1 ∈ m ∧ Free clash u m p.1 p.2) :
    ∃ r, l.foldlM (restoreOld clash) cur = .ok r := by
  induction l generalizing cur with
  | nil => exact ⟨cur, rfl⟩
  | cons p l ih =>
    obtain ⟨hin, hfree⟩ := hl p (by simp)
    have hcur : p.1 ∈ cur := by
      rw [ExtTreeMap.mem_iff_isSome_getElem?, h.todo p (by simp),
        ← ExtTreeMap.mem_iff_isSome_getElem?]
      exact hin
    have ht : taken clash cur p.1 p.2 = false := (h.taken_iff hb he).mpr hfree
    obtain ⟨r, hr⟩ := ih h.step fun q hq => hl q (List.mem_cons_of_mem _ hq)
    refine ⟨r, ?_⟩
    rw [List.foldlM_cons, restoreOld, if_pos hcur, ht]
    exact hr

end Restoring

theorem of_eraseNew {l : List Nat} {cur r : ExtTreeMap Nat α}
    (h : l.foldlM eraseNew cur = .ok r) : ∀ id ∈ l, id ∈ cur := by
  induction l generalizing cur with
  | nil => simp
  | cons i l ih =>
    rw [List.foldlM_cons, eraseNew] at h
    split at h
    · next hi =>
      intro id hid
      rcases List.mem_cons.mp hid with rfl | hid
      · exact hi
      · exact ExtTreeMap.mem_of_mem_erase (ih h id hid)
    · cases h

theorem eraseNew_ok {l : List Nat} (hl : l.Nodup) {cur : ExtTreeMap Nat α}
    (h : ∀ id ∈ l, id ∈ cur) :
    ∃ r : ExtTreeMap Nat α, l.foldlM eraseNew cur = .ok r ∧
      ∀ k : Nat, r[k]? = if k ∈ l then none else cur[k]? := by
  induction l generalizing cur with
  | nil => exact ⟨cur, rfl, by simp⟩
  | cons i l ih =>
    obtain ⟨hi, hl⟩ := List.nodup_cons.mp hl
    have hmem : ∀ id ∈ l, id ∈ cur.erase i := by
      intro id hid
      rw [ExtTreeMap.mem_erase]
      refine ⟨?_, h id (List.mem_cons_of_mem _ hid)⟩
      intro he
      rw [Nat.compare_eq_eq.mp he] at hi
      exact hi hid
    obtain ⟨r, hr, hk⟩ := ih hl hmem
    refine ⟨r, ?_, ?_⟩
    · rw [List.foldlM_cons, eraseNew, if_pos (h i (by simp))]
      exact hr
    · intro k
      rw [hk, get_erase]
      by_cases hki : k = i <;> by_cases hkl : k ∈ l <;> simp [hki, hkl]

/-- What was removed has its place in a part of the container it was removed from. -/
theorem restoreRemoved_ok {l : List (Nat × α)} (hl : (l.map Prod.fst).Nodup)
    {b cur : ExtTreeMap Nat α} (hb : Distinct clash b)
    (hcur : ∀ (k : Nat) (y : α), cur[k]? = some y → b[k]? = some y)
    (h : ∀ p ∈ l, b[p.1]? = some p.2 ∧ cur[p.1]? = none) :
    ∃ r : ExtTreeMap Nat α, l.foldlM (restoreRemoved clash) cur = .ok r ∧
      ∀ k : Nat, r[k]? = if k ∈ l.map Prod.fst then b[k]? else cur[k]? := by
  induction l generalizing cur with
  | nil => exact ⟨cur, rfl, by simp⟩
  | cons p l ih =>
    obtain ⟨hp, hl⟩ := List.nodup_cons.mp hl
    obtain ⟨hbp, hnone⟩ := h p (by simp)
    have hcur' : ∀ (k : Nat) (y : α), (cur.insert p.1 p.2)[k]? = some y → b[k]? = some y := by
      intro k y hk
      rw [get_insert] at hk
      split at hk
      · next he =>
        rw [he, hbp]
        exact hk
      · exact hcur k y hk
    have htodo : ∀ q ∈ l, b[q.1]? = some q.2 ∧ (cur.insert p.1 p.2)[q.1]? = none := by
      intro q hq
      obtain ⟨hbq, hq'⟩ := h q (List.mem_cons_of_mem _ hq)
      refine ⟨hbq, ?_⟩
      have hne : q.1 ≠ p.1 := fun e => hp (e ▸ List.mem_map_of_mem hq)
      rw [get_insert, if_neg hne]
      exact hq'
    obtain ⟨r, hr, hk⟩ := ih hl hcur' htodo
    refine ⟨r, ?_, ?_⟩
    · have hnot : ¬ (p.1 ∈ cur ∨ taken clash cur p.1 p.2 = true) := by
        rintro (hin | ht)
        · rw [ExtTreeMap.mem_iff_isSome_getElem?, hnone] at hin
          cases hin
        · have hfree : taken clash cur p.1 p.2 = false :=
            taken_eq_false.mpr fun j y hj hne => hb p.1 j p.2 y hne.symm hbp (hcur j y hj)
          rw [hfree] at ht
          cases ht
      rw [List.foldlM_cons, restoreRemoved, if_neg hnot]
      exact hr
    · intro k
      rw [hk, get_insert]
      by_cases hkp : k = p.1
      · subst hkp
        simp [hp, hbp]
      · by_cases hkl : k ∈ l.map Prod.fst <;> simp [hkp, hkl]

/- What an undo state keeps of the container while it is restored: no new object, the old value of
a changed one. -/
def Note.kept (n : Note α) (now : Option α) : Option α := if n.new then none else n.old <|> now

theorem Entry.kept_sub {n : Note α} {a b : Option α} {v : α} (h : Entry True n a b)
    (hv : n.kept b = some v) : a = some v := by
  cases h <;> simp_all [Note.kept]

theorem Entry.before_of_removed {n : Note α} {a b : Option α} {v : α} (h : Entry True n a b)
    (hv : n.removed = some v) : a = some v ∧ n.kept b = none := by
  cases h <;> simp_all [Note.kept]

theorem Entry.kept_eq {n : Note α} {a b : Option α} (h : Entry True n a b)
    (hv : n.removed = none) : n.kept b = a := by
  cases h <;> simp_all [Note.kept]

section Restore

variable {u : UndoState α} {m b : ExtTreeMap Nat α}

theorem clear_of_restore (hb : Distinct clash b)
    (he : ∀ id : Nat, Entry True (u.noted id) b[id]? m[id]?) {r : ExtTreeMap Nat α}
    (hr : u.restore clash m = .ok r) : Clear clash u m := by
  unfold UndoState.restore at hr
  cases h1 : u.oldValues.toList.foldlM (restoreOld clash) m with
  | error e =>
    rw [h1] at hr
    cases hr
  | ok r₁ =>
    rw [h1] at hr
    obtain ⟨hold, hres⟩ := Restoring.of_foldlM hb he (.start u m) r₁ h1
    cases h2 : u.newIds.toList.foldlM eraseNew r₁ with
    | error e => simp [bind, Except.bind, h2] at hr
    | ok r₂ =>
      refine ⟨?_, ?_⟩
      · intro id hid
        have hin := of_eraseNew h2 id (ExtTreeSet.mem_toList.mpr hid)
        have hnone := (he id).old_of_new (ExtTreeSet.mem_iff_contains.mp hid)
        rw [ExtTreeMap.mem_iff_isSome_getElem?, hres.rest id hnone] at hin
        exact ExtTreeMap.mem_iff_isSome_getElem?.mpr hin
      · intro id x hx
        exact hold (id, x) (ExtTreeMap.mem_toList_iff_getElem?_eq_some.mpr hx)

theorem restore_of_clear (hb : Distinct clash b)
    (he : ∀ id : Nat, Entry True (u.noted id) b[id]? m[id]?) (hc : Clear clash u m) :
    u.restore clash m = .ok b := by
  obtain ⟨r₁, h1⟩ := Restoring.foldlM_ok hb he (.start u m) fun p hp =>
    hc.old p.1 p.2 (ExtTreeMap.mem_toList_iff_getElem?_eq_some.mp hp)
  obtain ⟨-, hres⟩ := Restoring.of_foldlM hb he (.start u m) r₁ h1
  have hnew : ∀ id ∈ u.newIds.toList, id ∈ r₁ := by
    intro id hid
    have hid' := ExtTreeSet.mem_toList.mp hid
    have hnone := (he id).old_of_new (ExtTreeSet.mem_iff_contains.mp hid')
    rw [ExtTreeMap.mem_iff_isSome_getElem?, hres.rest id hnone,
      ← ExtTreeMap.mem_iff_isSome_getElem?]
    exact hc.new id hid'
  obtain ⟨r₂, h2, hk2⟩ := eraseNew_ok (by simpa using nodup_toList u.newIds) hnew
  have hkept : ∀ k : Nat, r₂[k]? = (u.noted k).kept m[k]? := by
    intro k
    rw [hk2 k]
    simp only [Note.kept, UndoState.noted, ExtTreeSet.mem_toList, ExtTreeSet.mem_iff_contains]
    congr 1
    cases ho : u.oldValues[k]? with
    | none => exact hres.rest k ho
    | some x => exact hres.done k x ho (by simp)
  obtain ⟨r₃, h3, hk3⟩ := restoreRemoved_ok (nodup_keys_toList u.removedValues) hb
    (fun k y hk => (he k).kept_sub ((hkept k).symm.trans hk)) (by
      intro p hp
      have hrem := ExtTreeMap.mem_toList_iff_getElem?_eq_some.mp hp
      obtain ⟨hbp, hnone⟩ := (he p.1).before_of_removed hrem
      exact ⟨hbp, (hkept p.1).trans hnone⟩)
  have hr₃ : r₃ = b := by
    apply ExtTreeMap.ext_getElem?
    intro k
    rw [hk3 k]
    split
    · rfl
    · next hk =>
      rw [hkept k]
      refine (he k).kept_eq ?_
      cases hrem : u.removedValues[k]? with
      | none => exact hrem
      | some x =>
        have hmem : (k, x) ∈ u.removedValues.toList :=
          ExtTreeMap.mem_toList_iff_getElem?_eq_some.mpr hrem
        exact absurd (List.mem_map_of_mem hmem) hk
  unfold UndoState.restore
  rw [h1, ← hr₃, ← h3]
  exact congrArg (fun x => x >>= u.removedValues.toList.foldlM (restoreRemoved clash)) h2

end Restore

end WeNode.Chainbase

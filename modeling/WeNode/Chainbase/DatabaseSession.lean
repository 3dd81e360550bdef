import WeNode.Chainbase.Revisions

/-!
# A session on a database

The sessions that `database::start_undo_session` starts on all indexes added, the changes of objects
made while they last, and their end.
-/

namespace WeNode.Chainbase

open Std WeNode.Lib

variable {α : Type} {clash : α → α → Bool} {db : Database α}

namespace Database

/- An object of an index that was added is changed. -/
def write (clash : α → α → Bool) (db : Database α) (w : Nat × Change α) : Database α :=
  match db.segment[w.1]? with
  | none => db
  | some idx =>
    if w.1 ∈ db.indexList then
      { db with segment := db.segment.insert w.1 (idx.change clash w.2) }
    else db

/- The changes of one index. -/
def changesOf (t : Nat) (ws : List (Nat × Change α)) : List (Change α) :=
  (ws.filter (·.1 = t)).map (·.2)

/-- The objects of every index added have distinct keys, and ids below the next one. -/
structure Sound (clash : α → α → Bool) (db : Database α) : Prop where
  nodup : db.indexList.Nodup
  indexes : db.Listed fun idx => idx.contents.Below ∧ Distinct clash idx.indices

/-- After the changes, every index added can be brought back to where the session started. -/
def Undoable (clash : α → α → Bool) (db : Database α) (ws : List (Nat × Change α)) : Prop :=
  ∀ t ∈ db.indexList, ∀ idx, db.segment[t]? = some idx →
    (idx.inSession clash (changesOf t ws)).Restorable clash

theorem ext_segment {db db' : Database α} (hlist : db.indexList = db'.indexList)
    (hsegment : ∀ t : Nat, db.segment[t]? = db'.segment[t]?) : db = db' := by
  obtain ⟨segment, indexList⟩ := db
  obtain ⟨segment', indexList'⟩ := db'
  obtain rfl : segment = segment' := ExtTreeMap.ext_getElem? fun t => hsegment t
  obtain rfl : indexList = indexList' := hlist
  rfl

theorem write_list (db : Database α) (w : Nat × Change α) :
    (db.write clash w).indexList = db.indexList := by
  unfold write
  split
  · rfl
  · split <;> rfl

theorem write_segment (db : Database α) (w : Nat × Change α) (t : Nat) :
    (db.write clash w).segment[t]? =
      if t ∈ db.indexList then
        db.segment[t]?.map fun idx => (changesOf t [w]).foldl (GenericIndex.change clash) idx
      else db.segment[t]? := by
  unfold write
  by_cases ht : w.1 = t
  · have hchanges : changesOf t [w] = [w.2] := by simp [changesOf, ht]
    rw [hchanges, ht]
    cases hidx : db.segment[t]? with
    | none => simp [hidx]
    | some idx =>
      dsimp only
      by_cases hlisted : t ∈ db.indexList
      · rw [if_pos hlisted, if_pos hlisted, get_insert, if_pos rfl]
        rfl
      · rw [if_neg hlisted, if_neg hlisted, hidx]
  · have hchanges : changesOf t [w] = [] := by simp [changesOf, ht]
    rw [hchanges]
    simp only [List.foldl_nil, Option.map_id_fun', id_eq, ite_self]
    cases hidx : db.segment[w.1]? with
    | none => rfl
    | some idx =>
      dsimp only
      split
      · rw [get_insert, if_neg (Ne.symm ht)]
      · rfl

theorem writes_list (ws : List (Nat × Change α)) (db : Database α) :
    (ws.foldl (write clash) db).indexList = db.indexList := by
  induction ws generalizing db with
  | nil => rfl
  | cons w ws ih => rw [List.foldl_cons, ih, write_list]

theorem writes_segment (ws : List (Nat × Change α)) (db : Database α) (t : Nat) :
    (ws.foldl (write clash) db).segment[t]? =
      if t ∈ db.indexList then
        db.segment[t]?.map fun idx => (changesOf t ws).foldl (GenericIndex.change clash) idx
      else db.segment[t]? := by
  induction ws generalizing db with
  | nil => simp [changesOf]
  | cons w ws ih =>
    have hsplit : changesOf t (w :: ws) = changesOf t [w] ++ changesOf t ws := by
      unfold changesOf
      rw [← List.map_append, ← List.filter_append]
      rfl
    rw [List.foldl_cons, ih, write_list, write_segment, hsplit]
    split
    · rw [Option.map_map]
      congr 1
      funext idx
      simp only [Function.comp_apply, List.foldl_append]
    · rfl

/- A call that returns on every index returns on the database. -/
theorem onAll_returns {f : GenericIndex α → Except Failure (GenericIndex α)} {l : List Nat}
    (hl : l.Nodup) {db : Database α}
    (hf : ∀ t ∈ l, ∀ idx, db.segment[t]? = some idx → ∃ idx', f idx = .ok idx') :
    ∃ db', l.foldlM (onIndex f) db = .ok db' := by
  induction l generalizing db with
  | nil => exact ⟨db, rfl⟩
  | cons t l ih =>
    obtain ⟨ht, hl⟩ := List.nodup_cons.1 hl
    obtain ⟨db₁, h₁⟩ : ∃ db₁, db.onIndex f t = .ok db₁ := by
      unfold onIndex
      cases hidx : db.segment[t]? with
      | none => exact ⟨db, rfl⟩
      | some idx =>
        obtain ⟨idx', hf'⟩ := hf t (by simp) idx hidx
        exact ⟨_, by simp only [hf']; rfl⟩
    obtain ⟨-, hother, -⟩ := onIndex_ok h₁
    have hrest : ∀ s ∈ l, ∀ idx, db₁.segment[s]? = some idx → ∃ idx', f idx = .ok idx' := by
      intro s hs idx hidx
      have hne : s ≠ t := fun e => ht (e ▸ hs)
      exact hf s (List.mem_cons_of_mem _ hs) idx (by rw [← hother s hne, hidx])
    obtain ⟨db', h'⟩ := ih hl hrest
    exact ⟨db', by rw [List.foldlM_cons, h₁]; exact h'⟩

/- Every index added starts a session. -/
theorem start_segment (hn : db.indexList.Nodup) {started : Database α}
    (h : db.onAll (fun idx => .ok idx.startUndoSession) = .ok started) :
    started.indexList = db.indexList ∧ (∀ t ∉ db.indexList, started.segment[t]? = db.segment[t]?) ∧
      ∀ t ∈ db.indexList, ∀ idx, db.segment[t]? = some idx →
        started.segment[t]? = some idx.startUndoSession := by
  obtain ⟨hlist, hother, hidx⟩ := onAll_foldlM hn h
  refine ⟨hlist, hother, ?_⟩
  intro t ht idx hseg
  obtain ⟨idx', hrun, hseg'⟩ := hidx t ht idx hseg
  cases hrun
  exact hseg'

/- The session holds the changes made to each index. -/
theorem session_segment (hn : db.indexList.Nodup) {started : Database α}
    (h : db.onAll (fun idx => .ok idx.startUndoSession) = .ok started) (ws : List (Nat × Change α))
    {t : Nat} (ht : t ∈ db.indexList) {idx : GenericIndex α} (hidx : db.segment[t]? = some idx) :
    (ws.foldl (write clash) started).segment[t]? =
      some (idx.inSession clash (changesOf t ws)) := by
  obtain ⟨hlist, -, hstarted⟩ := start_segment hn h
  rw [writes_segment, hlist, if_pos ht, hstarted t ht idx hidx]
  rfl

/-- The end of a session by `undo`: it returns if every index can be brought back, and then the
database is what it was. -/
theorem undo_session (hdb : db.Sound clash) {started : Database α}
    (h : db.onAll (fun idx => .ok idx.startUndoSession) = .ok started) {ws : List (Nat × Change α)}
    (hundo : db.Undoable clash ws) :
    (ws.foldl (write clash) started).onAll (fun idx => idx.undo clash) = .ok db := by
  obtain ⟨hlist, hother, -⟩ := start_segment hdb.nodup h
  have hwlist : (ws.foldl (write clash) started).indexList = db.indexList := by
    rw [writes_list, hlist]
  have hback : ∀ t ∈ db.indexList, ∀ idx,
      (ws.foldl (write clash) started).segment[t]? = some idx →
      ∃ old, db.segment[t]? = some old ∧ idx.undo clash = .ok old := by
    intro t ht idx hidx
    obtain ⟨old, hold, hbelow, hdistinct⟩ := hdb.indexes t ht
    rw [session_segment hdb.nodup h ws ht hold] at hidx
    cases hidx
    exact ⟨old, hold, undo_of_restorable hbelow hdistinct (hundo t ht old hold)⟩
  obtain ⟨r, hr⟩ : ∃ r, (ws.foldl (write clash) started).onAll (fun idx => idx.undo clash) = .ok r := by
    refine onAll_returns (hwlist ▸ hdb.nodup) ?_
    intro t ht idx hidx
    obtain ⟨old, -, hold⟩ := hback t (hwlist ▸ ht) idx hidx
    exact ⟨old, hold⟩
  rw [hr]
  obtain ⟨hrlist, hrother, hridx⟩ := onAll_foldlM (hwlist ▸ hdb.nodup) hr
  congr 1
  refine ext_segment (hrlist.trans hwlist) ?_
  intro t
  by_cases ht : t ∈ db.indexList
  · obtain ⟨old, hold, -⟩ := hdb.indexes t ht
    have hseg : (ws.foldl (write clash) started).segment[t]? = _ :=
      session_segment hdb.nodup h ws ht hold
    obtain ⟨idx', hrun, hseg'⟩ := hridx t (hwlist ▸ ht) _ hseg
    obtain ⟨old', hold', hrun'⟩ := hback t ht _ hseg
    rw [hrun] at hrun'
    cases hrun'
    rw [hseg', hold']
  · rw [hrother t (hwlist ▸ ht), writes_segment, hlist, if_neg ht, hother t ht]

theorem undoable_of_undo (hdb : db.Sound clash) {started r : Database α}
    (h : db.onAll (fun idx => .ok idx.startUndoSession) = .ok started) {ws : List (Nat × Change α)}
    (hr : (ws.foldl (write clash) started).onAll (fun idx => idx.undo clash) = .ok r) :
    db.Undoable clash ws := by
  obtain ⟨hlist, -, -⟩ := start_segment hdb.nodup h
  have hwlist : (ws.foldl (write clash) started).indexList = db.indexList := by
    rw [writes_list, hlist]
  intro t ht idx hidx
  obtain ⟨old, hold, hbelow, hdistinct⟩ := hdb.indexes t ht
  rw [hidx] at hold
  cases hold
  have hseg : (ws.foldl (write clash) started).segment[t]? = _ :=
    session_segment hdb.nodup h ws ht hidx
  obtain ⟨idx', hrun, -⟩ := (onAll_foldlM (hwlist ▸ hdb.nodup) hr).2.2 t (hwlist ▸ ht) _ hseg
  exact restorable_of_undo hbelow hdistinct hrun

/- A session without changes can be undone. -/
theorem undoable_nil : db.Undoable clash [] := by
  intro t _ idx _ u hu
  cases hu
  exact ⟨fun id hid => absurd hid ExtTreeSet.not_mem_empty, fun id x hx => by
    rw [ExtTreeMap.getElem?_empty] at hx
    cases hx⟩

end Database

end WeNode.Chainbase

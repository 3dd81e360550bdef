import WeNode.Chain.AuthorityCheck
import WeNode.Chainbase.DatabaseSession

/-!
# Custom operations of plugins

`generic_custom_operation_interpreter` (generic_custom_operation_interpreter.hpp:29-106) and the
evaluators of `customJson_operation` and `custom_binary_operation` (node_evaluator.cpp:1530-1583).
The evaluators of a plugin are functions of the database that change objects one after the other and
return or throw; what an operation decodes to is given.  `FC_CAPTURE_AND_RETHROW` makes every
exception an `fc::exception`, and an exception that leaves the destructor of a session ends the
process.
-/

namespace WeNode.Chain

open Chainbase

variable {α : Type} (clash : α → α → Bool)

/-- What an inner operation does: the objects changed, by index, and whether it returns. -/
structure Evaluation (α : Type) where
  writes : List (Nat × Change α)
  returns : Bool

/-- `generic_custom_operation_interpreter` of a plugin, with what the plugin registers. -/
structure Interpreter (α : Type) where
  Op : Type
  validate : Op → Bool
  required : Op → Required
  evaluate : Op → Chainbase.Database α → Evaluation α

/- How far the evaluators got. -/
structure Progress (α β : Type) where
  applied : List β
  writes : List (Nat × Change α)
  returned : Bool

/-- The result of a batch: the operations handed to evaluators, and the database once the session
has been squashed or undone. -/
structure Batch (α β : Type) where
  applied : List β
  returned : Bool
  database : Chainbase.Database α

namespace Interpreter

variable (I : Interpreter α)

/- The evaluators in turn, until one throws. -/
def evaluateAll : List I.Op → Chainbase.Database α → Progress α I.Op
  | [], _ => ⟨[], [], true⟩
  | op :: ops, db =>
    let e := I.evaluate op db
    if e.returns then
      let p := evaluateAll ops (e.writes.foldl (Database.write clash) db)
      ⟨op :: p.applied, e.writes ++ p.writes, p.returned⟩
    else ⟨[op], e.writes, false⟩

/- What all inner operations require. -/
def requiredByAll (ops : List I.Op) : Required := (ops.map I.required).foldl Required.append {}

/-- The inner operations are valid, and require together what the outer operation requires. -/
def admits (outer : Required) (ops : List I.Op) : Bool :=
  ops.all I.validate &&
    flatSet (I.requiredByAll ops).owner == flatSet outer.owner &&
    flatSet (I.requiredByAll ops).active == flatSet outer.active &&
    flatSet (I.requiredByAll ops).posting == flatSet outer.posting &&
    (I.requiredByAll ops).other == outer.other

/-- `apply_operations`; a failure is an exception in the destructor of the session. -/
def applyOperations (outer : Required) (ops : List I.Op) (db : Chainbase.Database α) :
    Except Failure (Batch α I.Op) := do
  let db ← db.onAll fun idx => .ok idx.startUndoSession
  if I.admits outer ops then
    let p := I.evaluateAll clash ops db
    let db := p.writes.foldl (Database.write clash) db
    if p.returned then return ⟨p.applied, true, ← db.onAll fun idx => .ok idx.squash⟩
    else return ⟨p.applied, false, ← db.onAll fun idx => idx.undo clash⟩
  else return ⟨[], false, ← db.onAll fun idx => idx.undo clash⟩

end Interpreter

/-- How the evaluator of an outer operation ends. -/
inductive OuterResult (α : Type)
  | accepted (db : Chainbase.Database α)
  | refused
  | terminated

/- The interpreter registered under the id of the operation, and what it decodes the data to. -/
abbrev Decoded (α : Type) := Option (Σ I : Interpreter α, Option (List I.Op))

/- `eval->apply( o )`; only a producing node lets an exception through. -/
def interpret (producing : Bool) (outer : Required) (decoded : Decoded α) (db : Chainbase.Database α) :
    OuterResult α :=
  match decoded with
  | none => .accepted db
  | some ⟨_, none⟩ => if producing then .refused else .accepted db
  | some ⟨I, some ops⟩ =>
    match I.applyOperations clash outer ops db with
    | .error _ => .terminated
    | .ok batch =>
      if batch.returned then .accepted batch.database
      else if producing then .refused
      else .accepted batch.database

/-- The two operations that carry inner operations. -/
inductive CustomCarrier
  | json (o : CustomJsonOperation)
  | binary (o : CustomBinaryOperation)

namespace CustomCarrier

def required : CustomCarrier → Required
  | json o => (Operation.customJson o).required
  | binary o => (Operation.customBinary o).required

/- The assertions that the evaluator makes itself; a producing node refuses the binary kind. -/
def admitted (producing hardfork14 : Bool) : CustomCarrier → Bool
  | json o => !producing || decide (o.json.size ≤ 8192)
  | binary _ => !producing && hardfork14

/-- `customJson_evaluator::do_apply` and `custom_binary_evaluator::do_apply` -/
def apply (producing hardfork14 : Bool) (o : CustomCarrier) (decoded : Decoded α)
    (db : Chainbase.Database α) : OuterResult α :=
  if o.admitted producing hardfork14 then interpret clash producing o.required decoded db
  else .refused

end CustomCarrier

/-! ### Which operations are applied -/

/-- Every account required is required by the outer operation too. -/
structure Required.Covered (inner outer : Required) : Prop where
  active : ∀ n ∈ inner.active, n ∈ outer.active
  owner : ∀ n ∈ inner.owner, n ∈ outer.owner
  posting : ∀ n ∈ inner.posting, n ∈ outer.posting

theorem Required.foldl_append (l : List Required) (r : Required) :
    (l.foldl append r).active = r.active ++ l.flatMap (·.active) ∧
      (l.foldl append r).owner = r.owner ++ l.flatMap (·.owner) ∧
      (l.foldl append r).posting = r.posting ++ l.flatMap (·.posting) := by
  induction l generalizing r with
  | nil => simp
  | cons x l ih =>
    obtain ⟨hactive, howner, hposting⟩ := ih (r.append x)
    rw [List.foldl_cons, hactive, howner, hposting]
    simp [append]

namespace Interpreter

variable {clash} {I : Interpreter α}

/- The operations that are handed to their evaluators. -/
def handed (clash : α → α → Bool) (I : Interpreter α) (outer : Required) (ops : List I.Op)
    (db : Chainbase.Database α) : List I.Op :=
  if I.admits outer ops then (I.evaluateAll clash ops db).applied else []

theorem covered_of_admits {outer : Required} {ops : List I.Op} (h : I.admits outer ops = true) :
    ∀ op ∈ ops, (I.required op).Covered outer := by
  unfold admits at h
  simp only [Bool.and_eq_true, beq_iff_eq] at h
  obtain ⟨⟨⟨⟨-, howner⟩, hactive⟩, hposting⟩, -⟩ := h
  obtain ⟨hall, hall', hall''⟩ := Required.foldl_append (ops.map I.required) {}
  intro op hop
  have hmem := List.mem_map_of_mem (f := I.required) hop
  refine ⟨fun n hn => ?_, fun n hn => ?_, fun n hn => ?_⟩
  · rw [← Assignment.mem_flatSet, ← hactive, Assignment.mem_flatSet]
    unfold requiredByAll
    rw [hall]
    exact List.mem_append_right _ (List.mem_flatMap.2 ⟨_, hmem, hn⟩)
  · rw [← Assignment.mem_flatSet, ← howner, Assignment.mem_flatSet]
    unfold requiredByAll
    rw [hall']
    exact List.mem_append_right _ (List.mem_flatMap.2 ⟨_, hmem, hn⟩)
  · rw [← Assignment.mem_flatSet, ← hposting, Assignment.mem_flatSet]
    unfold requiredByAll
    rw [hall'']
    exact List.mem_append_right _ (List.mem_flatMap.2 ⟨_, hmem, hn⟩)

theorem applied_initial (ops : List I.Op) (db : Chainbase.Database α) :
    (I.evaluateAll clash ops db).applied <+: ops ∧
      ((I.evaluateAll clash ops db).returned = true → (I.evaluateAll clash ops db).applied = ops) := by
  induction ops generalizing db with
  | nil => exact ⟨List.prefix_rfl, fun _ => rfl⟩
  | cons op ops ih =>
    unfold evaluateAll
    dsimp only
    split
    · obtain ⟨hfront, hall⟩ := ih ((I.evaluate op db).writes.foldl (Database.write clash) db)
      exact ⟨List.cons_prefix_cons.2 ⟨rfl, hfront⟩, fun h => congrArg (op :: ·) (hall h)⟩
    · exact ⟨List.cons_prefix_cons.2 ⟨rfl, List.nil_prefix⟩, nofun⟩

theorem handed_covered {outer : Required} {ops : List I.Op} {db : Chainbase.Database α} :
    ∀ op ∈ I.handed clash outer ops db, (I.required op).Covered outer := by
  intro op hop
  unfold handed at hop
  split at hop
  · next hadmits =>
    exact covered_of_admits hadmits op ((applied_initial ops db).1.subset hop)
  · cases hop

/-! ### How a batch ends -/

variable {outer : Required} {ops : List I.Op} {db started : Chainbase.Database α}

theorem start_some (hdb : db.Sound clash) :
    ∃ started, db.onAll (fun idx => .ok idx.startUndoSession) = .ok started :=
  Database.onAll_returns hdb.nodup fun _ _ idx _ => ⟨idx.startUndoSession, rfl⟩

/- The batch is refused before any evaluator runs. -/
theorem applyOperations_refused (hdb : db.Sound clash)
    (hstart : db.onAll (fun idx => .ok idx.startUndoSession) = .ok started)
    (h : I.admits outer ops = false) :
    I.applyOperations clash outer ops db = .ok ⟨[], false, db⟩ := by
  have hundo : started.onAll (fun idx => idx.undo clash) = .ok db :=
    Database.undo_session hdb hstart Database.undoable_nil
  unfold applyOperations
  rw [hstart]
  show (if I.admits outer ops then _ else _) = _
  rw [h, if_neg (by decide), hundo]
  rfl

/- Every evaluator returns, and the session is squashed. -/
theorem applyOperations_complete (hdb : db.Sound clash)
    (hstart : db.onAll (fun idx => .ok idx.startUndoSession) = .ok started)
    (h : I.admits outer ops = true) (hreturned : (I.evaluateAll clash ops started).returned = true) :
    ∃ db', ((I.evaluateAll clash ops started).writes.foldl (Database.write clash) started).onAll
        (fun idx => .ok idx.squash) = .ok db' ∧
      I.applyOperations clash outer ops db = .ok ⟨ops, true, db'⟩ := by
  obtain ⟨hlist, -, -⟩ := Database.start_segment hdb.nodup hstart
  obtain ⟨db', hsquash⟩ : ∃ db', ((I.evaluateAll clash ops started).writes.foldl
      (Database.write clash) started).onAll (fun idx => .ok idx.squash) = .ok db' := by
    refine Database.onAll_returns ?_ fun _ _ idx _ => ⟨idx.squash, rfl⟩
    rw [Database.writes_list, hlist]
    exact hdb.nodup
  refine ⟨db', hsquash, ?_⟩
  unfold applyOperations
  rw [hstart]
  show (if I.admits outer ops then (if (I.evaluateAll clash ops started).returned then _ else _)
    else _) = _
  rw [h, if_pos rfl, hreturned, if_pos rfl, hsquash, (applied_initial ops started).2 hreturned]
  rfl

/- An evaluator throws, and the session is undone. -/
theorem applyOperations_thrown
    (hstart : db.onAll (fun idx => .ok idx.startUndoSession) = .ok started)
    (h : I.admits outer ops = true) (hthrown : (I.evaluateAll clash ops started).returned = false) :
    I.applyOperations clash outer ops db =
      (((I.evaluateAll clash ops started).writes.foldl (Database.write clash) started).onAll
        (fun idx => idx.undo clash)).map fun db =>
          ⟨(I.evaluateAll clash ops started).applied, false, db⟩ := by
  unfold applyOperations
  rw [hstart]
  show (if I.admits outer ops then (if (I.evaluateAll clash ops started).returned then _ else _)
    else _) = _
  rw [h, if_pos rfl, hthrown, if_neg (by decide)]
  rfl

/-- All inner operations are applied in order in the session, which is squashed. -/
def Completes (clash : α → α → Bool) (I : Interpreter α) (ops : List I.Op)
    (started db' : Chainbase.Database α) : Prop :=
  (I.evaluateAll clash ops started).returned = true ∧
    (I.evaluateAll clash ops started).applied = ops ∧
    ((I.evaluateAll clash ops started).writes.foldl (Database.write clash) started).onAll
      (fun idx => .ok idx.squash) = .ok db'

end Interpreter

namespace CustomCarrier

variable {clash} {I : Interpreter α} {db started : Chainbase.Database α}

/-- The operation is refused, or accepted with all inner operations applied in order or with the
database as before; and only operations that the outer one authorises are handed to evaluators. -/
def AllOrNothing (clash : α → α → Bool) (producing hardfork14 : Bool) (o : CustomCarrier)
    (I : Interpreter α) (ops : List I.Op) (db started : Chainbase.Database α) : Prop :=
  (o.apply clash producing hardfork14 (some ⟨I, some ops⟩) db = .refused ∨
    ∃ db', o.apply clash producing hardfork14 (some ⟨I, some ops⟩) db = .accepted db' ∧
      (db' = db ∨ I.Completes clash ops started db')) ∧
  ∀ op ∈ I.handed clash o.required ops started, (I.required op).Covered o.required

/-- A batch is all or nothing if and only if it is refused first, all evaluators return, or what
they have changed before one throws can be undone on every index. -/
theorem all_or_nothing_iff (hdb : db.Sound clash) (producing hardfork14 : Bool) (o : CustomCarrier)
    (I : Interpreter α) (ops : List I.Op) :
    ∃ started, db.onAll (fun idx => .ok idx.startUndoSession) = .ok started ∧
      (o.AllOrNothing clash producing hardfork14 I ops db started ↔
        (o.admitted producing hardfork14 = true → I.admits o.required ops = true →
          (I.evaluateAll clash ops started).returned = true ∨
            db.Undoable clash (I.evaluateAll clash ops started).writes)) := by
  obtain ⟨started, hstart⟩ := Interpreter.start_some hdb
  refine ⟨started, hstart, ?_⟩
  unfold AllOrNothing apply
  have hcovered : ∀ op ∈ I.handed clash o.required ops started,
      (I.required op).Covered o.required := Interpreter.handed_covered
  rw [and_iff_left hcovered]
  cases hadmitted : o.admitted producing hardfork14 with
  | false => exact ⟨nofun, fun _ => .inl (if_neg (by decide))⟩
  | true =>
    rw [if_pos rfl]
    unfold interpret
    cases hadmits : I.admits o.required ops with
    | false =>
      refine ⟨nofun, fun _ => ?_⟩
      dsimp only
      rw [Interpreter.applyOperations_refused hdb hstart hadmits]
      cases producing with
      | false => exact .inr ⟨db, rfl, .inl rfl⟩
      | true => exact .inl rfl
    | true =>
      dsimp only
      cases hreturned : (I.evaluateAll clash ops started).returned with
      | true =>
        obtain ⟨db', hsquash, hbatch⟩ :=
          Interpreter.applyOperations_complete hdb hstart hadmits hreturned
        refine ⟨fun _ _ _ => .inl rfl, fun _ => ?_⟩
        rw [hbatch]
        exact .inr ⟨db', rfl, .inr ⟨hreturned, (Interpreter.applied_initial ops started).2 hreturned,
          hsquash⟩⟩
      | false =>
        rw [Interpreter.applyOperations_thrown hstart hadmits hreturned]
        constructor
        · intro h _ _
          refine .inr ?_
          cases hundo : ((I.evaluateAll clash ops started).writes.foldl (Database.write clash)
            started).onAll (fun idx => idx.undo clash) with
          | error e =>
            rw [hundo] at h
            rcases h with h | ⟨db', h, -⟩
            · cases h
            · cases h
          | ok r => exact Database.undoable_of_undo hdb hstart hundo
        · intro h
          have hundo := Database.undo_session hdb hstart ((h rfl rfl).resolve_left (by decide))
          rw [hundo]
          cases producing with
          | false => exact .inr ⟨db, rfl, .inl rfl⟩
          | true => exact .inl rfl

/- A plugin with one operation, which makes some changes and throws. -/
def throwing (writes : List (Nat × Change Nat)) : Interpreter Nat where
  Op := Unit
  validate _ := true
  required _ := { active := [1] }
  evaluate _ _ := ⟨writes, false⟩

/- A database with one index, which holds one object. -/
def oneIndex : Chainbase.Database Nat where
  segment := (∅ : Std.ExtTreeMap Nat (GenericIndex Nat)).insert 0 (oneObject 10)
  indexList := [0]

def signedByOne : CustomCarrier := .json
  { requiredAuths := [1], requiredPostingAuths := [], id := [], json := { size := 2 } }

theorem oneIndex_sound : oneIndex.Sound (sameKey id) where
  nodup := List.nodup_singleton 0
  indexes := by
    intro t ht
    obtain rfl := List.mem_singleton.1 ht
    exact ⟨oneObject 10, rfl, oneObject_below 10, oneObject_distinct 10⟩

/-- An inner operation gives the key of an object to a new one and throws: the session cannot be
undone. -/
theorem batch_not_undone : oneIndex.Sound (sameKey id) ∧
    signedByOne.apply (sameKey id) false true
      (some ⟨throwing [(0, .modify 0 fun _ => 20), (0, .create fun _ => 10)], some [()]⟩) oneIndex =
      .terminated :=
  ⟨oneIndex_sound, rfl⟩

theorem all_or_nothing_iff_modified : ∃ started,
    oneIndex.onAll (fun idx => .ok idx.startUndoSession) = .ok started ∧
      (signedByOne.AllOrNothing (sameKey id) false true (throwing [(0, .modify 0 fun _ => 20)]) [()]
          oneIndex started ↔
        (signedByOne.admitted false true = true →
          (throwing [(0, .modify 0 fun _ => 20)]).admits signedByOne.required [()] = true →
          ((throwing [(0, .modify 0 fun _ => 20)]).evaluateAll (sameKey id) [()] started).returned =
              true ∨
            oneIndex.Undoable (sameKey id)
              ((throwing [(0, .modify 0 fun _ => 20)]).evaluateAll (sameKey id) [()]
                started).writes)) :=
  all_or_nothing_iff oneIndex_sound false true signedByOne _ _

end CustomCarrier

end WeNode.Chain

import Mathlib.Data.List.DropRight
import Mathlib.Tactic.Common

/-!
# Indexes with undo sessions

`undo_state` and `generic_index` (chainbase/include/chainbase/chainbase.hpp:126-522).  An object
is a value under its id; what the unique keys of the container refuse is the parameter `clash`.
A `boost::multi_index` container erases the element that `modify` brings to a key already taken.
-/

namespace WeNode.Chainbase

open Std

/-- Why a call does not return. -/
inductive Failure
  /-- `std::logic_error`: a uniqueness constraint was violated -/
  | constraint
  /-- the iterator of an object that is not there is used -/
  | pastEnd
deriving DecidableEq

structure UndoState (α : Type) where
  oldValues : ExtTreeMap Nat α := ∅
  removedValues : ExtTreeMap Nat α := ∅
  newIds : ExtTreeSet Nat := ∅
  oldNextId : Nat := 0
  revision : Int := 0

/-- `generic_index`; the back of `_stack` is the head of the list. -/
structure GenericIndex (α : Type) where
  stack : List (UndoState α) := []
  revision : Int := 0
  nextId : Nat := 0
  indices : ExtTreeMap Nat α := ∅

variable {α : Type} (clash : α → α → Bool)

/- Another object has a unique key of the value. -/
def taken (m : ExtTreeMap Nat α) (id : Nat) (v : α) : Bool :=
  m.toList.any fun p => p.1 != id && clash p.2 v

/-! ### What the undo state notes of a change -/

namespace UndoState

def onModify (head : UndoState α) (id : Nat) (v : α) : UndoState α :=
  if id ∈ head.newIds then head
  else if id ∈ head.oldValues then head
  else { head with oldValues := head.oldValues.insertIfNew id v }

def onRemove (head : UndoState α) (id : Nat) (v : α) : UndoState α :=
  if id ∈ head.newIds then { head with newIds := head.newIds.erase id }
  else
    match head.oldValues[id]? with
    | some old =>
      { head with
        removedValues := head.removedValues.insertIfNew id old
        oldValues := head.oldValues.erase id }
    | none =>
      if id ∈ head.removedValues then head
      else { head with removedValues := head.removedValues.insertIfNew id v }

def onCreate (head : UndoState α) (id : Nat) : UndoState α :=
  { head with newIds := head.newIds.insert id }

/-! ### Merging two undo states -/

def squashOld (prev : UndoState α) (item : Nat × α) : UndoState α :=
  if item.1 ∈ prev.newIds then prev
  else if item.1 ∈ prev.oldValues then prev
  else { prev with oldValues := prev.oldValues.insertIfNew item.1 item.2 }

def squashNew (prev : UndoState α) (id : Nat) : UndoState α :=
  { prev with newIds := prev.newIds.insert id }

def squashRemoved (prev : UndoState α) (item : Nat × α) : UndoState α :=
  if item.1 ∈ prev.newIds then { prev with newIds := prev.newIds.erase item.1 }
  else
    match prev.oldValues[item.1]? with
    | some old =>
      { prev with
        removedValues := prev.removedValues.insertIfNew item.1 old
        oldValues := prev.oldValues.erase item.1 }
    | none => { prev with removedValues := prev.removedValues.insertIfNew item.1 item.2 }

/- `state` merged into the state before it, as `squash` does. -/
def merge (prev state : UndoState α) : UndoState α :=
  let prev := state.oldValues.toList.foldl squashOld prev
  let prev := state.newIds.toList.foldl squashNew prev
  state.removedValues.toList.foldl squashRemoved prev

end UndoState

/-! ### The steps of `undo` on the container -/

def restoreOld (m : ExtTreeMap Nat α) (item : Nat × α) : Except Failure (ExtTreeMap Nat α) :=
  if item.1 ∈ m then
    if taken clash m item.1 item.2 then .error .constraint else .ok (m.insert item.1 item.2)
  else .error .pastEnd

def eraseNew (m : ExtTreeMap Nat α) (id : Nat) : Except Failure (ExtTreeMap Nat α) :=
  if id ∈ m then .ok (m.erase id) else .error .pastEnd

def restoreRemoved (m : ExtTreeMap Nat α) (item : Nat × α) : Except Failure (ExtTreeMap Nat α) :=
  if item.1 ∈ m ∨ taken clash m item.1 item.2 then .error .constraint
  else .ok (m.insert item.1 item.2)

/- The container as it was when the session of `head` was started. -/
def UndoState.restore (head : UndoState α) (m : ExtTreeMap Nat α) :
    Except Failure (ExtTreeMap Nat α) := do
  let m ← head.oldValues.toList.foldlM (restoreOld clash) m
  let m ← head.newIds.toList.foldlM eraseNew m
  head.removedValues.toList.foldlM (restoreRemoved clash) m

/-! ### The calls on an index -/

namespace GenericIndex

/- The undo state on top of the stack, if there is one, notes a change. -/
def note (idx : GenericIndex α) (f : UndoState α → UndoState α) : GenericIndex α :=
  match idx.stack with
  | [] => idx
  | head :: rest => { idx with stack := f head :: rest }

/-- `start_undo_session( true )` -/
def startUndoSession (idx : GenericIndex α) : GenericIndex α :=
  { idx with
    stack := { oldNextId := idx.nextId, revision := idx.revision + 1 } :: idx.stack
    revision := idx.revision + 1 }

/-- `emplace`; where it throws the index is as before. -/
def emplace (idx : GenericIndex α) (c : Nat → α) : GenericIndex α :=
  let id := idx.nextId
  if id ∈ idx.indices ∨ taken clash idx.indices id (c id) then idx
  else
    let idx := { idx with indices := idx.indices.insert id (c id), nextId := id + 1 }
    idx.note (·.onCreate id)

/-- `modify` of the object of an id; where it throws the object is gone. -/
def modify (idx : GenericIndex α) (id : Nat) (f : α → α) : GenericIndex α :=
  match idx.indices[id]? with
  | none => idx
  | some v =>
    let idx := idx.note (·.onModify id v)
    if taken clash idx.indices id (f v) then { idx with indices := idx.indices.erase id }
    else { idx with indices := idx.indices.insert id (f v) }

/-- `remove` of the object of an id -/
def remove (idx : GenericIndex α) (id : Nat) : GenericIndex α :=
  match idx.indices[id]? with
  | none => idx
  | some v =>
    let idx := idx.note (·.onRemove id v)
    { idx with indices := idx.indices.erase id }

def undo (idx : GenericIndex α) : Except Failure (GenericIndex α) :=
  match idx.stack with
  | [] => .ok idx
  | head :: rest => do
    let m ← head.restore clash idx.indices
    return { stack := rest, revision := idx.revision - 1, nextId := head.oldNextId, indices := m }

def squash (idx : GenericIndex α) : GenericIndex α :=
  match idx.stack with
  | [] => idx
  | [_] => { idx with stack := [] }
  | state :: prev :: rest =>
    { idx with stack := prev.merge state :: rest, revision := idx.revision - 1 }

/- The front of the stack is popped as long as its revision is not above the one committed. -/
def commit (idx : GenericIndex α) (revision : Int) : GenericIndex α :=
  { idx with stack := idx.stack.rdropWhile fun s => decide (s.revision ≤ revision) }

end GenericIndex

/-! ### Runs of calls -/

/-- A call on an index; a call on an object that is not there is not made. -/
inductive Call (α : Type)
  | start
  | create (c : Nat → α)
  | modify (id : Nat) (f : α → α)
  | remove (id : Nat)
  | push
  | squash
  | undo

/- `push` leaves the undo state where it is. -/
def GenericIndex.call (idx : GenericIndex α) : Call α → Except Failure (GenericIndex α)
  | .start => .ok idx.startUndoSession
  | .create c => .ok (idx.emplace clash c)
  | .modify id f => .ok (idx.modify clash id f)
  | .remove id => .ok (idx.remove id)
  | .push => .ok idx
  | .squash => .ok idx.squash
  | .undo => idx.undo clash

end WeNode.Chainbase

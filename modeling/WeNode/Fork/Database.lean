import WeNode.Lib.UndoStack
import WeNode.Fork.ForkDatabase

/-!
# Applying, pushing and popping blocks

`database::push_block`, `pop_block` and `_apply_block` (chain/database.cpp:546-628, 844-862,
2599-2711) with the irreversibility rule (database.cpp:3051-3127), the block log
(chain/block_log.cpp:185-205) and the undo sessions of chainbase.

What the block's operations do to the other consensus objects is a parameter here: `evaluate`
stands for the steps of `_apply_block` before `update_global_dynamic_data` sets the new head,
`finish` for the steps after `update_last_irreversible_block`.  Both may fail; neither moves
the head, the irreversible block number or a witness's last confirmed block, which only the
functions of this file write.
-/

namespace WeNode.Fork

open WeNode.Lib

/-! ### Configuration (protocol/config.hpp) -/

def maxWitnesses : Nat := 50
def maxUndoHistory : Nat := 10000
def startMinerVotingBlock : Nat := 86400
def percent100 : Nat := 10000
def irreversibleThreshold : Nat := 7500

/-! ### The consensus state -/

/-- The consensus objects the fork logic reads by itself, and `objects` for all others. -/
structure ChainState (ρ : Type) where
  headBlockNumber : Nat
  headBlockId : BlockId
  lastIrreversibleBlockNum : Nat
  lastConfirmedBlockNum : AccountName → Nat
  currentShuffledWitnesses : List AccountName
  objects : ρ

structure Rules (τ ρ : Type) where
  hash : SignedBlock τ → Nat
  evaluate : ChainState ρ → SignedBlock τ → Option ρ
  finish : ChainState ρ → SignedBlock τ → Except (List AccountName × ρ) (List AccountName × ρ)

variable {τ ρ : Type} (R : Rules τ ρ)

namespace ChainState

/-- `update_global_dynamic_data` (database.cpp:2956-3011), the head and the undo history
check; `o` holds the objects after the block's transactions. -/
def updateGlobalDynamicData (s : ChainState ρ) (b : SignedBlock τ) (o : ρ) :
    Option (ChainState ρ) :=
  let s' := { s with headBlockNumber := b.blockNum, headBlockId := b.id R.hash, objects := o }
  if s'.headBlockNumber - s'.lastIrreversibleBlockNum < maxUndoHistory then some s' else none

/-- `update_signing_witness` (database.cpp:3039-3049) -/
def updateSigningWitness (s : ChainState ρ) (b : SignedBlock τ) : ChainState ρ :=
  { s with lastConfirmedBlockNum := Function.update s.lastConfirmedBlockNum b.witness b.blockNum }

/-- The last confirmed blocks of the scheduled witnesses in ascending order, as far as
`std::nth_element` is used to look into it. -/
def confirmations (s : ChainState ρ) : List Nat :=
  (s.currentShuffledWitnesses.map s.lastConfirmedBlockNum).mergeSort (· ≤ ·)

/-- The new `last_irreversible_block_num` (database.cpp:3051-3097). -/
def newLastIrreversible (s : ChainState ρ) : Option Nat :=
  if s.headBlockNumber < startMinerVotingBlock then
    some (if maxWitnesses < s.headBlockNumber then s.headBlockNumber - maxWitnesses
      else s.lastIrreversibleBlockNum)
  else
    let offset := (percent100 - irreversibleThreshold) * s.currentShuffledWitnesses.length
      / percent100
    match s.confirmations[offset]? with
    | none => none
    | some n => some (if s.lastIrreversibleBlockNum < n then n else s.lastIrreversibleBlockNum)

/-- `_apply_block` up to the new irreversible block number: the consensus state that
`commit` and the block log then see. -/
def advance (s : ChainState ρ) (b : SignedBlock τ) : Option (ChainState ρ) :=
  if s.headBlockId ≠ b.previous then none
  else
    match R.evaluate s b with
    | none => none
    | some o =>
      match s.updateGlobalDynamicData R b o with
      | none => none
      | some s₁ =>
        let s₂ := s₁.updateSigningWitness b
        match s₂.newLastIrreversible with
        | none => none
        | some n => some { s₂ with lastIrreversibleBlockNum := n }

/-- The end-of-block steps write the schedule and the other objects. -/
def settle (s : ChainState ρ) (r : List AccountName × ρ) : ChainState ρ :=
  { s with currentShuffledWitnesses := r.1, objects := r.2 }

/-- What applying a block does to the consensus state, the partial function of the state that
`_apply_block` computes when the block log raises no objection. -/
def coreApply (s : ChainState ρ) (b : SignedBlock τ) : Option (ChainState ρ) :=
  match s.advance R b with
  | none => none
  | some m =>
    match R.finish m b with
    | .error _ => none
    | .ok r => some (m.settle r)

end ChainState

/-! ### The database -/

structure Database (τ ρ : Type) where
  store : Versioned (ChainState ρ)
  forkDb : ForkDatabase τ
  blockLog : List (SignedBlock τ)
  poppedTx : List τ

inductive DbError
  | fork (e : ForkError) | branches | popEmptyChain | notOnMainBranch | logPosition
  | blockRejected | endOfBlock | fuel
deriving DecidableEq, Repr

namespace Database

def chain (d : Database τ ρ) : ChainState ρ := d.store.current

/-- `block_log::head`, as the number the log has reached. -/
def logHeadNum (log : List (SignedBlock τ)) : Nat :=
  match log.getLast? with
  | none => 0
  | some b => b.blockNum

/-- `block_log::read_block_by_num`: `none` when the number is outside the log. -/
def readBlockByNum (log : List (SignedBlock τ)) (n : Nat) : Option (SignedBlock τ) :=
  if n = 0 then none else log[n - 1]?

/-- `fetch_block_by_id` (database.cpp:289-304) -/
def fetchBlockById (d : Database τ ρ) (i : BlockId) : Option (SignedBlock τ) :=
  match d.forkDb.fetchBlock i with
  | some x => some x.data
  | none => (readBlockByNum d.blockLog i.num).filter (fun b => b.id R.hash = i)

/-- The loop that copies newly irreversible blocks into the block log
(database.cpp:3109-3116), `k` blocks from number `n + 1` on.  `block_log::append` checks that
the block's number is the position it is written to. -/
def appendBlocks (f : ForkDatabase τ) (held : List (ForkItem τ)) :
    Nat → Nat → List (SignedBlock τ) →
      Except (DbError × List (SignedBlock τ)) (List (SignedBlock τ))
  | 0, _, log => .ok log
  | k + 1, n, log =>
    match f.fetchBlockOnMainBranchByNumber held (n + 1) with
    | none => .error (.notOnMainBranch, log)
    | some x =>
      if log.length + 1 = x.data.blockNum then
        appendBlocks f held k (n + 1) (log ++ [x.data])
      else .error (.logPosition, log)

/-- The second half of `update_last_irreversible_block` (database.cpp:3099-3126): commit, log,
resize the fork database.  `m` is the consensus state with the new irreversible number. -/
def persist (held : List (ForkItem τ)) (d : Database τ ρ) (m : ChainState ρ) :
    Except (DbError × Database τ ρ) (Database τ ρ) :=
  let lib := m.lastIrreversibleBlockNum
  let d₁ := { d with store := (d.store.modify m).commit lib }
  let n := logHeadNum d.blockLog
  match appendBlocks d.forkDb held (lib - n) n d.blockLog with
  | .error (e, log) => .error (e, { d₁ with blockLog := log })
  | .ok log =>
    .ok { d₁ with
      blockLog := log
      forkDb := d.forkDb.setMaxSize (m.headBlockNumber - lib + 1) }

/-- `_apply_block` -/
def applyBlock (held : List (ForkItem τ)) (d : Database τ ρ) (b : SignedBlock τ) :
    Except (DbError × Database τ ρ) (Database τ ρ) :=
  match d.chain.advance R b with
  | none => .error (.blockRejected, d)
  | some m =>
    match persist held d m with
    | .error e => .error e
    | .ok d' =>
      match R.finish m b with
      | .error r => .error (.endOfBlock, { d' with store := d'.store.modify (m.settle r) })
      | .ok r => .ok { d' with store := d'.store.modify (m.settle r) }

/-- `{ auto session = start_undo_session( true ); apply_block( b ); session.push(); }`: the
session's destructor undoes when an exception leaves the block. -/
def applySession (held : List (ForkItem τ)) (d : Database τ ρ) (b : SignedBlock τ) :
    Except (DbError × Database τ ρ) (Database τ ρ) :=
  match applyBlock R held { d with store := d.store.startSession } b with
  | .ok d' => .ok d'
  | .error (e, d') => .error (e, { d' with store := d'.store.undo })

/-- `pop_block` (database.cpp:844-862) -/
def popBlock (held : List (ForkItem τ)) (d : Database τ ρ) : Except DbError (Database τ ρ) :=
  match d.fetchBlockById R d.chain.headBlockId with
  | none => .error .popEmptyChain
  | some b =>
    match d.forkDb.popBlock held with
    | .error e => .error (.fork e)
    | .ok f =>
      .ok { d with store := d.store.undo, forkDb := f, poppedTx := b.transactions ++ d.poppedTx }

/-- `while( head_block_id() != i ) pop_block();` (database.cpp:567-568, 598-599).  Every round
moves the fork database's head to an item allocated earlier, so the rounds are bounded by the
head's serial number; see `popUntil_ne_fuel`. -/
def popUntil (held : List (ForkItem τ)) (i : BlockId) :
    Nat → Database τ ρ → Except (DbError × Database τ ρ) (Database τ ρ)
  | 0, d => .error (.fuel, d)
  | fuel + 1, d =>
    if d.chain.headBlockId = i then .ok d
    else
      match popBlock R held d with
      | .error e => .error (e, d)
      | .ok d' => popUntil held i fuel d'

/-- The rounds `popUntil` may take in `d`. -/
def popFuel (d : Database τ ρ) : Nat := d.forkDb.nextPtr + 2

/-- Apply the items of a branch in order; on a failure, the state left and the items from the
failing one on (the loop of database.cpp:571-616 before its error handling). -/
def applyItems (held : List (ForkItem τ)) :
    List (ForkItem τ) → Database τ ρ →
      Except (DbError × Database τ ρ × List (ForkItem τ)) (Database τ ρ)
  | [], d => .ok d
  | x :: xs, d =>
    match applySession R held d x.data with
    | .error (e, d') => .error (e, d', x :: xs)
    | .ok d' => applyItems held xs d'

/-- `_fork_db.remove` for each of the items (database.cpp:590-594). -/
def removeItems (f : ForkDatabase τ) (xs : List (ForkItem τ)) : ForkDatabase τ :=
  xs.foldl (fun f x => f.remove x.id) f

/-- The error handling of a failed switch (database.cpp:587-615): drop the rest of the bad
branch, move both heads back and apply the old branch again.  It always ends in an exception;
the result is the state in which the exception leaves. -/
def restore (held : List (ForkItem τ)) (second bad : List (ForkItem τ)) (e : DbError)
    (d : Database τ ρ) : DbError × Database τ ρ :=
  match second.head?, second.getLast? with
  | some front, some back =>
    let d₁ := { d with forkDb := (removeItems d.forkDb bad).setHead front }
    match popUntil R held back.data.previous (popFuel d₁) d₁ with
    | .error (e', d') => (e', d')
    | .ok d₂ =>
      match applyItems R held second.reverse d₂ with
      | .error (e', d', _) => (e', d')
      | .ok d' => (e, d')
  | _, _ => (.branches, d)

/-- The switch to a higher branch (database.cpp:563-618). -/
def switchFork (d : Database τ ρ) (newHead : ForkItem τ) :
    Except (DbError × Database τ ρ) (Database τ ρ) :=
  match d.forkDb.fetchBranchFrom newHead.id d.chain.headBlockId with
  | none => .error (.branches, d)
  | some (first, second) =>
    match second.getLast? with
    | none => .error (.branches, d)
    | some back =>
      let held := newHead :: (first ++ second)
      match popUntil R held back.data.previous (popFuel d) d with
      | .error e => .error e
      | .ok d₁ =>
        match applyItems R held first.reverse d₁ with
        | .ok d' => .ok d'
        | .error (e, d', bad) => .error (restore R held second bad e d')

/-- The push onto the current head (database.cpp:624-636). -/
def extend (d : Database τ ρ) (newHead : ForkItem τ) (b : SignedBlock τ) :
    Except (DbError × Database τ ρ) (Database τ ρ) :=
  match applySession R [newHead] d b with
  | .ok d' => .ok d'
  | .error (e, d') => .error (e, { d' with forkDb := d'.forkDb.remove (b.id R.hash) })

/-- `_push_block` without skip flags.  `.ok (d, true)` is a switch of forks. -/
def pushBlock (d : Database τ ρ) (b : SignedBlock τ) :
    Except (DbError × Database τ ρ) (Database τ ρ × Bool) :=
  match d.forkDb.pushBlock R.hash b with
  | .error e => .error (.fork e, d)
  | .ok f =>
    let d₀ := { d with forkDb := f }
    match f.head with
    | none => .error (.fork .emptyForkDatabase, d₀)
    | some newHead =>
      if newHead.data.previous ≠ d.chain.headBlockId then
        if d.chain.headBlockNumber < newHead.data.blockNum then
          (switchFork R d₀ newHead).map (fun d' => (d', true))
        else .ok (d₀, false)
      else (extend R d₀ newHead b).map (fun d' => (d', false))

/-- The state a call leaves behind, whether it returns or throws. -/
def after (r : Except (DbError × Database τ ρ) (Database τ ρ × Bool)) : Database τ ρ :=
  match r with
  | .error e => e.2
  | .ok r => r.1

@[simp] theorem after_error (e : DbError) (d : Database τ ρ) : after (.error (e, d)) = d := rfl

@[simp] theorem after_ok (d : Database τ ρ) (s : Bool) : after (.ok (d, s)) = d := rfl

/-- The state after one `push_block`. -/
def push (d : Database τ ρ) (b : SignedBlock τ) : Database τ ρ := after (pushBlock R d b)

/-- `push_block` leaves by an exception. -/
def throws (d : Database τ ρ) (b : SignedBlock τ) : Bool :=
  match pushBlock R d b with
  | .error _ => true
  | .ok _ => false

/-- The states after a sequence of `push_block` calls. -/
def pushAll (d : Database τ ρ) : List (SignedBlock τ) → Database τ ρ
  | [] => d
  | b :: bs => pushAll (push R d b) bs

end Database

end WeNode.Fork

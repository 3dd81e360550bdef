import Mathlib.Data.List.Chain
import Mathlib.Tactic

/-!
# Blocks and the fork database

Blocks as far as the fork logic reads them (protocol/block.cpp) and `fork_database`
(chain/fork_database.cpp, chain/include/node/chain/fork_database.hpp).

`fork_item` objects are reference counted in the source: the index and `_head` hold shared
pointers, an item's `prev` is a weak pointer.  Here an item carries the serial number of its
allocation, `prev` holds such a number, and locking a weak pointer looks among the items that
some shared pointer still keeps alive.  `_unlinked_index` is never filled (the insertion
stands after a `throw`, fork_database.cpp:46-47) and is left out, as is `_push_next`, which
nothing calls.
-/

namespace WeNode.Fork

abbrev AccountName := String

/-- `block_id_type`: a hash whose first word is the block number (block.cpp:17-25). -/
structure BlockId where
  num : Nat
  hash : Nat
deriving DecidableEq, Repr

/-- The default constructed `block_id_type()`. -/
def BlockId.zero : BlockId := ⟨0, 0⟩

/-- `signed_block`.  The header fields that only the block's own checks read are numbers. -/
structure SignedBlock (τ : Type) where
  previous : BlockId
  timestamp : Nat
  witness : AccountName
  transactionMerkleRoot : Nat
  extensions : List Nat
  witnessSignature : Nat
  transactions : List τ
deriving DecidableEq, Repr

variable {τ : Type}

/-- `block_header::block_num` -/
def SignedBlock.blockNum (b : SignedBlock τ) : Nat := b.previous.num + 1

/-- `signed_block_header::id`, for a digest function `hash`. -/
def SignedBlock.id (hash : SignedBlock τ → Nat) (b : SignedBlock τ) : BlockId :=
  ⟨b.blockNum, hash b⟩

/-- No two blocks share an id. -/
def CollisionFree (hash : SignedBlock τ → Nat) : Prop :=
  ∀ a b : SignedBlock τ, a.id hash = b.id hash → a = b

structure ForkItem (τ : Type) where
  ptr : Nat
  prev : Option Nat
  num : Nat
  invalid : Bool
  id : BlockId
  data : SignedBlock τ
deriving DecidableEq, Repr

structure ForkDatabase (τ : Type) where
  index : List (ForkItem τ)
  head : Option (ForkItem τ)
  maxSize : Nat
  nextPtr : Nat
deriving DecidableEq, Repr

inductive ForkError
  | tooOld | unlinkable | parentInvalid | emptyForkDatabase | popLastBlock
deriving DecidableEq, Repr

namespace ForkDatabase

/-- A new `fork_database` (`_max_size = 1024`, fork_database.hpp:97). -/
def empty : ForkDatabase τ := ⟨[], none, 1024, 0⟩

/-- The items a shared pointer keeps alive: those of the index, `_head`, and those that the
local variables `held` of the caller point to. -/
def live (db : ForkDatabase τ) (held : List (ForkItem τ)) : List (ForkItem τ) :=
  db.index ++ db.head.toList ++ held

/-- `weak_ptr::lock` -/
def lock (db : ForkDatabase τ) (held : List (ForkItem τ)) (p : Option Nat) :
    Option (ForkItem τ) :=
  p.bind fun q => (db.live held).find? (fun x => x.ptr = q)

/-- `fetch_block` -/
def fetchBlock (db : ForkDatabase τ) (i : BlockId) : Option (ForkItem τ) :=
  db.index.find? (fun x => x.id = i)

/-- `_index.insert`: the index is unique by id, a second item of one id is not inserted. -/
def insert (db : ForkDatabase τ) (x : ForkItem τ) : ForkDatabase τ :=
  if db.index.any (fun y => y.id = x.id) then db else { db with index := db.index ++ [x] }

/-- `start_block` (fork_database.cpp:24-29) -/
def startBlock (hash : SignedBlock τ → Nat) (db : ForkDatabase τ) (b : SignedBlock τ) :
    ForkDatabase τ :=
  let item : ForkItem τ := ⟨db.nextPtr, none, b.blockNum, false, b.id hash, b⟩
  { (db.insert item) with head := some item, nextPtr := db.nextPtr + 1 }

/-- The tests of `_push_block` (fork_database.cpp:51-67): the block is in the cached range and,
unless its parent is the zero id, its parent is stored.  Returns the `prev` of the new item. -/
def findParent (db : ForkDatabase τ) (b : SignedBlock τ) : Except ForkError (Option Nat) :=
  match db.head with
  | none => .ok none
  | some h =>
    if b.blockNum ≤ h.num - db.maxSize then .error .tooOld
    else if b.previous = BlockId.zero then .ok none
    else
      match db.fetchBlock b.previous with
      | none => .error .unlinkable
      | some p => if p.invalid then .error .parentInvalid else .ok (some p.ptr)

/-- `_push_block` once the parent is found: the item is inserted and becomes the head when it
is higher (fork_database.cpp:69-70). -/
def link (db : ForkDatabase τ) (item : ForkItem τ) : ForkDatabase τ :=
  let db' := db.insert item
  match db.head with
  | none => { db' with head := some item, nextPtr := db.nextPtr + 1 }
  | some h =>
    if h.num < item.num then { db' with head := some item, nextPtr := db.nextPtr + 1 }
    else { db' with nextPtr := db.nextPtr + 1 }

/-- `push_block` (fork_database.cpp:35-49) -/
def pushBlock (hash : SignedBlock τ → Nat) (db : ForkDatabase τ) (b : SignedBlock τ) :
    Except ForkError (ForkDatabase τ) :=
  match db.findParent b with
  | .error e => .error e
  | .ok prev => .ok (db.link ⟨db.nextPtr, prev, b.blockNum, false, b.id hash, b⟩)

/-- `pop_block` (fork_database.cpp:16-22) -/
def popBlock (db : ForkDatabase τ) (held : List (ForkItem τ)) :
    Except ForkError (ForkDatabase τ) :=
  match db.head with
  | none => .error .emptyForkDatabase
  | some h =>
    match db.lock held h.prev with
    | none => .error .popLastBlock
    | some p => .ok { db with head := some p }

/-- `set_max_size` (fork_database.cpp:94-123) -/
def setMaxSize (db : ForkDatabase τ) (s : Nat) : ForkDatabase τ :=
  match db.head with
  | none => { db with maxSize := s }
  | some h => { db with maxSize := s, index := db.index.filter (fun x => h.num - s ≤ x.num) }

/-- `set_head` -/
def setHead (db : ForkDatabase τ) (x : ForkItem τ) : ForkDatabase τ := { db with head := some x }

/-- `remove`: the head stays where it is (fork_database.cpp:238-241). -/
def remove (db : ForkDatabase τ) (i : BlockId) : ForkDatabase τ :=
  { db with index := db.index.filter (fun x => x.id ≠ i) }

/-- `fetch_block_by_number` -/
def fetchBlockByNumber (db : ForkDatabase τ) (n : Nat) : List (ForkItem τ) :=
  db.index.filter (fun x => x.num = n)

/-- The loop `while( x->num > n ) x = x->prev.lock()` with the items it passes.  The serial
numbers decrease along `prev`, so `x.ptr + 1` rounds are enough. -/
def descend (db : ForkDatabase τ) (held : List (ForkItem τ)) (n : Nat) :
    Nat → ForkItem τ → Option (List (ForkItem τ) × ForkItem τ)
  | 0, _ => none
  | fuel + 1, x =>
    if n < x.num then
      match db.lock held x.prev with
      | none => none
      | some y => (db.descend held n fuel y).map fun r => (x :: r.1, r.2)
    else some ([], x)

/-- The third loop of `fetch_branch_from`: both sides go back together until their parents
agree; the last pair is included. -/
def descendBoth (db : ForkDatabase τ) (held : List (ForkItem τ)) :
    Nat → ForkItem τ → ForkItem τ → Option (List (ForkItem τ) × List (ForkItem τ))
  | 0, _, _ => none
  | fuel + 1, x, y =>
    if x.data.previous ≠ y.data.previous then
      match db.lock held x.prev, db.lock held y.prev with
      | some x', some y' =>
        (db.descendBoth held fuel x' y').map fun r => (x :: r.1, y :: r.2)
      | _, _ => none
    else some ([x], [y])

/-- `fetch_branch_from` (fork_database.cpp:168-210); `none` is a failed `FC_ASSERT`. -/
def fetchBranchFrom (db : ForkDatabase τ) (first second : BlockId) :
    Option (List (ForkItem τ) × List (ForkItem τ)) :=
  match db.fetchBlock first, db.fetchBlock second with
  | some x, some y =>
    match db.descend [] y.num (x.ptr + 1) x with
    | none => none
    | some (l₁, x') =>
      match db.descend [] x'.num (y.ptr + 1) y with
      | none => none
      | some (l₂, y') =>
        (db.descendBoth [] (x'.ptr + 1) x' y').map fun r => (l₁ ++ r.1, l₂ ++ r.2)
  | _, _ => none

/-- `walk_main_branch_to_num` (fork_database.cpp:212-221) -/
def walkMainBranchToNum (db : ForkDatabase τ) (held : List (ForkItem τ)) (n : Nat) :
    Option (ForkItem τ) :=
  match db.head with
  | none => none
  | some h =>
    if h.num < n then none
    else (db.descend held n (h.ptr + 1) h).map Prod.snd

/-- `fetch_block_on_main_branch_by_number` (fork_database.cpp:223-231) -/
def fetchBlockOnMainBranchByNumber (db : ForkDatabase τ) (held : List (ForkItem τ)) (n : Nat) :
    Option (ForkItem τ) :=
  match db.fetchBlockByNumber n with
  | [] => none
  | [x] => some x
  | _ => db.walkMainBranchToNum held n

end ForkDatabase

end WeNode.Fork

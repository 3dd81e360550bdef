import WeNode.Chain.Accounts
import WeNode.Lib.FileStream

/-!
# The block log

libraries/chain/block_log.cpp.  A record of the log is a block and the position it starts at; the
index holds the positions alone.
-/

namespace WeNode.Log

open WeNode.Lib

/- What the log uses of a block. -/
structure BlockType (β : Type) where
  pack : β → List UInt8
  unpack : List UInt8 → Option (β × List UInt8)
  blockNum : β → Nat
  id : β → Chain.Hash

inductive Exception where
  | stream
  | unpack
  | assertion (text : String)
  | endless
deriving DecidableEq

abbrev Result := Except Exception

def orThrow {α : Type} (e : Exception) : Option α → Result α
  | some a => .ok a
  | none => .error e

/-- `block_log_impl` -/
structure BlockLog (β : Type) where
  head : Option β := none
  headId : Chain.Hash := 0
  block : Stream
  index : Stream

def npos : Nat := Chain.two64 - 1

namespace BlockLog

variable {β : Type} (t : BlockType β)

/-! ### Reading -/

/- The block at the position of the stream, which is left after it. -/
def unpackFrom (s : Stream) : Result (β × Stream) := do
  let (b, rest) ← orThrow .unpack (← orThrow .stream (s.rest.map t.unpack))
  return (b, s.seekg (s.bytes.length - rest.length))

/-- `read_block` -/
def readBlock (pos : Nat) (l : BlockLog β) : Result ((β × Nat) × BlockLog β) := do
  let (b, s) ← unpackFrom t (l.block.checkRead.seekg pos)
  return ((b, s.pos + 8), { l with block := s })

/- The last word of a file. -/
def readLastWord (s : Stream) : Result (Nat × Stream) := do
  orThrow .stream (← orThrow .stream (s.seekEnd 8)).readWord

/-- `read_head` -/
def readHead (l : BlockLog β) : Result (β × BlockLog β) := do
  let (pos, s) ← readLastWord l.block.checkRead
  let (r, l) ← readBlock t pos { l with block := s }
  return (r.1, l)

/-- `get_block_pos` -/
def getBlockPos (blockNum : Nat) (l : BlockLog β) : Result (Nat × BlockLog β) := do
  let l := { l with index := l.index.checkRead }
  if ¬(l.head.isSome ∧ blockNum ≤ Chain.numFromId l.headId ∧ 0 < blockNum) then
    return (npos, l)
  let (pos, s) ← orThrow .stream (l.index.seekg (8 * (blockNum - 1))).readWord
  return (pos, { l with index := s })

/-- `read_block_by_num` -/
def readBlockByNum (blockNum : Nat) (l : BlockLog β) : Result (Option β × BlockLog β) := do
  let (pos, l) ← l.getBlockPos blockNum
  if pos = npos then return (none, l)
  let (r, l) ← readBlock t pos l
  if t.blockNum r.1 = blockNum then return (some r.1, l)
  else .error (.assertion "Wrong block was read from block log.")

/-! ### Writing -/

/-- `append` -/
def append (b : β) (l : BlockLog β) : Result (BlockLog β) := do
  let block := l.block.checkWrite
  let index := l.index.checkWrite
  let pos := block.tellp
  if index.tellp = 8 * ((t.blockNum b + Chain.two32 - 1) % Chain.two32) then
    let block ← orThrow .stream (block.append (t.pack b))
    let block ← orThrow .stream (block.append (encodeLE 8 pos))
    let index ← orThrow .stream (index.append (encodeLE 8 pos))
    return ⟨some b, t.id b, block, index⟩
  else .error (.assertion "Append to index file occuring at wrong position.")

/- Every round reads a record, so that the size of the file bounds the loop. -/
def constructLoop (endPos : Nat) : Nat → Nat → Stream → Stream → Result (Stream × Stream)
  | 0, _, _, _ => .error .endless
  | fuel + 1, pos, block, index =>
    if pos < endPos then do
      let (_, block) ← unpackFrom t block
      let (pos, block) ← orThrow .stream block.readWord
      let index ← orThrow .stream (index.append (encodeLE 8 pos))
      constructLoop endPos fuel pos block index
    else .ok (block, index)

/-- `construct_index` -/
def constructIndex (l : BlockLog β) : Result (BlockLog β) := do
  let (endPos, block) ← readLastWord l.block.checkRead
  let (block, index) ←
    constructLoop t endPos (block.bytes.length + 1) 0 (block.seekg 0) (.openWrite [])
  return { l with block := block, index := index }

/- The last positions of the two files are compared. -/
def checkIndex (l : BlockLog β) : Result (BlockLog β) := do
  let (blockPos, block) ← readLastWord l.block.checkRead
  let (indexPos, index) ← readLastWord l.index.checkRead
  let l := { l with block := block, index := index }
  if blockPos < indexPos then constructIndex t l
  else if indexPos < blockPos then constructIndex t l
  else return l

/-- `open`, with what the two files hold; a file that is absent is created. -/
def openFiles (file index : Option (List UInt8)) : Result (BlockLog β) := do
  let l : BlockLog β :=
    { block := .openWrite (file.getD []), index := .openWrite (index.getD []) }
  if l.block.bytes.length ≠ 0 then
    let (head, l) ← readHead t l
    let l := { l with head := some head, headId := t.id head }
    if l.index.bytes.length ≠ 0 then checkIndex t l else constructIndex t l
  else if l.index.bytes.length ≠ 0 then return { l with index := .openWrite [] }
  else return l

end BlockLog

end WeNode.Log

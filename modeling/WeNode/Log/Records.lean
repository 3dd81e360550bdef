import WeNode.Log.BlockLog

/-!
# Records of the block log

The log of a list of blocks, the index of it, and what the reading functions make of them.
-/

namespace WeNode.Log

open WeNode.Lib

variable {β : Type}

/-- Packing and unpacking a block, and the number in its id. -/
structure BlockType.Lawful (t : BlockType β) : Prop where
  unpack_pack : ∀ b rest, t.unpack (t.pack b ++ rest) = some (b, rest)
  numFromId_id : ∀ b, Chain.numFromId (t.id b) = t.blockNum b

/- The records of blocks, the first of them starting at `start`. -/
def recordsFrom (t : BlockType β) : Nat → List β → List UInt8
  | _, [] => []
  | start, b :: bs =>
    t.pack b ++ (encodeLE 8 start ++ recordsFrom t (start + (t.pack b).length + 8) bs)

def positionsFrom (t : BlockType β) : Nat → List β → List Nat
  | _, [] => []
  | start, b :: bs => start :: positionsFrom t (start + (t.pack b).length + 8) bs

def records (t : BlockType β) (bs : List β) : List UInt8 := recordsFrom t 0 bs

def positions (t : BlockType β) (bs : List β) : List Nat := positionsFrom t 0 bs

/- The index of a log. -/
def indexOf (t : BlockType β) (bs : List β) : List UInt8 := encodeWords 8 (positions t bs)

variable {t : BlockType β} {bs : List β}

/- Where the records after a first one end. -/
theorem recordsFrom_end (start : Nat) (b : β) (bs : List β) :
    start + (recordsFrom t start (b :: bs)).length =
      start + (t.pack b).length + 8 +
        (recordsFrom t (start + (t.pack b).length + 8) bs).length := by
  rw [recordsFrom, List.length_append, List.length_append, encodeLE_length]
  omega

theorem recordsFrom_append (start : Nat) (bs cs : List β) :
    recordsFrom t start (bs ++ cs) =
      recordsFrom t start bs ++ recordsFrom t (start + (recordsFrom t start bs).length) cs := by
  induction bs generalizing start with
  | nil => rfl
  | cons b bs ih =>
    rw [recordsFrom_end, List.cons_append, recordsFrom, ih, recordsFrom, List.append_assoc,
      List.append_assoc]

theorem positionsFrom_append (start : Nat) (bs cs : List β) :
    positionsFrom t start (bs ++ cs) =
      positionsFrom t start bs ++ positionsFrom t (start + (recordsFrom t start bs).length) cs := by
  induction bs generalizing start with
  | nil => rfl
  | cons b bs ih =>
    rw [recordsFrom_end, List.cons_append, positionsFrom, ih, positionsFrom, List.cons_append]

@[simp] theorem positionsFrom_length (start : Nat) (bs : List β) :
    (positionsFrom t start bs).length = bs.length := by
  induction bs generalizing start with
  | nil => rfl
  | cons b bs ih => rw [positionsFrom, List.length_cons, List.length_cons, ih]

@[simp] theorem positions_length (bs : List β) : (positions t bs).length = bs.length :=
  positionsFrom_length 0 bs

@[simp] theorem indexOf_length (bs : List β) : (indexOf t bs).length = 8 * bs.length := by
  rw [indexOf, encodeWords_length, positions_length]

theorem records_append (bs cs : List β) :
    records t (bs ++ cs) = records t bs ++ recordsFrom t (records t bs).length cs := by
  rw [records, recordsFrom_append, Nat.zero_add]
  rfl

theorem positions_append (bs cs : List β) :
    positions t (bs ++ cs) = positions t bs ++ positionsFrom t (records t bs).length cs := by
  rw [positions, positionsFrom_append, Nat.zero_add]
  rfl

/-- A log with a record more. -/
theorem records_concat (bs : List β) (b : β) :
    records t (bs ++ [b]) = records t bs ++ t.pack b ++ encodeLE 8 (records t bs).length := by
  rw [records_append, recordsFrom, recordsFrom, List.append_nil, List.append_assoc]

theorem indexOf_concat (bs : List β) (b : β) :
    indexOf t (bs ++ [b]) = indexOf t bs ++ encodeLE 8 (records t bs).length := by
  rw [indexOf, positions_append, encodeWords_append]
  simp [positionsFrom, encodeWords, indexOf]

/-- Where the record of a block starts. -/
theorem positions_get (pre post : List β) (b : β) :
    (positions t (pre ++ b :: post))[pre.length]? = some (records t pre).length := by
  rw [positions_append, List.getElem?_append_right (by simp)]
  simp [positionsFrom]

theorem records_split (pre post : List β) (b : β) :
    records t (pre ++ b :: post) = records t pre ++ (t.pack b ++
      (encodeLE 8 (records t pre).length ++
        recordsFrom t ((records t pre).length + (t.pack b).length + 8) post)) := by
  rw [records_append]
  rfl

/- A record takes more than the word at its end. -/
theorem records_length_lt (pre post : List β) (b : β) :
    (records t pre).length + 8 ≤ (records t (pre ++ b :: post)).length := by
  rw [records_append, List.length_append, recordsFrom, List.length_append, List.length_append,
    encodeLE_length]
  omega

end WeNode.Log

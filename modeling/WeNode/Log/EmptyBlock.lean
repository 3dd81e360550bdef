import WeNode.Log.Records

/-!
# Blocks without transactions

The packed form of a block that holds no transaction and no extension, and of a witness whose name
has one byte of length.
-/

namespace WeNode.Log

open WeNode.Lib

abbrev Bytes (n : Nat) := { bytes : List UInt8 // bytes.length = n }

def Bytes.read (n : Nat) (data : List UInt8) : Option (Bytes n × List UInt8) :=
  if h : n ≤ data.length then some (⟨data.take n, List.length_take_of_le h⟩, data.drop n) else none

theorem Bytes.read_append {n : Nat} (a : Bytes n) (rest : List UInt8) :
    Bytes.read n (a.val ++ rest) = some (a, rest) := by
  have hle : n ≤ (a.val ++ rest).length := by
    rw [List.length_append, a.property]
    exact Nat.le_add_right n _
  unfold Bytes.read
  rw [dif_pos hle]
  congr
  · exact List.take_left' a.property
  · exact List.drop_left' a.property

/- The transaction list of a `signed_block` and the extensions of its header are left out. -/
structure EmptyBlock where
  previous : Bytes 20
  timestamp : Bytes 4
  witnessLength : Fin 128
  witness : Bytes witnessLength.val
  transactionMerkleRoot : Bytes 20
  witnessSignature : Bytes 65
deriving DecidableEq

namespace EmptyBlock

def header (b : EmptyBlock) : List UInt8 :=
  b.previous.val ++ (b.timestamp.val ++ (UInt8.ofNat b.witnessLength.val :: (b.witness.val ++
    (b.transactionMerkleRoot.val ++ [0]))))

/- The counts of the extensions and of the transactions are zero. -/
def pack (b : EmptyBlock) : List UInt8 := b.header ++ (b.witnessSignature.val ++ [0])

def readZero : List UInt8 → Option (List UInt8)
  | 0 :: data => some data
  | _ => none

def readLength : List UInt8 → Option (Fin 128 × List UInt8)
  | n :: data => if h : n.toNat < 128 then some (⟨n.toNat, h⟩, data) else none
  | [] => none

def unpack (data : List UInt8) : Option (EmptyBlock × List UInt8) := do
  let (previous, data) ← Bytes.read 20 data
  let (timestamp, data) ← Bytes.read 4 data
  let (witnessLength, data) ← readLength data
  let (witness, data) ← Bytes.read witnessLength.val data
  let (transactionMerkleRoot, data) ← Bytes.read 20 data
  let data ← readZero data
  let (witnessSignature, data) ← Bytes.read 65 data
  let data ← readZero data
  return (⟨previous, timestamp, witnessLength, witness, transactionMerkleRoot, witnessSignature⟩,
    data)

theorem readLength_cons (n : Fin 128) (data : List UInt8) :
    readLength (UInt8.ofNat n.val :: data) = some (n, data) := by
  have htoNat : (UInt8.ofNat n.val).toNat = n.val := by
    rw [UInt8.toNat_ofNat']
    exact Nat.mod_eq_of_lt (Nat.lt_trans n.isLt (by decide))
  unfold readLength
  simp [htoNat]

theorem unpack_pack (b : EmptyBlock) (rest : List UInt8) :
    unpack (b.pack ++ rest) = some (b, rest) := by
  simp [unpack, pack, header, Bytes.read_append, readLength_cons, readZero]

/- The first word of an id is the number of its block, with the most significant byte first. -/
def blockNum (b : EmptyBlock) : Nat :=
  (decodeLE (b.previous.val.take 4).reverse + 1) % Chain.two32

end EmptyBlock

/- `digest` stands for the hash of a signed header. -/
def EmptyBlock.type (digest : EmptyBlock → Chain.Hash) : BlockType EmptyBlock where
  pack := pack
  unpack := unpack
  blockNum := blockNum
  id b := b.blockNum * Chain.two128 + digest b % Chain.two128

theorem EmptyBlock.type_lawful (digest : EmptyBlock → Chain.Hash) : (type digest).Lawful where
  unpack_pack := unpack_pack
  numFromId_id b := by
    have hid : (type digest).id b = digest b % Chain.two128 + Chain.two128 * b.blockNum := by
      rw [Nat.add_comm, Nat.mul_comm]
      rfl
    have hnum : b.blockNum % Chain.two32 = b.blockNum := Nat.mod_mod _ _
    rw [Chain.numFromId, hid, Nat.add_mul_div_left _ _ (by decide),
      Nat.div_eq_of_lt (Nat.mod_lt _ (by decide)), Nat.zero_add]
    exact hnum

namespace EmptyBlock

/- The first two blocks of a chain, with the hashes of their headers. -/
def first : EmptyBlock where
  previous := ⟨List.replicate 20 0, rfl⟩
  timestamp := ⟨encodeLE 4 1, rfl⟩
  witnessLength := 11
  witness := ⟨[105, 110, 105, 116, 119, 105, 116, 110, 101, 115, 115], rfl⟩
  transactionMerkleRoot := ⟨List.replicate 20 0, rfl⟩
  witnessSignature := ⟨List.replicate 65 0, rfl⟩

def second : EmptyBlock :=
  { first with
    previous := ⟨[0, 0, 0, 1, 148, 225, 64, 220, 92, 33, 209, 103, 197, 166, 41, 62, 242, 88,
      118, 192], rfl⟩
    timestamp := ⟨encodeLE 4 2, rfl⟩ }

def digest (b : EmptyBlock) : Chain.Hash :=
  if b = first then 0x94e140dc5c21d167c5a6293ef25876c0
  else if b = second then 0xe860660b3873f7da58322c2dac36b85f
  else 0

def hashed : BlockType EmptyBlock := type digest

end EmptyBlock

end WeNode.Log

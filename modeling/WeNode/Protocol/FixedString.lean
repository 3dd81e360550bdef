import WeNode.Chain.Block

/-!
# Fixed strings on the wire

libraries/protocol/include/node/protocol/fixed_string.hpp.  The stored form is the bytes of the
storage, compared as integers with the first byte the most significant; the packed form goes
through `std::string`.
-/

namespace WeNode.Protocol

open WeNode.Chain

/-- `fixed_string< Storage >` for a storage of `n` bytes -/
structure FixedString (n : Nat) where
  bytes : Bytes
  length_eq : bytes.length = n
deriving DecidableEq

/-- What is used of `fc::raw`: the size in front of the bytes of a string. -/
structure RawSize where
  pack : Nat → Bytes
  unpack : Bytes → Option (Nat × Bytes)
  unpack_pack : ∀ n rest, unpack (pack n ++ rest) = some (n, rest)

namespace RawSize

variable (raw : RawSize)

def packString (s : Bytes) : Bytes := raw.pack s.length ++ s

def unpackString (stream : Bytes) : Option (Bytes × Bytes) :=
  match raw.unpack stream with
  | none => none
  | some (size, rest) => if size ≤ rest.length then some (rest.take size, rest.drop size) else none

theorem unpackString_pack (s rest : Bytes) :
    raw.unpackString (raw.packString s ++ rest) = some (s, rest) := by
  unfold unpackString packString
  rw [List.append_assoc, raw.unpack_pack]
  have hle : s.length ≤ (s ++ rest).length := by
    rw [List.length_append]
    exact Nat.le_add_right _ _
  show (if s.length ≤ (s ++ rest).length then _ else _) = some (s, rest)
  rw [if_pos hle, List.take_left, List.drop_left]

end RawSize

namespace FixedString

variable {n : Nat}

/- `fixed_string( const std::string& )`: the bytes the storage has room for, zeros after them -/
def ofString (n : Nat) (s : Bytes) : FixedString n where
  bytes := s.take n ++ List.replicate (n - s.length) 0
  length_eq := by
    rw [List.length_append, List.length_take, List.length_replicate]
    omega

/- `operator std::string()`: all bytes if the last one is set, else those before the first zero -/
def toString (u : FixedString n) : Bytes :=
  if u.bytes.getLastD 0 ≠ 0 then u.bytes else u.bytes.takeWhile (· != 0)

/- The stored integer. -/
def data (u : FixedString n) : Nat := u.bytes.foldl (fun x b => x * 256 + b.toNat) 0

def pack (raw : RawSize) (u : FixedString n) : Bytes := raw.packString u.toString

def unpack (raw : RawSize) (n : Nat) (stream : Bytes) : Option (FixedString n × Bytes) :=
  (raw.unpackString stream).map fun r => (ofString n r.1, r.2)

/-- No byte is set after a zero, unless the last byte of the storage is set. -/
def Clean (u : FixedString n) : Prop :=
  u.bytes.getLastD 0 ≠ 0 ∨ ∀ b ∈ u.bytes.dropWhile (· != 0), b = 0

instance (u : FixedString n) : Decidable u.Clean :=
  inferInstanceAs (Decidable (u.bytes.getLastD 0 ≠ 0 ∨ ∀ b ∈ u.bytes.dropWhile (· != 0), b = 0))

theorem bytes_inj {u v : FixedString n} (h : u.bytes = v.bytes) : u = v := by
  cases u
  cases v
  cases h
  rfl

theorem ofString_of_length {s : Bytes} (h : s.length = n) : (ofString n s).bytes = s := by
  show s.take n ++ List.replicate (n - s.length) 0 = s
  rw [List.take_of_length_le h.le, h, Nat.sub_self, List.replicate_zero, List.append_nil]

/-- The string of a fixed string gives it back exactly when it is clean. -/
theorem ofString_toString_iff (u : FixedString n) : ofString n u.toString = u ↔ u.Clean := by
  by_cases hlast : u.bytes.getLastD 0 ≠ 0
  · have hstring : u.toString = u.bytes := if_pos hlast
    rw [hstring]
    exact iff_of_true (bytes_inj (ofString_of_length u.length_eq)) (.inl hlast)
  · have hstring : u.toString = u.bytes.takeWhile (· != 0) := if_neg hlast
    have hsplit : u.bytes.takeWhile (· != 0) ++ u.bytes.dropWhile (· != 0) = u.bytes :=
      List.takeWhile_append_dropWhile
    have hlength : (u.bytes.takeWhile (· != 0)).length + (u.bytes.dropWhile (· != 0)).length = n := by
      rw [← List.length_append, hsplit, u.length_eq]
    have hbytes : (ofString n u.toString).bytes = u.bytes.takeWhile (· != 0) ++
        List.replicate (u.bytes.dropWhile (· != 0)).length 0 := by
      rw [hstring]
      show List.take n _ ++ List.replicate (n - _) 0 = _
      rw [List.take_of_length_le (by omega)]
      congr 2
      omega
    have hclean : u.Clean ↔ ∀ b ∈ u.bytes.dropWhile (· != 0), b = 0 := or_iff_right hlast
    rw [hclean]
    constructor
    · intro heq
      have hsame : u.bytes.takeWhile (· != 0) ++
          List.replicate (u.bytes.dropWhile (· != 0)).length 0 =
          u.bytes.takeWhile (· != 0) ++ u.bytes.dropWhile (· != 0) := by
        rw [← hbytes, heq, hsplit]
      exact (List.eq_replicate_iff.1 (List.append_cancel_left hsame).symm).2
    · intro hzeros
      refine bytes_inj ?_
      rw [hbytes, ← List.eq_replicate_iff.2 ⟨rfl, hzeros⟩, hsplit]

theorem unpack_pack (raw : RawSize) (u : FixedString n) (rest : Bytes) :
    unpack raw n (u.pack raw ++ rest) = some (ofString n u.toString, rest) := by
  unfold unpack pack
  rw [raw.unpackString_pack]
  rfl

/-- A fixed string is read back from its packed form exactly when it is clean; of clean ones the
packed form names one. -/
theorem unpack_pack_iff (raw : RawSize) (u : FixedString n) :
    (unpack raw n (u.pack raw) = some (u, []) ↔ u.Clean) ∧
      ∀ v : FixedString n, u.Clean → v.Clean → u.pack raw = v.pack raw → u = v := by
  have hself : ∀ v : FixedString n, unpack raw n (v.pack raw) = some (ofString n v.toString, []) := by
    intro v
    have hv := unpack_pack raw v []
    rwa [List.append_nil] at hv
  constructor
  · rw [hself, Option.some.injEq, Prod.mk.injEq, and_iff_left rfl]
    exact ofString_toString_iff u
  · intro v hu hv hpack
    have hsame : some (ofString n u.toString, ([] : Bytes)) = some (ofString n v.toString, []) := by
      rw [← hself u, ← hself v, hpack]
    rw [(ofString_toString_iff u).2 hu, (ofString_toString_iff v).2 hv] at hsame
    exact congrArg Prod.fst (Option.some.inj hsame)

end FixedString

/- Sizes below 128 in one byte, as `unsigned_int` has them; larger ones in two or more. -/
def packUnsigned (n : Nat) : Bytes :=
  if n < 128 then [UInt8.ofNat n] else UInt8.ofNat (n % 128 + 128) :: packUnsigned (n / 128)

def unpackUnsigned : Bytes → Option (Nat × Bytes)
  | [] => none
  | b :: rest =>
    if b.toNat < 128 then some (b.toNat, rest)
    else (unpackUnsigned rest).map fun r => (b.toNat - 128 + 128 * r.1, r.2)

theorem unpackUnsigned_pack (n : Nat) (rest : Bytes) :
    unpackUnsigned (packUnsigned n ++ rest) = some (n, rest) := by
  induction n using Nat.strong_induction_on with
  | _ n ih =>
    unfold packUnsigned
    split
    · next hn =>
      have hbyte : (UInt8.ofNat n).toNat = n := by
        rw [UInt8.toNat_ofNat', Nat.mod_eq_of_lt (by omega)]
      show (if (UInt8.ofNat n).toNat < 128 then _ else _) = _
      rw [hbyte, if_pos hn]
      rfl
    · next hn =>
      have hbyte : (UInt8.ofNat (n % 128 + 128)).toNat = n % 128 + 128 := by
        rw [UInt8.toNat_ofNat', Nat.mod_eq_of_lt (by omega)]
      show (if (UInt8.ofNat (n % 128 + 128)).toNat < 128 then _ else _) = _
      rw [hbyte, if_neg (by omega), List.append_eq, ih (n / 128) (by omega), Option.map_some,
        Option.some.injEq, Prod.mk.injEq]
      exact ⟨by omega, rfl⟩

/-- The sizes of `fc::raw`. -/
def rawSize : RawSize where
  pack := packUnsigned
  unpack := unpackUnsigned
  unpack_pack := unpackUnsigned_pack

/- The letters of a genesis account, and the same with a letter after a zero. -/
def plainName : Bytes := [119, 101, 98, 117, 105, 108, 100, 101, 114, 50]
def hiddenName : Bytes := plainName ++ [0, 97]

def transferTo (s : Bytes) : TransferOperation where
  fromAccount := Database.genesisAccountName 1
  toAccount := (FixedString.ofString 16 s).data
  amount := .coin 1
  memo := { size := 0 }

theorem unpack_pack_plain :
    FixedString.unpack rawSize 16 ((FixedString.ofString 16 plainName).pack rawSize) =
        some (FixedString.ofString 16 plainName, []) ∧
      FixedString.ofString 16 plainName = FixedString.ofString 16 (plainName ++ [0, 0]) := by
  obtain ⟨hround, hinj⟩ := FixedString.unpack_pack_iff rawSize (FixedString.ofString 16 plainName)
  exact ⟨hround.2 (by decide +kernel), hinj _ (by decide +kernel) (by decide +kernel)
    (by decide +kernel)⟩

/-- Two names that differ as stored, are both valid and pack to the same bytes; a transfer to the
one is applied to the genesis state, a transfer to the other is not. -/
theorem hidden_name_collides :
    (FixedString.ofString 16 plainName).data ≠ (FixedString.ofString 16 hiddenName).data ∧
      (FixedString.ofString 16 plainName).pack rawSize =
        (FixedString.ofString 16 hiddenName).pack rawSize ∧
      isValidAccountName (FixedString.ofString 16 hiddenName).data = true ∧
      FixedString.unpack rawSize 16 ((FixedString.ofString 16 hiddenName).pack rawSize) =
        some (FixedString.ofString 16 plainName, []) ∧
      ((transferTo plainName).apply (Database.initGenesis initSupply)).isOk = true ∧
      ((transferTo hiddenName).apply (Database.initGenesis initSupply)).isOk = false := by
  decide +kernel

end WeNode.Protocol

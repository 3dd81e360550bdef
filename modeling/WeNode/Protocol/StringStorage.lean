import WeNode.Lib.ByteOrder
import WeNode.Protocol.FixedString

/-!
# The storages of fixed strings

libraries/protocol/include/node/protocol/fixed_string.hpp, on a little-endian machine: a storage is
a value with bytes in memory, made of 64-bit words, and a fixed string keeps the value whose words
are reversed.  `fc::uint128` has `hi` before `lo` in memory, starts at zero and compares as a
number.
-/

namespace WeNode.Protocol.StringStorage

open WeNode.Chain WeNode.Lib

/-- What `fixed_string` uses of its storage. -/
class Storage (S : Type) where
  /-- `Storage d;` -/
  zero : S
  /-- `sizeof(d)` -/
  size : Nat
  /-- the value of these bytes in memory, and the bytes of a value -/
  load : Bytes → S
  store : S → Bytes
  endianReverse : S → S
  lt : S → S → Bool
  le : S → S → Bool
  gt : S → S → Bool
  ge : S → S → Bool
  eq : S → S → Bool
  ne : S → S → Bool

export Storage (zero load store endianReverse)

/-! ### The three storages -/

instance : Storage UInt64 where
  zero := 0
  size := 8
  load bytes := UInt64.ofNat (decodeLE bytes)
  store x := encodeLE 8 x.toNat
  endianReverse x := UInt64.ofNat (decodeLE (encodeLE 8 x.toNat).reverse)
  lt x y := decide (x < y)
  le x y := decide (x ≤ y)
  gt x y := decide (x > y)
  ge x y := decide (x ≥ y)
  eq x y := decide (x = y)
  ne x y := decide (x ≠ y)

/-- `fc::uint128` -/
structure UInt128 where
  hi : UInt64 := 0
  lo : UInt64 := 0
deriving DecidableEq

def UInt128.toNat (u : UInt128) : Nat := u.hi.toNat * 2 ^ 64 + u.lo.toNat

instance : Storage UInt128 where
  zero := {}
  size := 16
  load bytes := ⟨load (bytes.take 8), load (bytes.drop 8)⟩
  store u := store u.hi ++ store u.lo
  endianReverse u := ⟨endianReverse u.hi, endianReverse u.lo⟩
  lt u v := decide (u.toNat < v.toNat)
  le u v := decide (u.toNat ≤ v.toNat)
  gt u v := decide (u.toNat > v.toNat)
  ge u v := decide (u.toNat ≥ v.toNat)
  eq u v := decide (u.toNat = v.toNat)
  ne u v := decide (u.toNat ≠ v.toNat)

/-- `fc::erpair` -/
structure Erpair (A B : Type) where
  first : A
  second : B

namespace Erpair

variable {A B : Type} [Storage A] [Storage B]

/- `std::tie( a.first, a.second ) < std::tie( b.first, b.second )`, and equality -/
def tieLt (a b : Erpair A B) : Bool :=
  Storage.lt a.first b.first ||
    (!Storage.lt b.first a.first && Storage.lt a.second b.second)

def tieEq (a b : Erpair A B) : Bool := Storage.eq a.first b.first && Storage.eq a.second b.second

end Erpair

instance {A B : Type} [Storage A] [Storage B] : Storage (Erpair A B) where
  zero := ⟨zero, zero⟩
  size := Storage.size A + Storage.size B
  load bytes := ⟨load (bytes.take (Storage.size A)), load (bytes.drop (Storage.size A))⟩
  store p := store p.first ++ store p.second
  endianReverse p := ⟨endianReverse p.first, endianReverse p.second⟩
  lt a b := a.tieLt b
  le a b := !b.tieLt a
  gt a b := b.tieLt a
  ge a b := !a.tieLt b
  eq a b := a.tieEq b
  ne a b := !a.tieEq b

/-! ### Fixed strings -/

/-- `fixed_string< Storage >` -/
structure FixedString (S : Type) where
  data : S

/-- `fixed_string_16`, `fixed_string_24` and `fixed_string_32` -/
abbrev FixedString16 := FixedString UInt128
abbrev FixedString24 := FixedString (Erpair UInt128 UInt64)
abbrev FixedString32 := FixedString (Erpair UInt128 UInt128)

section

variable {S : Type} [Storage S]

/-- `memcpy( (char*)&d, bytes, size )` -/
def memcpy (d : S) (bytes : Bytes) : S := load (bytes ++ (store d).drop bytes.length)

def bigToNative (d : S) : S := endianReverse d
def nativeToBig (d : S) : S := endianReverse d

/-- `strnlen` -/
def strnlen (memory : Bytes) (n : Nat) : Nat := ((memory.take n).takeWhile (· != 0)).length

namespace FixedString

/-- `fixed_string( const std::string& )` -/
def ofString (str : Bytes) : FixedString S :=
  if str.length ≤ Storage.size S then ⟨bigToNative (memcpy zero str)⟩
  else ⟨bigToNative (memcpy zero (str.take (Storage.size S)))⟩

/-- `operator std::string()` -/
def toString (u : FixedString S) : Bytes :=
  let memory := store (nativeToBig u.data)
  let s := if memory[Storage.size S - 1]?.getD 0 ≠ 0 then Storage.size S
    else strnlen memory (Storage.size S)
  memory.take s

def size (u : FixedString S) : Nat :=
  let memory := store (nativeToBig u.data)
  if memory[Storage.size S - 1]?.getD 0 ≠ 0 then Storage.size S
  else strnlen memory (Storage.size S)

/-- `fc::raw::pack` -/
def pack (raw : RawSize) (u : FixedString S) : Bytes := raw.packString u.toString

def lt (u v : FixedString S) : Bool := Storage.lt u.data v.data
def le (u v : FixedString S) : Bool := Storage.le u.data v.data
def gt (u v : FixedString S) : Bool := Storage.gt u.data v.data
def ge (u v : FixedString S) : Bool := Storage.ge u.data v.data
def eq (u v : FixedString S) : Bool := Storage.eq u.data v.data
def ne (u v : FixedString S) : Bool := Storage.ne u.data v.data

end FixedString

end

/-! ### Storages that compare as their bytes -/

/-- The bytes of the reversed words, on which a storage's comparisons go. -/
def bigBytes {S : Type} [Storage S] (d : S) : Bytes := store (endianReverse d)

class LawfulStorage (S : Type) [Storage S] : Prop where
  store_length : ∀ d : S, (store d).length = Storage.size S
  store_load : ∀ bytes : Bytes, bytes.length = Storage.size S → store (load bytes : S) = bytes
  store_zero : store (zero : S) = List.replicate (Storage.size S) 0
  reverse_reverse : ∀ d : S, endianReverse (endianReverse d) = d
  lt_iff : ∀ a b : S, Storage.lt a b = true ↔ bigBytes a < bigBytes b
  eq_iff : ∀ a b : S, Storage.eq a b = true ↔ bigBytes a = bigBytes b
  gt_eq : ∀ a b : S, Storage.gt a b = Storage.lt b a
  le_eq : ∀ a b : S, Storage.le a b = !Storage.lt b a
  ge_eq : ∀ a b : S, Storage.ge a b = !Storage.lt a b
  ne_eq : ∀ a b : S, Storage.ne a b = !Storage.eq a b

theorem word_lt (x : UInt64) : x.toNat < 256 ^ 8 := x.toNat_lt

theorem word_ofNat {n : Nat} (h : n < 256 ^ 8) : (UInt64.ofNat n).toNat = n :=
  UInt64.toNat_ofNat_of_lt' h

theorem bigBytes_word (x : UInt64) : bigBytes x = encodeBE 8 x.toNat := by
  have hlen : (encodeLE 8 x.toNat).reverse.length = 8 := by simp
  have hlt : decodeLE (encodeLE 8 x.toNat).reverse < 256 ^ 8 := by
    have := decodeLE_lt (encodeLE 8 x.toNat).reverse
    rwa [hlen] at this
  have hback := encodeLE_decodeLE (encodeLE 8 x.toNat).reverse
  rw [hlen] at hback
  change encodeLE 8 (UInt64.ofNat (decodeLE (encodeLE 8 x.toNat).reverse)).toNat = _
  rw [word_ofNat hlt, hback]
  rfl

instance : LawfulStorage UInt64 where
  store_length x := encodeLE_length 8 x.toNat
  store_load bytes hlen := by
    have hlen' : bytes.length = 8 := hlen
    have hlt : decodeLE bytes < 256 ^ 8 := by
      have := decodeLE_lt bytes
      rwa [hlen'] at this
    have hback := encodeLE_decodeLE bytes
    rw [hlen'] at hback
    change encodeLE 8 (UInt64.ofNat (decodeLE bytes)).toNat = bytes
    rw [word_ofNat hlt, hback]
  store_zero := rfl
  reverse_reverse x := by
    have hbig := bigBytes_word x
    change encodeLE 8 (endianReverse x).toNat = _ at hbig
    change UInt64.ofNat (decodeLE (encodeLE 8 (endianReverse x).toNat).reverse) = x
    rw [hbig, encodeBE, List.reverse_reverse, decodeLE_encodeLE (word_lt x), UInt64.ofNat_toNat]
  lt_iff x y := by
    rw [bigBytes_word, bigBytes_word, encodeBE_lt_iff (word_lt x) (word_lt y),
      ← UInt64.lt_iff_toNat_lt]
    exact decide_eq_true_iff
  eq_iff x y := by
    rw [bigBytes_word, bigBytes_word, encodeBE_inj (word_lt x) (word_lt y), UInt64.toNat_inj]
    exact decide_eq_true_iff
  gt_eq _ _ := rfl
  le_eq x y := by
    change decide (x ≤ y) = !decide (y < x)
    rw [← decide_not, decide_eq_decide, UInt64.not_lt]
  ge_eq x y := by
    change decide (x ≥ y) = !decide (x < y)
    rw [← decide_not, decide_eq_decide, UInt64.not_lt]
  ne_eq x y := by
    change decide (x ≠ y) = !decide (x = y)
    rw [← decide_not]

theorem UInt128.toNat_lt_iff (u v : UInt128) :
    u.toNat < v.toNat ↔ u.hi.toNat < v.hi.toNat ∨ u.hi = v.hi ∧ u.lo.toNat < v.lo.toNat := by
  have hu : u.lo.toNat < 2 ^ 64 := u.lo.toNat_lt
  have hv : v.lo.toNat < 2 ^ 64 := v.lo.toNat_lt
  rw [← UInt64.toNat_inj]
  unfold UInt128.toNat
  omega

theorem UInt128.toNat_eq_iff (u v : UInt128) : u.toNat = v.toNat ↔ u.hi = v.hi ∧ u.lo = v.lo := by
  have hu : u.lo.toNat < 2 ^ 64 := u.lo.toNat_lt
  have hv : v.lo.toNat < 2 ^ 64 := v.lo.toNat_lt
  rw [← UInt64.toNat_inj, ← UInt64.toNat_inj]
  unfold UInt128.toNat
  omega

theorem bigBytes_uint128 (u : UInt128) : bigBytes u = bigBytes u.hi ++ bigBytes u.lo := rfl

theorem word_length (x : UInt64) : (bigBytes x).length = 8 := by
  rw [bigBytes_word, encodeBE_length]

theorem word_lt_iff (x y : UInt64) : bigBytes x < bigBytes y ↔ x.toNat < y.toNat := by
  rw [bigBytes_word, bigBytes_word, encodeBE_lt_iff (word_lt x) (word_lt y)]

theorem word_eq_iff (x y : UInt64) : bigBytes x = bigBytes y ↔ x = y := by
  rw [bigBytes_word, bigBytes_word, encodeBE_inj (word_lt x) (word_lt y), UInt64.toNat_inj]

instance : LawfulStorage UInt128 where
  store_length u := by
    change (store u.hi ++ store u.lo).length = 16
    rw [List.length_append, LawfulStorage.store_length, LawfulStorage.store_length]
    rfl
  store_load bytes hlen := by
    have hlen' : bytes.length = 16 := hlen
    change store (load (bytes.take 8) : UInt64) ++ store (load (bytes.drop 8) : UInt64) = bytes
    rw [LawfulStorage.store_load, LawfulStorage.store_load, List.take_append_drop]
    · rw [List.length_drop, hlen']
      rfl
    · rw [List.length_take, hlen']
      rfl
  store_zero := rfl
  reverse_reverse u := by
    change UInt128.mk (endianReverse (endianReverse u.hi)) (endianReverse (endianReverse u.lo)) = u
    rw [LawfulStorage.reverse_reverse, LawfulStorage.reverse_reverse]
  lt_iff u v := by
    rw [bigBytes_uint128, bigBytes_uint128,
      append_lt_append_iff ((word_length u.hi).trans (word_length v.hi).symm), word_lt_iff,
      word_eq_iff, word_lt_iff, ← UInt128.toNat_lt_iff]
    exact decide_eq_true_iff
  eq_iff u v := by
    have hsplit : bigBytes u = bigBytes v ↔ bigBytes u.hi = bigBytes v.hi ∧
        bigBytes u.lo = bigBytes v.lo :=
      append_eq_iff ((word_length u.hi).trans (word_length v.hi).symm)
    rw [hsplit, word_eq_iff, word_eq_iff, ← UInt128.toNat_eq_iff]
    exact decide_eq_true_iff
  gt_eq _ _ := rfl
  le_eq u v := by
    change decide (u.toNat ≤ v.toNat) = !decide (v.toNat < u.toNat)
    rw [← decide_not, decide_eq_decide, Nat.not_lt]
  ge_eq u v := by
    change decide (u.toNat ≥ v.toNat) = !decide (u.toNat < v.toNat)
    rw [← decide_not, decide_eq_decide, Nat.not_lt]
  ne_eq u v := by
    change decide (u.toNat ≠ v.toNat) = !decide (u.toNat = v.toNat)
    rw [← decide_not]

section

variable {A B : Type} [Storage A] [Storage B] [LawfulStorage A] [LawfulStorage B]

theorem bigBytes_length (a : A) : (bigBytes a).length = Storage.size A :=
  LawfulStorage.store_length _

omit [LawfulStorage A] [LawfulStorage B] in
theorem bigBytes_erpair (p : Erpair A B) : bigBytes p = bigBytes p.first ++ bigBytes p.second := rfl

/- A tie is decided by the first components, unless neither is less. -/
theorem tieLt_iff (p q : Erpair A B) : p.tieLt q = true ↔ bigBytes p < bigBytes q := by
  rw [bigBytes_erpair, bigBytes_erpair,
    append_lt_append_iff ((bigBytes_length p.first).trans (bigBytes_length q.first).symm)]
  have hfirst := LawfulStorage.lt_iff p.first q.first
  have hback := LawfulStorage.lt_iff q.first p.first
  have hsecond := LawfulStorage.lt_iff p.second q.second
  unfold Erpair.tieLt
  rw [Bool.or_eq_true, Bool.and_eq_true, Bool.not_eq_true', hfirst, hsecond,
    ← Bool.not_eq_true, hback]
  constructor
  · rintro (hlt | ⟨hnot, hlt⟩)
    · exact .inl hlt
    · by_cases hless : bigBytes p.first < bigBytes q.first
      · exact .inl hless
      · exact .inr ⟨eq_of_not_lt hless hnot, hlt⟩
  · rintro (hlt | ⟨heq, hlt⟩)
    · exact .inl hlt
    · exact .inr ⟨by rw [heq]; exact lt_irrefl_bytes _, hlt⟩

instance : LawfulStorage (Erpair A B) where
  store_length p := by
    change (store p.first ++ store p.second).length = Storage.size A + Storage.size B
    rw [List.length_append, LawfulStorage.store_length, LawfulStorage.store_length]
  store_load bytes hlen := by
    have hlen' : bytes.length = Storage.size A + Storage.size B := hlen
    change store (load (bytes.take (Storage.size A)) : A) ++
      store (load (bytes.drop (Storage.size A)) : B) = bytes
    rw [LawfulStorage.store_load, LawfulStorage.store_load, List.take_append_drop]
    · rw [List.length_drop, hlen']
      omega
    · rw [List.length_take, hlen']
      omega
  store_zero := by
    change store (zero : A) ++ store (zero : B) = List.replicate (Storage.size A + Storage.size B) 0
    rw [LawfulStorage.store_zero, LawfulStorage.store_zero, List.replicate_append_replicate]
  reverse_reverse p := by
    change Erpair.mk (endianReverse (endianReverse p.first))
      (endianReverse (endianReverse p.second)) = p
    rw [LawfulStorage.reverse_reverse, LawfulStorage.reverse_reverse]
  lt_iff := tieLt_iff
  eq_iff p q := by
    have hsplit : bigBytes p = bigBytes q ↔ bigBytes p.first = bigBytes q.first ∧
        bigBytes p.second = bigBytes q.second :=
      append_eq_iff
        ((bigBytes_length p.first).trans (bigBytes_length q.first).symm)
    rw [hsplit, ← LawfulStorage.eq_iff, ← LawfulStorage.eq_iff, ← Bool.and_eq_true]
    rfl
  gt_eq _ _ := rfl
  le_eq _ _ := rfl
  ge_eq _ _ := rfl
  ne_eq _ _ := rfl

end

/-! ### The strings -/

section

variable {S : Type} [Storage S] [LawfulStorage S]

namespace FixedString

/- The bytes of the words as they are kept. -/
def bytes (u : FixedString S) : Protocol.FixedString (Storage.size S) where
  bytes := bigBytes u.data
  length_eq := bigBytes_length u.data

theorem memcpy_bytes {str : Bytes} (h : str.length ≤ Storage.size S) :
    store (memcpy (zero : S) str) = padded (Storage.size S) str := by
  have hbytes : str ++ (store (zero : S)).drop str.length = padded (Storage.size S) str := by
    rw [LawfulStorage.store_zero, List.drop_replicate]
    rfl
  unfold memcpy
  rw [hbytes, LawfulStorage.store_load _ (padded_length h)]

theorem ofString_bigBytes {str : Bytes} (h : str.length ≤ Storage.size S) :
    bigBytes (ofString str : FixedString S).data = padded (Storage.size S) str := by
  have hdata : (ofString str : FixedString S).data = endianReverse (memcpy zero str) := by
    unfold ofString
    rw [if_pos h]
    rfl
  rw [hdata, bigBytes, LawfulStorage.reverse_reverse, memcpy_bytes h]

/-- The words hold the bytes of the string, as the fixed strings on the wire have them. -/
theorem ofString_bytes (str : Bytes) :
    (ofString str : FixedString S).bytes = Protocol.FixedString.ofString (Storage.size S) str := by
  apply Protocol.FixedString.bytes_inj
  change bigBytes (ofString str : FixedString S).data
    = str.take (Storage.size S) ++ List.replicate (Storage.size S - str.length) 0
  by_cases hfits : str.length ≤ Storage.size S
  · rw [ofString_bigBytes hfits, List.take_of_length_le hfits]
    rfl
  · have htake : (str.take (Storage.size S)).length = Storage.size S := by
      rw [List.length_take]
      omega
    have hsame : (ofString str : FixedString S) = ofString (str.take (Storage.size S)) := by
      unfold ofString
      rw [if_neg hfits, if_pos htake.le]
    rw [hsame, ofString_bigBytes htake.le, padded, htake, Nat.sub_self,
      Nat.sub_eq_zero_of_le (Nat.le_of_not_le hfits)]

theorem last_eq (u : FixedString S) :
    (bigBytes u.data)[Storage.size S - 1]?.getD 0 = (bigBytes u.data).getLastD 0 := by
  rw [List.getLastD_eq_getLast?, List.getLast?_eq_getElem?, bigBytes_length]

theorem toString_bytes (u : FixedString S) : u.toString = u.bytes.toString := by
  change (bigBytes u.data).take (if (bigBytes u.data)[Storage.size S - 1]?.getD 0 ≠ 0
      then Storage.size S else strnlen (bigBytes u.data) (Storage.size S))
    = if (bigBytes u.data).getLastD 0 ≠ 0 then bigBytes u.data
      else (bigBytes u.data).takeWhile (· != 0)
  have hall : (bigBytes u.data).take (Storage.size S) = bigBytes u.data :=
    List.take_of_length_le (bigBytes_length u.data).le
  rw [last_eq]
  by_cases hlast : (bigBytes u.data).getLastD 0 ≠ 0
  · rw [if_pos hlast, if_pos hlast, hall]
  · rw [if_neg hlast, if_neg hlast, strnlen, hall]
    exact (List.prefix_iff_eq_take.1 (List.takeWhile_prefix _)).symm

theorem size_eq (u : FixedString S) : u.size = u.toString.length := by
  have hle : u.size ≤ (bigBytes u.data).length := by
    rw [bigBytes_length]
    unfold size
    simp only
    split
    · exact Nat.le_refl _
    · exact (List.takeWhile_prefix _).length_le.trans (List.length_take_le _ _)
  have htake : u.toString = (bigBytes u.data).take u.size := rfl
  rw [htake, List.length_take, Nat.min_eq_left hle]

theorem toString_ofString {str : Bytes} (hn : 0 ∉ str) (h : str.length ≤ Storage.size S) :
    (ofString str : FixedString S).toString = str := by
  rw [toString_bytes]
  change (if (bigBytes (ofString str : FixedString S).data).getLastD 0 ≠ 0
      then bigBytes (ofString str : FixedString S).data
      else (bigBytes (ofString str : FixedString S).data).takeWhile (· != 0)) = str
  rw [ofString_bigBytes h]
  split
  · next hlast =>
    have hfull : Storage.size S - str.length = 0 := by
      by_contra hroom
      obtain ⟨k, hk⟩ := Nat.exists_eq_succ_of_ne_zero hroom
      apply hlast
      rw [padded, hk, List.replicate_succ', ← List.append_assoc, List.getLastD_eq_getLast?,
        List.getLast?_concat]
      rfl
    rw [padded, hfull, List.replicate_zero, List.append_nil]
  · exact takeWhile_padded hn

theorem lt_iff {s t : Bytes} (hs : 0 ∉ s) (ht : 0 ∉ t) (hns : s.length ≤ Storage.size S)
    (hnt : t.length ≤ Storage.size S) :
    (ofString s : FixedString S).lt (ofString t) = true ↔ s < t := by
  unfold lt
  rw [LawfulStorage.lt_iff, ofString_bigBytes hns, ofString_bigBytes hnt,
    padded_lt_iff hs ht hns hnt]

theorem eq_iff {s t : Bytes} (hs : 0 ∉ s) (ht : 0 ∉ t) (hns : s.length ≤ Storage.size S)
    (hnt : t.length ≤ Storage.size S) :
    (ofString s : FixedString S).eq (ofString t) = true ↔ s = t := by
  unfold eq
  rw [LawfulStorage.eq_iff, ofString_bigBytes hns, ofString_bigBytes hnt]
  constructor
  · intro h
    rw [← takeWhile_padded (n := Storage.size S) hs, h, takeWhile_padded ht]
  · rintro rfl
    rfl

end FixedString

end

/-- The fixed strings over `S` behave as the strings of at most `capacity` bytes without zeros. -/
structure BehavesAsString (S : Type) [Storage S] (capacity : Nat) (raw : RawSize) : Prop where
  sizeof_eq : Storage.size S = capacity
  round_trip : ∀ s : Bytes, 0 ∉ s → s.length ≤ capacity →
    (FixedString.ofString s : FixedString S).toString = s
  size_eq : ∀ s : Bytes, 0 ∉ s → s.length ≤ capacity →
    (FixedString.ofString s : FixedString S).size = s.length
  pack_eq : ∀ s : Bytes, 0 ∉ s → s.length ≤ capacity →
    (FixedString.ofString s : FixedString S).pack raw = raw.packString s
  compare : ∀ s t : Bytes, 0 ∉ s → 0 ∉ t → s.length ≤ capacity → t.length ≤ capacity →
    ((FixedString.ofString s : FixedString S).lt (FixedString.ofString t) = true ↔ s < t) ∧
    ((FixedString.ofString s : FixedString S).le (FixedString.ofString t) = true ↔ s ≤ t) ∧
    ((FixedString.ofString s : FixedString S).gt (FixedString.ofString t) = true ↔ s > t) ∧
    ((FixedString.ofString s : FixedString S).ge (FixedString.ofString t) = true ↔ s ≥ t) ∧
    ((FixedString.ofString s : FixedString S).eq (FixedString.ofString t) = true ↔ s = t) ∧
    ((FixedString.ofString s : FixedString S).ne (FixedString.ofString t) = true ↔ s ≠ t)

theorem BehavesAsString.of_lawful (S : Type) [Storage S] [LawfulStorage S] (raw : RawSize) :
    BehavesAsString S (Storage.size S) raw where
  sizeof_eq := rfl
  round_trip _ hn h := FixedString.toString_ofString hn h
  size_eq _ hn h := by rw [FixedString.size_eq, FixedString.toString_ofString hn h]
  pack_eq _ hn h := by rw [FixedString.pack, FixedString.toString_ofString hn h]
  compare s t hs ht hns hnt := by
    have hst := FixedString.lt_iff (S := S) hs ht hns hnt
    have hts := FixedString.lt_iff (S := S) ht hs hnt hns
    have heq := FixedString.eq_iff (S := S) hs ht hns hnt
    refine ⟨hst, ?_, ?_, ?_, heq, ?_⟩
    · rw [FixedString.le, LawfulStorage.le_eq, Bool.not_eq_true', ← Bool.not_eq_true]
      exact not_congr hts
    · rw [FixedString.gt, LawfulStorage.gt_eq]
      exact hts
    · rw [FixedString.ge, LawfulStorage.ge_eq, Bool.not_eq_true', ← Bool.not_eq_true]
      exact not_congr hst
    · rw [FixedString.ne, LawfulStorage.ne_eq, Bool.not_eq_true', ← Bool.not_eq_true]
      exact not_congr heq

/-- The fixed strings of 16, 24 and 32 bytes behave as strings. -/
theorem fixed_string_refines (raw : RawSize) :
    BehavesAsString UInt128 16 raw ∧ BehavesAsString (Erpair UInt128 UInt64) 24 raw ∧
      BehavesAsString (Erpair UInt128 UInt128) 32 raw :=
  ⟨.of_lawful UInt128 raw, .of_lawful (Erpair UInt128 UInt64) raw,
    .of_lawful (Erpair UInt128 UInt128) raw⟩

example : (FixedString.ofString "abc".toUTF8.toList : FixedString24).lt
    (FixedString.ofString ("abc".toUTF8.toList ++ [200])) = true := by decide +kernel

end WeNode.Protocol.StringStorage

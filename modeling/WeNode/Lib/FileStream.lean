import Mathlib.Data.List.Basic
import Mathlib.Tactic

/-!
# Streams over files of bytes

A stream is open for reading at a position or for appending.  Words are stored with the least
significant byte first.
-/

namespace WeNode.Lib

/-! ### Words -/

def encodeLE : Nat → Nat → List UInt8
  | 0, _ => []
  | width + 1, n => UInt8.ofNat n :: encodeLE width (n / 256)

def decodeLE (bytes : List UInt8) : Nat := bytes.foldr (fun b n => b.toNat + 256 * n) 0

@[simp] theorem encodeLE_length (width n : Nat) : (encodeLE width n).length = width := by
  induction width generalizing n with
  | zero => rfl
  | succ width ih => rw [encodeLE, List.length_cons, ih]

theorem decodeLE_encodeLE {width n : Nat} (h : n < 256 ^ width) :
    decodeLE (encodeLE width n) = n := by
  induction width generalizing n with
  | zero =>
    rw [Nat.pow_zero, Nat.lt_one_iff] at h
    rw [h]
    rfl
  | succ width ih =>
    have hdiv : n / 256 < 256 ^ width := by
      rw [Nat.div_lt_iff_lt_mul (by decide)]
      rwa [Nat.pow_succ] at h
    have hbyte : (UInt8.ofNat n).toNat = n % 256 := UInt8.toNat_ofNat'
    have hstep : decodeLE (encodeLE (width + 1) n) =
        (UInt8.ofNat n).toNat + 256 * decodeLE (encodeLE width (n / 256)) := rfl
    rw [hstep, ih hdiv, hbyte]
    exact Nat.mod_add_div n 256

/- A file of words. -/
def encodeWords (width : Nat) (ns : List Nat) : List UInt8 := ns.flatMap (encodeLE width)

theorem encodeWords_append (width : Nat) (ms ns : List Nat) :
    encodeWords width (ms ++ ns) = encodeWords width ms ++ encodeWords width ns :=
  List.flatMap_append

theorem encodeWords_cons (width n : Nat) (ns : List Nat) :
    encodeWords width (n :: ns) = encodeLE width n ++ encodeWords width ns := rfl

@[simp] theorem encodeWords_length (width : Nat) (ns : List Nat) :
    (encodeWords width ns).length = width * ns.length := by
  induction ns with
  | nil => rfl
  | cons n ns ih =>
    rw [encodeWords_cons, List.length_append, encodeLE_length, ih, List.length_cons]
    ring

/-- Word `i` is found at its place. -/
theorem encodeWords_word {width i n : Nat} {ns : List Nat} (h : ns[i]? = some n) :
    ((encodeWords width ns).drop (width * i)).take width = encodeLE width n := by
  induction ns generalizing i with
  | nil => cases h
  | cons m ns ih =>
    rw [encodeWords_cons]
    cases i with
    | zero =>
      cases h
      rw [Nat.mul_zero, List.drop_zero]
      exact List.take_left' (encodeLE_length _ _)
    | succ i =>
      have hdrop : width * (i + 1) = (encodeLE width m).length + width * i := by
        rw [encodeLE_length]
        ring
      rw [hdrop, List.drop_length_add_append]
      exact ih h

/-! ### Streams -/

structure Stream where
  bytes : List UInt8
  pos : Nat := 0
  write : Bool
deriving DecidableEq

namespace Stream

def openRead (bytes : List UInt8) : Stream := { bytes := bytes, write := false }

/- Open for appending. -/
def openWrite (bytes : List UInt8) : Stream := { bytes := bytes, write := true }

/- The stream as it is opened again for reading, or for appending. -/
def checkRead (s : Stream) : Stream := if s.write then openRead s.bytes else s

def checkWrite (s : Stream) : Stream := if s.write then s else openWrite s.bytes

def seekg (pos : Nat) (s : Stream) : Stream := { s with pos := pos }

/- To `n` bytes before the end; there is nothing before the beginning. -/
def seekEnd (n : Nat) (s : Stream) : Option Stream :=
  if n ≤ s.bytes.length then some { s with pos := s.bytes.length - n } else none

/- What is left to be read; a stream for appending cannot be read. -/
def rest (s : Stream) : Option (List UInt8) := if s.write then none else some (s.bytes.drop s.pos)

def read (n : Nat) (s : Stream) : Option (List UInt8 × Stream) := do
  let rest ← s.rest
  if n ≤ rest.length then some (rest.take n, { s with pos := s.pos + n }) else none

def readWord (s : Stream) : Option (Nat × Stream) := do
  let (word, s) ← s.read 8
  return (decodeLE word, s)

/- The end of a file that is appended to. -/
def tellp (s : Stream) : Nat := s.bytes.length

def append (data : List UInt8) (s : Stream) : Option Stream :=
  if s.write then some { s with bytes := s.bytes ++ data } else none

section

variable {s : Stream} {data pre post : List UInt8} {n : Nat}

@[simp] theorem checkRead_bytes (s : Stream) : s.checkRead.bytes = s.bytes := by
  unfold checkRead
  split <;> rfl

@[simp] theorem checkRead_write (s : Stream) : s.checkRead.write = false := by
  unfold checkRead
  split
  · rfl
  · next h => exact Bool.eq_false_iff.2 h

@[simp] theorem checkWrite_bytes (s : Stream) : s.checkWrite.bytes = s.bytes := by
  unfold checkWrite
  split <;> rfl

@[simp] theorem checkWrite_write (s : Stream) : s.checkWrite.write = true := by
  unfold checkWrite
  split
  · assumption
  · rfl

theorem append_eq (h : s.write = true) :
    s.append data = some { s with bytes := s.bytes ++ data } := if_pos h

theorem readWord_ok (hw : s.write = false) (h : s.pos + 8 ≤ s.bytes.length) :
    s.readWord =
      some (decodeLE ((s.bytes.drop s.pos).take 8), { s with pos := s.pos + 8 }) := by
  have hlength : 8 ≤ (s.bytes.drop s.pos).length := by
    rw [List.length_drop]
    omega
  simp only [readWord, read, rest, hw, Bool.false_eq_true, if_false, Option.bind_eq_bind,
    Option.bind_some, if_pos hlength]
  rfl

/-- A word is read where its bytes stand. -/
theorem readWord_eq (hw : s.write = false) (hn : n < 256 ^ 8)
    (h : (s.bytes.drop s.pos).take 8 = encodeLE 8 n) :
    s.readWord = some (n, { s with pos := s.pos + 8 }) := by
  have hlength : s.pos + 8 ≤ s.bytes.length := by
    have hle := congrArg List.length h
    rw [List.length_take, List.length_drop, encodeLE_length] at hle
    omega
  rw [readWord_ok hw hlength, h, decodeLE_encodeLE hn]

theorem readWord_none (h : s.bytes.length < s.pos + 8) : s.readWord = none := by
  have hlength : ¬8 ≤ (s.bytes.drop s.pos).length := by
    rw [List.length_drop]
    omega
  unfold readWord read rest
  split
  · rfl
  · simp only [Option.bind_eq_bind, Option.bind_some, if_neg hlength, Option.bind_none]

end

end Stream

end WeNode.Lib

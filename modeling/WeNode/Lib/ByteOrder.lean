import WeNode.Lib.FileStream

/-!
# Words with the most significant byte first

Bytewise comparison of such words is comparison of the numbers, and words side by side compare as
pairs do.  Strings without zeros, padded with zeros to a common length, compare as the strings.
-/

namespace WeNode.Lib

/-! ### Bytes of one length -/

theorem append_lt_append_iff {as bs cs ds : List UInt8} (hlen : as.length = bs.length) :
    as ++ cs < bs ++ ds ↔ as < bs ∨ as = bs ∧ cs < ds := by
  induction as generalizing bs with
  | nil =>
    cases bs with
    | nil => simp
    | cons b bs => simp at hlen
  | cons a as ih =>
    cases bs with
    | nil => simp at hlen
    | cons b bs =>
      have hlen' : as.length = bs.length := by simpa using hlen
      simp only [List.cons_append, List.cons_lt_cons_iff, ih hlen', List.cons.injEq]
      tauto

theorem append_eq_iff {as bs cs ds : List UInt8} (hlen : as.length = bs.length) :
    as ++ cs = bs ++ ds ↔ as = bs ∧ cs = ds := by
  constructor
  · intro h
    exact List.append_inj h hlen
  · rintro ⟨rfl, rfl⟩
    rfl

theorem lt_irrefl_bytes (as : List UInt8) : ¬as < as := List.lt_irrefl as

theorem eq_of_not_lt {as bs : List UInt8} (h : ¬as < bs) (h' : ¬bs < as) : as = bs :=
  List.le_antisymm (List.not_lt.1 h') (List.not_lt.1 h)

/-! ### Words -/

theorem decodeLE_cons (b : UInt8) (bytes : List UInt8) :
    decodeLE (b :: bytes) = b.toNat + 256 * decodeLE bytes := rfl

theorem decodeLE_lt (bytes : List UInt8) : decodeLE bytes < 256 ^ bytes.length := by
  induction bytes with
  | nil => decide
  | cons b bytes ih =>
    have hb : b.toNat < 256 := b.toNat_lt
    rw [decodeLE_cons, List.length_cons, Nat.pow_succ]
    omega

theorem encodeLE_decodeLE (bytes : List UInt8) :
    encodeLE bytes.length (decodeLE bytes) = bytes := by
  induction bytes with
  | nil => rfl
  | cons b bytes ih =>
    have hb : b.toNat < 256 := b.toNat_lt
    have hlow : UInt8.ofNat (b.toNat + 256 * decodeLE bytes) = b := by
      apply UInt8.toNat_inj.1
      rw [UInt8.toNat_ofNat']
      omega
    have hhigh : (b.toNat + 256 * decodeLE bytes) / 256 = decodeLE bytes := by omega
    rw [decodeLE_cons, List.length_cons, encodeLE, hlow, hhigh, ih]

/- The bytes of a word, the most significant first. -/
def encodeBE (width n : Nat) : List UInt8 := (encodeLE width n).reverse

@[simp] theorem encodeBE_length (width n : Nat) : (encodeBE width n).length = width := by
  rw [encodeBE, List.length_reverse, encodeLE_length]

theorem encodeBE_succ (width n : Nat) :
    encodeBE (width + 1) n = encodeBE width (n / 256) ++ [UInt8.ofNat n] := by
  rw [encodeBE, encodeLE, List.reverse_cons]
  rfl

theorem encodeBE_inj {width m n : Nat} (hm : m < 256 ^ width) (hn : n < 256 ^ width) :
    encodeBE width m = encodeBE width n ↔ m = n := by
  constructor
  · intro h
    have hsame := congrArg decodeLE (List.reverse_injective h)
    rwa [decodeLE_encodeLE hm, decodeLE_encodeLE hn] at hsame
  · intro h
    rw [h]

/-- Words compare as their numbers. -/
theorem encodeBE_lt_iff {width m n : Nat} (hm : m < 256 ^ width) (hn : n < 256 ^ width) :
    encodeBE width m < encodeBE width n ↔ m < n := by
  induction width generalizing m n with
  | zero =>
    rw [Nat.pow_zero, Nat.lt_one_iff] at hm hn
    rw [hm, hn]
    exact iff_of_false (lt_irrefl_bytes _) (Nat.lt_irrefl 0)
  | succ width ih =>
    rw [Nat.pow_succ] at hm hn
    have hm' : m / 256 < 256 ^ width := (Nat.div_lt_iff_lt_mul (by decide)).2 hm
    have hn' : n / 256 < 256 ^ width := (Nat.div_lt_iff_lt_mul (by decide)).2 hn
    have hlast : [UInt8.ofNat m] < [UInt8.ofNat n] ↔ m % 256 < n % 256 := by
      rw [List.cons_lt_cons_iff, UInt8.lt_iff_toNat_lt, UInt8.toNat_ofNat', UInt8.toNat_ofNat']
      simp
    rw [encodeBE_succ, encodeBE_succ, append_lt_append_iff (by simp), ih hm' hn',
      encodeBE_inj hm' hn', hlast]
    omega

/-! ### Padding -/

def padded (n : Nat) (s : List UInt8) : List UInt8 := s ++ List.replicate (n - s.length) 0

theorem padded_length {n : Nat} {s : List UInt8} (h : s.length ≤ n) : (padded n s).length = n := by
  rw [padded, List.length_append, List.length_replicate]
  omega

theorem padded_cons (n : Nat) (b : UInt8) (s : List UInt8) :
    padded (n + 1) (b :: s) = b :: padded n s := by
  simp [padded]

theorem padded_nil (n : Nat) : padded (n + 1) [] = 0 :: padded n [] := by
  simp [padded, List.replicate_succ]

theorem takeWhile_padded {n : Nat} {s : List UInt8} (hs : 0 ∉ s) :
    (padded n s).takeWhile (· != 0) = s := by
  have hall : ∀ b ∈ s, (b != 0) = true := by
    intro b hb
    rw [bne_iff_ne]
    rintro rfl
    exact hs hb
  rw [padded, List.takeWhile_append_of_pos hall]
  cases hrest : n - s.length with
  | zero => simp
  | succ k => simp [List.replicate_succ]

/-- Padded strings compare as the strings. -/
theorem padded_lt_iff {n : Nat} {s t : List UInt8} (hs : 0 ∉ s) (ht : 0 ∉ t) (hns : s.length ≤ n)
    (hnt : t.length ≤ n) : padded n s < padded n t ↔ s < t := by
  induction s generalizing t n with
  | nil =>
    cases t with
    | nil => exact iff_of_false (lt_irrefl_bytes _) (lt_irrefl_bytes _)
    | cons b t =>
      obtain ⟨n, rfl⟩ : ∃ k, n = k + 1 := ⟨n - 1, by simp only [List.length_cons] at hnt; omega⟩
      have hb : b ≠ 0 := fun h => ht (h ▸ List.mem_cons_self)
      have hpos : 0 < b := UInt8.pos_iff_ne_zero.2 hb
      rw [padded_nil, padded_cons, List.cons_lt_cons_iff]
      exact iff_of_true (.inl hpos) (List.nil_lt_cons b t)
  | cons a s ih =>
    obtain ⟨n, rfl⟩ : ∃ k, n = k + 1 := ⟨n - 1, by simp only [List.length_cons] at hns; omega⟩
    have ha : a ≠ 0 := fun h => hs (h ▸ List.mem_cons_self)
    cases t with
    | nil =>
      rw [padded_nil, padded_cons, List.cons_lt_cons_iff]
      apply iff_of_false
      · rintro (hlt | heq)
        · exact absurd (UInt8.lt_iff_toNat_lt.1 hlt) (Nat.not_lt_zero _)
        · exact ha heq.1
      · exact List.not_lt_nil _
    | cons b t =>
      have hlen : s.length ≤ n ∧ t.length ≤ n := by
        simp only [List.length_cons] at hns hnt
        omega
      rw [padded_cons, padded_cons, List.cons_lt_cons_iff, List.cons_lt_cons_iff,
        ih (fun h => hs (List.mem_cons_of_mem _ h)) (fun h => ht (List.mem_cons_of_mem _ h))
          hlen.1 hlen.2]

end WeNode.Lib

import WeNode.Lib.Runs
import WeNode.Log.Records

/-!
# Reading and appending

A log whose index is complete answers with its blocks, and stays so when a block is appended.
-/

namespace WeNode.Log

open WeNode.Lib

variable {β : Type}

/-- The blocks are those from the first on. -/
def Numbered (t : BlockType β) (bs : List β) : Prop :=
  ∀ i b, bs[i]? = some b → t.blockNum b = i + 1

/-- Positions are words. -/
def Fits (t : BlockType β) (bs : List β) : Prop := (records t bs).length < Chain.two64

/- The block with a number. -/
def blockAt (bs : List β) (n : Nat) : Option β := if n = 0 then none else bs[n - 1]?

/-- The files hold the blocks and their index. -/
structure Holds (t : BlockType β) (l : BlockLog β) (bs : List β) : Prop where
  block : l.block.bytes = records t bs
  index : l.index.bytes = indexOf t bs
  head : l.head = bs.getLast?
  headId : ∀ b ∈ bs.getLast?, l.headId = t.id b

variable {t : BlockType β} {l : BlockLog β} {bs : List β}

theorem Numbered.two32 (ht : t.Lawful) (hn : Numbered t bs) : bs.length < Chain.two32 := by
  cases h : bs.length with
  | zero => decide
  | succ n =>
    have hlast : bs[n]? = some (bs.get ⟨n, by omega⟩) := List.getElem?_eq_getElem _
    rw [← hn n _ hlast, ← ht.numFromId_id]
    exact Nat.mod_lt _ (by decide)

theorem Numbered.append_left {cs : List β} (hn : Numbered t (bs ++ cs)) : Numbered t bs := by
  intro i b hb
  exact hn i b (by rw [List.getElem?_append_left (List.getElem?_eq_some_iff.1 hb).1, hb])

/-- A block is unpacked where its bytes stand. -/
theorem unpackFrom_eq (ht : t.Lawful) {s : Stream} {b : β} {pre rest : List UInt8}
    (hw : s.write = false) (hb : s.bytes = pre ++ (t.pack b ++ rest)) (hp : s.pos = pre.length) :
    BlockLog.unpackFrom t s = .ok (b, s.seekg (pre.length + (t.pack b).length)) := by
  have hrest : s.rest = some (t.pack b ++ rest) := by
    rw [Stream.rest, hw, hb, hp, List.drop_left]
    rfl
  have hlength : s.bytes.length - rest.length = pre.length + (t.pack b).length := by
    rw [hb, List.length_append, List.length_append]
    omega
  unfold BlockLog.unpackFrom
  rw [hrest, Option.map_some, ht.unpack_pack]
  simp only [orThrow, pure, bind, Except.bind, Except.pure, hlength]

theorem readBlock_eq (ht : t.Lawful) {pre rest : List UInt8} {b : β}
    (hb : l.block.bytes = pre ++ (t.pack b ++ rest)) :
    ∃ s : Stream, s.bytes = l.block.bytes ∧ s.write = false ∧ l.readBlock t pre.length =
      .ok ((b, pre.length + (t.pack b).length + 8), { l with block := s }) := by
  refine ⟨(l.block.checkRead.seekg pre.length).seekg (pre.length + (t.pack b).length),
    l.block.checkRead_bytes, l.block.checkRead_write, ?_⟩
  have hs : (l.block.checkRead.seekg pre.length).bytes = pre ++ (t.pack b ++ rest) :=
    l.block.checkRead_bytes.trans hb
  unfold BlockLog.readBlock
  rw [unpackFrom_eq (s := l.block.checkRead.seekg pre.length) ht l.block.checkRead_write hs rfl]
  rfl

/-- The last word of a file, which is left as it is. -/
theorem readLastWord_ok {s : Stream} (hw : s.write = false) (h : 8 ≤ s.bytes.length) :
    BlockLog.readLastWord s = .ok (decodeLE (s.bytes.drop (s.bytes.length - 8)),
      { s with pos := s.bytes.length }) := by
  have hend : s.bytes.length - 8 + 8 = s.bytes.length := Nat.sub_add_cancel h
  have htake : (s.bytes.drop (s.bytes.length - 8)).take 8 =
      s.bytes.drop (s.bytes.length - 8) := by
    rw [List.take_of_length_le]
    rw [List.length_drop]
    omega
  unfold BlockLog.readLastWord Stream.seekEnd
  rw [if_pos h]
  simp only [orThrow, bind, Except.bind]
  rw [Stream.readWord_ok (s := { s with pos := s.bytes.length - 8 }) hw (Nat.le_of_eq hend)]
  simp only [htake, hend]

theorem readLastWord_eq {s : Stream} {pre : List UInt8} {n : Nat} (hw : s.write = false)
    (hn : n < Chain.two64) (hb : s.bytes = pre ++ encodeLE 8 n) :
    BlockLog.readLastWord s = .ok (n, { s with pos := s.bytes.length }) := by
  have hlength : s.bytes.length = pre.length + 8 := by
    rw [hb, List.length_append, encodeLE_length]
  have hdrop : s.bytes.drop (s.bytes.length - 8) = encodeLE 8 n := by
    rw [hlength, Nat.add_sub_cancel, hb, List.drop_left]
  rw [readLastWord_ok hw (by omega), hdrop, decodeLE_encodeLE hn]

namespace Holds

theorem headNum (ht : t.Lawful) (hn : Numbered t bs) (h : Holds t l bs) (hne : bs ≠ []) :
    l.head.isSome ∧ Chain.numFromId l.headId = bs.length := by
  obtain ⟨init, b, rfl⟩ := (List.eq_nil_or_concat' bs).resolve_left hne
  have hlast : (init ++ [b]).getLast? = some b := List.getLast?_concat
  have hhead := h.head
  rw [hlast] at hhead
  rw [h.headId b hlast, ht.numFromId_id, hhead]
  refine ⟨rfl, ?_⟩
  rw [hn init.length b (by simp), List.length_append]
  rfl

/-- What the index does not know is not there. -/
theorem getBlockPos_none (ht : t.Lawful) (hn : Numbered t bs) (h : Holds t l bs) {n : Nat}
    (hnone : blockAt bs n = none) :
    l.getBlockPos n = .ok (npos, { l with index := l.index.checkRead }) := by
  unfold BlockLog.getBlockPos
  rw [if_pos]
  · rfl
  · rintro ⟨hsome, hle, hpos⟩
    have hne : bs ≠ [] := by
      rintro rfl
      rw [h.head] at hsome
      cases hsome
    have hle' : n ≤ bs.length := (h.headNum ht hn hne).2 ▸ hle
    rw [blockAt, if_neg (Nat.pos_iff_ne_zero.1 hpos), List.getElem?_eq_none_iff] at hnone
    omega

/-- The positions of the index are those of the records. -/
theorem getBlockPos_some {pre post : List β} {b : β} (ht : t.Lawful)
    (hn : Numbered t (pre ++ b :: post)) (hf : Fits t (pre ++ b :: post))
    (h : Holds t l (pre ++ b :: post)) :
    ∃ s : Stream, s.bytes = l.index.bytes ∧ l.getBlockPos (pre.length + 1) =
      .ok ((records t pre).length, { l with index := s }) := by
  obtain ⟨hsome, hnum⟩ := h.headNum ht hn (by simp)
  have hlt : (records t pre).length < Chain.two64 :=
    Nat.lt_of_le_of_lt (Nat.le_trans (Nat.le_add_right _ 8) (records_length_lt pre post b)) hf
  have hword : ((l.index.checkRead.seekg (8 * pre.length)).bytes.drop
      (l.index.checkRead.seekg (8 * pre.length)).pos).take 8 =
        encodeLE 8 (records t pre).length := by
    have hb : (l.index.checkRead.seekg (8 * pre.length)).bytes = indexOf t (pre ++ b :: post) :=
      l.index.checkRead_bytes.trans h.index
    rw [hb]
    exact encodeWords_word (positions_get pre post b)
  refine ⟨{ l.index.checkRead with pos := 8 * pre.length + 8 }, l.index.checkRead_bytes, ?_⟩
  unfold BlockLog.getBlockPos
  rw [if_neg]
  · simp only [Nat.add_sub_cancel, pure, bind, Except.bind, Except.pure]
    rw [Stream.readWord_eq (s := l.index.checkRead.seekg (8 * pre.length))
      l.index.checkRead_write hlt hword]
    rfl
  · refine not_not_intro ⟨hsome, ?_, Nat.succ_pos _⟩
    rw [hnum]
    simp

theorem readBlockByNum (ht : t.Lawful) (hn : Numbered t bs) (hf : Fits t bs) (h : Holds t l bs)
    (n : Nat) : ∃ l', l.readBlockByNum t n = .ok (blockAt bs n, l') ∧ Holds t l' bs := by
  cases hat : blockAt bs n with
  | none =>
    refine ⟨{ l with index := l.index.checkRead }, ?_, ?_⟩
    · unfold BlockLog.readBlockByNum
      rw [h.getBlockPos_none ht hn hat]
      simp [bind, Except.bind, pure, Except.pure]
    · exact ⟨h.block, l.index.checkRead_bytes.trans h.index, h.head, h.headId⟩
  | some b =>
    have hpos : n ≠ 0 := by
      rintro rfl
      cases hat
    rw [blockAt, if_neg hpos] at hat
    obtain ⟨pre, post, rfl, hlength⟩ : ∃ pre post, bs = pre ++ b :: post ∧ pre.length = n - 1 := by
      obtain ⟨hi, rfl⟩ := List.getElem?_eq_some_iff.1 hat
      refine ⟨bs.take (n - 1), bs.drop (n - 1 + 1), ?_, List.length_take_of_le (Nat.le_of_lt hi)⟩
      rw [← List.drop_eq_getElem_cons hi, List.take_append_drop]
    obtain rfl : n = pre.length + 1 := by omega
    obtain ⟨index, hindex, hblockPos⟩ := h.getBlockPos_some ht hn hf
    obtain ⟨block, hblock, -, hread⟩ := readBlock_eq (l := { l with index := index }) ht
      (h.block.trans (records_split pre post b))
    refine ⟨{ l with block := block, index := index }, ?_, ?_⟩
    · have hnpos : (records t pre).length ≠ npos := by
        have hlt := records_length_lt (t := t) pre post b
        unfold Fits at hf
        unfold npos
        omega
      have hnum : t.blockNum b = pre.length + 1 := hn pre.length b (by simp)
      unfold BlockLog.readBlockByNum
      rw [hblockPos]
      simp only [bind, Except.bind, if_neg hnpos]
      rw [hread]
      simp only [if_pos hnum]
      rfl
    · exact ⟨hblock.trans h.block, hindex.trans h.index, h.head, h.headId⟩

theorem append {b : β} (ht : t.Lawful) (hn : Numbered t (bs ++ [b])) (h : Holds t l bs) :
    ∃ l', l.append t b = .ok l' ∧ Holds t l' (bs ++ [b]) := by
  have hlast : (bs ++ [b]).getLast? = some b := List.getLast?_concat
  have hindex : l.index.checkWrite.tellp =
      8 * ((t.blockNum b + Chain.two32 - 1) % Chain.two32) := by
    have hnum : t.blockNum b = bs.length + 1 := hn bs.length b (by simp)
    have hlt := hn.two32 ht
    rw [List.length_append, List.length_singleton] at hlt
    rw [Stream.tellp, Stream.checkWrite_bytes, h.index, indexOf_length, hnum,
      Nat.add_right_comm, Nat.add_sub_cancel, Nat.add_mod_right,
      Nat.mod_eq_of_lt (Nat.lt_of_succ_lt hlt)]
  have hpos : l.block.checkWrite.tellp = (records t bs).length := by
    rw [Stream.tellp, Stream.checkWrite_bytes, h.block]
  have hblockBytes := l.block.checkWrite_bytes.trans h.block
  have hindexBytes := l.index.checkWrite_bytes.trans h.index
  unfold BlockLog.append
  rw [if_pos hindex]
  simp only [Stream.append, Stream.checkWrite_write, if_true, orThrow, bind, Except.bind, pure,
    Except.pure, hpos]
  refine ⟨_, rfl, ?_, ?_, hlast.symm, ?_⟩
  · rw [records_concat, ← hblockBytes]
  · rw [indexOf_concat, ← hindexBytes]
  · intro c hc
    rw [hlast] at hc
    cases hc
    rfl

end Holds

/-- A log that answers with the blocks, and does so after every operation that reads or appends. -/
def Serves (t : BlockType β) (l : BlockLog β) (bs : List β) : Prop :=
  ∃ I : BlockLog β → List β → Prop, I l bs ∧ ∀ l bs, I l bs → l.head = bs.getLast? ∧
    (∀ n, ∃ l', l.readBlockByNum t n = .ok (blockAt bs n, l') ∧ I l' bs) ∧
    ∀ b, Numbered t (bs ++ [b]) → Fits t (bs ++ [b]) →
      ∃ l', l.append t b = .ok l' ∧ I l' (bs ++ [b])

theorem Holds.serves (ht : t.Lawful) (hn : Numbered t bs) (hf : Fits t bs) (h : Holds t l bs) :
    Serves t l bs := by
  refine ⟨fun l bs => Holds t l bs ∧ Numbered t bs ∧ Fits t bs, ⟨h, hn, hf⟩, ?_⟩
  rintro l bs ⟨h, hn, hf⟩
  refine ⟨h.head, ?_, ?_⟩
  · intro n
    obtain ⟨l', hread, h'⟩ := h.readBlockByNum ht hn hf n
    exact ⟨l', hread, h', hn, hf⟩
  · intro b hn' hf'
    obtain ⟨l', happ, h'⟩ := h.append ht hn'
    exact ⟨l', happ, h', hn', hf'⟩

theorem Serves.read (h : Serves t l bs) (n : Nat) :
    ∃ l', l.readBlockByNum t n = .ok (blockAt bs n, l') := by
  obtain ⟨I, hI, hstep⟩ := h
  obtain ⟨l', hread, -⟩ := (hstep l bs hI).2.1 n
  exact ⟨l', hread⟩

end WeNode.Log

import WeNode.Log.EmptyBlock
import WeNode.Log.Serving

/-!
# Opening the block log

An index that is missing records is built again from the log.  The loop that does so ends where
the position it has read is the last one, and begins with the position of the first record.
-/

namespace WeNode.Log

open WeNode.Lib

variable {β : Type} {t : BlockType β} {l : BlockLog β} {bs : List β}

theorem positionsFrom_ge {start p : Nat} (h : p ∈ positionsFrom t start bs) : start ≤ p := by
  induction bs generalizing start with
  | nil => cases h
  | cons b bs ih =>
    rcases List.mem_cons.1 h with rfl | h
    · exact Nat.le_refl p
    · have hle := ih h
      omega

theorem length_le_records (bs : List β) : bs.length ≤ (records t bs).length := by
  have hfrom (start : Nat) : bs.length ≤ (recordsFrom t start bs).length := by
    induction bs generalizing start with
    | nil => exact Nat.le_refl 0
    | cons b bs ih =>
      have hle := ih (start + (t.pack b).length + 8)
      rw [recordsFrom, List.length_append, List.length_append, encodeLE_length, List.length_cons]
      omega
  exact hfrom 0

/-- The loop reads the rest of the records and writes their positions. -/
theorem constructLoop_eq (ht : t.Lawful) {endPos fuel pos : Nat} {cs : List β}
    {pre : List UInt8} {block index : Stream} (hfuel : cs.length < fuel)
    (hblock : block.write = false) (hindex : index.write = true)
    (hbytes : block.bytes = pre ++ recordsFrom t pre.length cs) (hpos : block.pos = pre.length)
    (hfits : block.bytes.length < Chain.two64) (hdone : cs = [] → ¬pos < endPos)
    (hmore : cs ≠ [] → pos < endPos)
    (hlast : ∀ p ∈ (positionsFrom t pre.length cs).getLast?, p = endPos) :
    ∃ block' index', BlockLog.constructLoop t endPos fuel pos block index = .ok (block', index') ∧
      block'.bytes = block.bytes ∧
      index'.bytes = index.bytes ++ encodeWords 8 (positionsFrom t pre.length cs) := by
  induction cs generalizing fuel pos pre block index with
  | nil =>
    obtain ⟨fuel, rfl⟩ := Nat.exists_eq_succ_of_ne_zero (Nat.pos_iff_ne_zero.1 hfuel)
    refine ⟨block, index, if_neg (hdone rfl), rfl, ?_⟩
    rw [positionsFrom, encodeWords, List.flatMap_nil, List.append_nil]
  | cons c cs ih =>
    obtain ⟨fuel, rfl⟩ := Nat.exists_eq_succ_of_ne_zero (Nat.ne_zero_of_lt hfuel)
    have hrest : block.bytes = pre ++ (t.pack c ++ (encodeLE 8 pre.length ++
        recordsFrom t (pre.length + (t.pack c).length + 8) cs)) := hbytes
    have hsmall : pre.length < Chain.two64 := by
      rw [hrest, List.length_append] at hfits
      omega
    obtain ⟨pre', hpre'⟩ : ∃ pre', pre' = pre ++ t.pack c ++ encodeLE 8 pre.length := ⟨_, rfl⟩
    have hlength' : pre'.length = pre.length + (t.pack c).length + 8 := by
      rw [hpre', List.length_append, List.length_append, encodeLE_length]
    have hbytes' : block.bytes = pre' ++ recordsFrom t pre'.length cs := by
      rw [hrest, hlength', hpre', List.append_assoc, List.append_assoc]
    have hword : (block.bytes.drop (pre.length + (t.pack c).length)).take 8 =
        encodeLE 8 pre.length := by
      rw [hrest, ← List.append_assoc, ← List.length_append, List.drop_left]
      exact List.take_left' (encodeLE_length _ _)
    have hnext : (positionsFrom t pre.length (c :: cs)).getLast? =
        some ((positionsFrom t pre'.length cs).getLast?.getD pre.length) := by
      rw [positionsFrom, hlength', List.getLast?_cons]
    have hend := hlast _ hnext
    have hdone' : cs = [] → ¬pre.length < endPos := by
      intro hnil
      rw [hnil] at hend
      exact fun hlt => Nat.ne_of_lt hlt hend
    have hlast' : ∀ p ∈ (positionsFrom t pre'.length cs).getLast?, p = endPos := by
      intro p hp
      rw [hp] at hend
      exact hend
    have hmore' : cs ≠ [] → pre.length < endPos := by
      intro hne
      have hpos' : positionsFrom t pre'.length cs ≠ [] := by
        intro hnil
        have hzero := congrArg List.length hnil
        rw [positionsFrom_length, List.length_nil] at hzero
        exact hne (List.eq_nil_of_length_eq_zero hzero)
      have hge := positionsFrom_ge (List.getLast_mem hpos')
      rw [hlast' _ (List.getLast?_eq_some_getLast hpos')] at hge
      omega
    obtain ⟨block', index', hloop, hblock', hindex'⟩ := @ih fuel pre.length pre'
      { block with pos := pre'.length } { index with bytes := index.bytes ++ encodeLE 8 pre.length }
      (Nat.lt_of_succ_lt_succ hfuel) hblock hindex hbytes' rfl hfits hdone' hmore' hlast'
    refine ⟨block', index', ?_, hblock', ?_⟩
    · unfold BlockLog.constructLoop
      rw [if_pos (hmore (List.cons_ne_nil c cs)), unpackFrom_eq ht hblock hrest hpos]
      simp only [bind, Except.bind]
      rw [Stream.readWord_eq (s := block.seekg (pre.length + (t.pack c).length)) hblock hsmall
        hword]
      simp only [orThrow]
      rw [Stream.append_eq hindex]
      simp only
      rw [← hloop, hlength']
      rfl
    · rw [hindex', positionsFrom, encodeWords_cons, hlength', List.append_assoc]

theorem positions_concat (init : List β) (b : β) :
    positions t (init ++ [b]) = positions t init ++ [(records t init).length] := by
  rw [positions_append, positionsFrom, positionsFrom]

theorem Fits.init {init : List β} {b : β} (hf : Fits t (init ++ [b])) :
    (records t init).length < Chain.two64 := by
  unfold Fits at hf
  rw [records_concat, List.length_append, List.length_append] at hf
  omega

/-- The index is built from the whole log, unless it has one record: the first position is the
last one then, and nothing is written. -/
theorem constructIndex_eq (ht : t.Lawful) {init : List β} {b : β} (hf : Fits t (init ++ [b]))
    (hb : l.block.bytes = records t (init ++ [b])) :
    ∃ block index, l.constructIndex t = .ok { l with block := block, index := index } ∧
      block.bytes = l.block.bytes ∧
      index.bytes = if init = [] then [] else indexOf t (init ++ [b]) := by
  have hbytes : l.block.checkRead.bytes = records t (init ++ [b]) :=
    l.block.checkRead_bytes.trans hb
  have hlastWord := readLastWord_eq l.block.checkRead_write hf.init
    (hbytes.trans (records_concat init b))
  obtain ⟨block, hwrite, hblock⟩ : ∃ block : Stream,
      block = Stream.seekg 0 { l.block.checkRead with pos := l.block.checkRead.bytes.length } ∧
      block.bytes = records t (init ++ [b]) :=
    ⟨_, rfl, hbytes⟩
  have hrun : l.constructIndex t = (BlockLog.constructLoop t (records t init).length
      (block.bytes.length + 1) 0 block (.openWrite [])).map
        fun r => { l with block := r.1, index := r.2 } := by
    unfold BlockLog.constructIndex
    rw [hlastWord, hwrite]
    rfl
  cases init with
  | nil =>
    refine ⟨block, .openWrite [], ?_, hblock.trans hb.symm, rfl⟩
    rw [hrun]
    rfl
  | cons c cs =>
    have hlength : (c :: cs ++ [b]).length < block.bytes.length + 1 := by
      rw [hblock]
      exact Nat.lt_succ_of_le (length_le_records _)
    have hfirst : 0 < (records t (c :: cs)).length := by
      have hlt := records_length_lt (t := t) [] cs c
      rw [List.nil_append] at hlt
      omega
    have hlast : ∀ p ∈ (positions t (c :: cs ++ [b])).getLast?,
        p = (records t (c :: cs)).length := by
      intro p hp
      rw [positions_concat, List.getLast?_concat] at hp
      exact (Option.some.inj hp).symm
    obtain ⟨block', index', hloop, hblock', hindex'⟩ := @constructLoop_eq β t ht
      (records t (c :: cs)).length (block.bytes.length + 1) 0 (c :: cs ++ [b]) [] block
      (.openWrite []) hlength (hwrite ▸ l.block.checkRead_write) rfl
      hblock (by rw [hwrite]; rfl) (hblock ▸ hf)
      (fun hnil => absurd hnil (List.cons_ne_nil _ _)) (fun _ => hfirst) hlast
    refine ⟨block', index', ?_, hblock'.trans (hblock.trans hb.symm), hindex'⟩
    rw [hrun, hloop]
    rfl

/- What `open` makes of the log before it looks at the index. -/
def opened (t : BlockType β) (b : β) (block : Stream) (index : List UInt8) : BlockLog β :=
  ⟨some b, t.id b, block, .openWrite index⟩

/-- The head is read, then the index is looked at. -/
theorem openFiles_eq (ht : t.Lawful) {init : List β} {b : β} (hf : Fits t (init ++ [b]))
    (index : Option (List UInt8)) :
    ∃ block : Stream, block.bytes = records t (init ++ [b]) ∧
      BlockLog.openFiles t (some (records t (init ++ [b]))) index =
        if (index.getD []).length ≠ 0 then (opened t b block (index.getD [])).checkIndex t
        else (opened t b block (index.getD [])).constructIndex t := by
  have hfile : (Stream.openWrite (records t (init ++ [b]))).bytes.length ≠ 0 := by
    have hbytes : (Stream.openWrite (records t (init ++ [b]))).bytes = records t (init ++ [b]) :=
      rfl
    have hle := length_le_records (t := t) (init ++ [b])
    rw [List.length_append, List.length_singleton] at hle
    rw [hbytes]
    omega
  have hlastWord : BlockLog.readLastWord (.openRead (records t (init ++ [b]))) =
      .ok ((records t init).length, { Stream.openRead (records t (init ++ [b])) with
        pos := (records t (init ++ [b])).length }) :=
    readLastWord_eq rfl hf.init (records_concat init b)
  obtain ⟨block, hblock, -, hread⟩ := readBlock_eq (l := ⟨none, 0,
    { Stream.openRead (records t (init ++ [b])) with pos := (records t (init ++ [b])).length },
    .openWrite (index.getD [])⟩) ht (records_split init [] b)
  refine ⟨block, hblock, ?_⟩
  have hhead : BlockLog.readHead t ⟨none, 0, .openWrite (records t (init ++ [b])),
      .openWrite (index.getD [])⟩ = .ok (b, ⟨none, 0, block, .openWrite (index.getD [])⟩) := by
    have hcheck : (Stream.openWrite (records t (init ++ [b]))).checkRead =
        .openRead (records t (init ++ [b])) := rfl
    unfold BlockLog.readHead
    rw [hcheck, hlastWord]
    simp only [bind, Except.bind]
    rw [hread]
    rfl
  unfold BlockLog.openFiles
  simp only [Option.getD_some]
  rw [if_pos hfile, hhead]
  rfl

/-- An index shorter than a word has no end to read. -/
theorem checkIndex_short (h8 : 8 ≤ l.block.bytes.length) (h : l.index.bytes.length < 8) :
    l.checkIndex t = .error .stream := by
  have hshort : ¬8 ≤ l.index.checkRead.bytes.length := by
    rw [Stream.checkRead_bytes]
    omega
  have herror : BlockLog.readLastWord l.index.checkRead = .error .stream := by
    unfold BlockLog.readLastWord Stream.seekEnd
    rw [if_neg hshort]
    rfl
  unfold BlockLog.checkIndex
  rw [readLastWord_ok l.block.checkRead_write (l.block.checkRead_bytes.symm ▸ h8), herror]
  rfl

/-- An index is kept where its last word is the last position, and built again elsewhere. -/
theorem checkIndex_eq {init : List β} {b : β} (hf : Fits t (init ++ [b]))
    (hb : l.block.bytes = records t (init ++ [b])) (h : 8 ≤ l.index.bytes.length) :
    ∃ block index : Stream, block.bytes = l.block.bytes ∧ index.bytes = l.index.bytes ∧
      (decodeLE (l.index.bytes.drop (l.index.bytes.length - 8)) = (records t init).length →
        l.checkIndex t = .ok { l with block := block, index := index }) ∧
      (decodeLE (l.index.bytes.drop (l.index.bytes.length - 8)) ≠ (records t init).length →
        l.checkIndex t =
          BlockLog.constructIndex t { l with block := block, index := index }) := by
  have hblock := readLastWord_eq l.block.checkRead_write hf.init
    (l.block.checkRead_bytes.trans (hb.trans (records_concat init b)))
  have hindex := readLastWord_ok l.index.checkRead_write (l.index.checkRead_bytes.symm ▸ h)
  simp only [Stream.checkRead_bytes, Stream.checkRead_write] at hblock hindex
  refine ⟨⟨l.block.bytes, l.block.bytes.length, false⟩,
    ⟨l.index.bytes, l.index.bytes.length, false⟩, rfl, rfl, ?_, ?_⟩
  · intro hlast
    unfold BlockLog.checkIndex
    rw [hblock, hindex, hlast]
    simp only [bind, Except.bind, if_neg (Nat.lt_irrefl _)]
    rfl
  · intro hlast
    unfold BlockLog.checkIndex
    rw [hblock, hindex]
    simp only [bind, Except.bind]
    rcases Nat.lt_or_gt_of_ne hlast with hlt | hgt
    · rw [if_neg (Nat.lt_asymm hlt), if_pos hlt]
    · rw [if_pos hgt]

/-- The last block is found at the end of the index. -/
theorem Serves.index_length (ht : t.Lawful) {init : List β} {b : β}
    (hn : Numbered t (init ++ [b])) (hhead : l.head = some b) (hid : l.headId = t.id b)
    (h : Serves t l (init ++ [b])) : 8 * (init ++ [b]).length ≤ l.index.bytes.length := by
  by_contra hshort
  obtain ⟨l', hread⟩ := h.read (init.length + 1)
  have hnum : Chain.numFromId l.headId = init.length + 1 := by
    rw [hid, ht.numFromId_id, hn init.length b (by simp)]
  have hword : (l.index.checkRead.seekg (8 * init.length)).readWord = none := by
    refine Stream.readWord_none ?_
    have hbytes : (l.index.checkRead.seekg (8 * init.length)).bytes = l.index.bytes :=
      l.index.checkRead_bytes
    have hpos : (l.index.checkRead.seekg (8 * init.length)).pos = 8 * init.length := rfl
    rw [List.length_append, List.length_singleton] at hshort
    rw [hbytes, hpos]
    omega
  have hpos : l.getBlockPos (init.length + 1) = .error .stream := by
    unfold BlockLog.getBlockPos
    rw [if_neg]
    · simp only [Nat.add_sub_cancel, pure, bind, Except.bind, Except.pure]
      rw [hword]
      rfl
    · exact not_not_intro ⟨hhead ▸ rfl, Nat.le_of_eq hnum.symm, Nat.succ_pos _⟩
  unfold BlockLog.readBlockByNum at hread
  rw [hpos] at hread
  cases hread

/-- The indexes of a log that `open` copes with: a complete one, none at all where the log has two
records, and one whose last eight bytes are not the position of the last record. -/
def IndexUsable (t : BlockType β) (bs : List β) (index : List UInt8) : Prop :=
  index.length = 8 * bs.length ∨ index = [] ∧ 2 ≤ bs.length ∨
    8 ≤ index.length ∧ decodeLE (index.drop (index.length - 8)) ≠ (records t bs.dropLast).length

section

variable {init : List β} {b : β}

theorem holds_opened {block index : Stream} (hblock : block.bytes = records t (init ++ [b]))
    (hindex : index.bytes = indexOf t (init ++ [b])) :
    Holds t ⟨some b, t.id b, block, index⟩ (init ++ [b]) := by
  have hlast : (init ++ [b]).getLast? = some b := List.getLast?_concat
  refine ⟨hblock, hindex, hlast.symm, ?_⟩
  intro c hc
  rw [hlast] at hc
  cases hc
  rfl

/-- An index that is built anew serves a log of two records or more. -/
theorem constructIndex_serves (ht : t.Lawful) (hn : Numbered t (init ++ [b]))
    (hf : Fits t (init ++ [b])) {block index : Stream}
    (hblock : block.bytes = records t (init ++ [b])) :
    (∃ l, BlockLog.constructIndex t ⟨some b, t.id b, block, index⟩ = .ok l ∧
      Serves t l (init ++ [b])) ↔ init ≠ [] := by
  obtain ⟨block', index', hrun, hblock', hindex'⟩ :=
    constructIndex_eq (l := ⟨some b, t.id b, block, index⟩) ht hf hblock
  rw [hrun]
  constructor
  · rintro ⟨l, hl, hserves⟩ rfl
    cases hl
    have hle := hserves.index_length ht hn rfl rfl
    rw [hindex', if_pos rfl] at hle
    cases hle
  · intro hne
    rw [if_neg hne] at hindex'
    exact ⟨_, rfl, (holds_opened (hblock'.trans hblock) hindex').serves ht hn hf⟩

end

/-- An opened log serves its blocks exactly where `open` copes with the index it found. -/
theorem opens_iff (ht : t.Lawful) (hne : bs ≠ []) (hn : Numbered t bs) (hf : Fits t bs)
    {index : Option (List UInt8)} (hindex : index.getD [] <+: indexOf t bs) :
    (∃ l, BlockLog.openFiles t (some (records t bs)) index = .ok l ∧ Serves t l bs) ↔
      IndexUsable t bs (index.getD []) := by
  obtain ⟨init, b, rfl⟩ := (List.eq_nil_or_concat' bs).resolve_left hne
  obtain ⟨block, hblock, hopen⟩ := openFiles_eq ht hf index
  generalize index.getD [] = idx at hindex hopen ⊢
  obtain ⟨rest, hrest⟩ := hindex
  have hlength : idx.length + rest.length = 8 * (init.length + 1) := by
    rw [← List.length_append, hrest, indexOf_length, List.length_append, List.length_singleton]
  rw [hopen, IndexUsable, List.dropLast_concat, List.length_append, List.length_singleton]
  rcases Nat.lt_or_ge idx.length 8 with hshort | hlong
  · cases idx with
    | nil =>
      rw [if_neg (not_not_intro List.length_nil)]
      refine (constructIndex_serves ht hn hf hblock).trans ?_
      rw [← List.length_pos_iff]
      simp
      omega
    | cons x xs =>
      have h8 : 8 ≤ block.bytes.length := by
        have hle := records_length_lt (t := t) init [] b
        rw [hblock]
        omega
      rw [if_pos (List.length_cons ▸ Nat.succ_ne_zero _), checkIndex_short h8 hshort]
      have hcons : (x :: xs).length = xs.length + 1 := List.length_cons
      refine iff_of_false (fun ⟨l, hl, _⟩ => by cases hl) ?_
      rintro (hfull | ⟨hnil, -⟩ | ⟨h8, -⟩)
      · omega
      · cases hnil
      · omega
  · obtain ⟨block', index', hblock', hindex', hcurrent, hstale⟩ :=
      checkIndex_eq (l := opened t b block idx) hf hblock hlong
    rw [if_pos (Nat.ne_of_gt (Nat.lt_of_lt_of_le (by decide) hlong))]
    by_cases hlast : decodeLE (idx.drop (idx.length - 8)) = (records t init).length
    · rw [hcurrent hlast]
      constructor
      · rintro ⟨l, hl, hserves⟩
        cases hl
        have hle := hserves.index_length ht hn rfl rfl
        have hidx : index'.bytes.length = idx.length := congrArg List.length hindex'
        rw [List.length_append, List.length_singleton, hidx] at hle
        omega
      · rintro (hfull | ⟨rfl, -⟩ | ⟨-, hother⟩)
        · have hnil : rest = [] := List.eq_nil_of_length_eq_zero (by omega)
          rw [hnil, List.append_nil] at hrest
          exact ⟨_, rfl, (holds_opened (hblock'.trans hblock) (hindex'.trans hrest)).serves ht hn
            hf⟩
        · exact absurd hlong (by decide)
        · exact absurd hlast hother
    · rw [hstale hlast]
      refine (constructIndex_serves ht hn hf (hblock'.trans hblock)).trans ?_
      refine iff_of_true ?_ (Or.inr (Or.inr ⟨hlong, hlast⟩))
      -- With one record the index is complete, and its only position is the last one.
      rintro rfl
      rw [List.length_nil] at hlength
      have hnil : rest = [] := List.eq_nil_of_length_eq_zero (by omega)
      have hone : indexOf t ([] ++ [b]) = encodeLE 8 0 := indexOf_concat [] b
      have hzero : (records t []).length = 0 := rfl
      rw [hnil, List.append_nil, hone] at hrest
      rw [hrest, hzero] at hlast
      exact hlast (by decide)

/-- A log of two records whose index is lost serves them. -/
theorem opens_withoutIndex :
    (∃ l, BlockLog.openFiles EmptyBlock.hashed
        (some (records EmptyBlock.hashed [.first, .second])) none = .ok l ∧
      Serves EmptyBlock.hashed l [.first, .second]) ∧
    IndexUsable EmptyBlock.hashed [.first, .second] [] := by
  have husable : IndexUsable EmptyBlock.hashed [.first, .second] [] :=
    Or.inr (Or.inl ⟨rfl, Nat.le_refl 2⟩)
  have hnumbered : Numbered EmptyBlock.hashed [.first, .second] := by
    intro i b hb
    match i, hb with
    | 0, hb =>
      cases hb
      decide
    | 1, hb =>
      cases hb
      decide
  have hfits : Fits EmptyBlock.hashed [.first, .second] := by
    unfold Fits
    decide +kernel
  exact ⟨(@opens_iff _ _ _ (EmptyBlock.type_lawful EmptyBlock.digest) (List.cons_ne_nil _ _)
    hnumbered hfits none List.nil_prefix).2 husable, husable⟩

/-- The block of a log of one record is not found once the index is lost. -/
theorem first_notFound :
    ((BlockLog.openFiles EmptyBlock.hashed
      (some (records EmptyBlock.hashed [.first])) none).map fun l =>
        (l.head, (l.readBlockByNum EmptyBlock.hashed 1).map (·.1))) =
      .ok (some .first, .error .stream) := by
  decide +kernel

end WeNode.Log

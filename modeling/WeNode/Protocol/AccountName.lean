import WeNode.Chain.Operations

/-!
# Account names

libraries/protocol/authority.cpp, `is_valid_account_name`: the scan of a name label by label, with
the positions where the source keeps them, and the grammar it accepts.
-/

namespace WeNode.Protocol.AccountName

open WeNode.Chain

/-! ### The scan -/

def minAccountNameLength : Nat := 3
def maxAccountNameLength : Nat := 16

/-- `case 'a': … case 'z':` -/
def isLowerCase (c : UInt8) : Bool := decide (97 ≤ c ∧ c ≤ 122)

/-- `case '0': … case '9':` -/
def isDecimalDigit (c : UInt8) : Bool := decide (48 ≤ c ∧ c ≤ 57)

def dot : UInt8 := 46
def hyphen : UInt8 := 45

/-- `name[i]` -/
def byteAt (name : Bytes) (i : Nat) : UInt8 := name[i]?.getD 0

/- `name.find_first_of( '.', begin )`, with the length of the name for `npos` -/
def labelEnd (name : Bytes) (start : Nat) : Nat :=
  match (name.drop start).findIdx? (· == dot) with
  | some i => start + i
  | none => name.length

/-- `for( size_t i=begin+1; i<end-1; i++ )`, the middle characters of one label -/
def middleValid (name : Bytes) (start stop : Nat) : Bool :=
  (List.range' (start + 1) (stop - 1 - (start + 1))).all fun i =>
    isLowerCase (byteAt name i) || isDecimalDigit (byteAt name i) || byteAt name i == hyphen

/- The tests one turn of the loop makes of the label between `start` and `stop`. -/
def labelValid (name : Bytes) (start stop : Nat) : Bool :=
  if stop - start < minAccountNameLength then false
  else if !isLowerCase (byteAt name start) then false
  else if !(isLowerCase (byteAt name (stop - 1)) || isDecimalDigit (byteAt name (stop - 1))) then
    false
  else if 2 < name.length then middleValid name start stop
  else true

theorem labelValid_long {name : Bytes} {start stop : Nat} (h : labelValid name start stop = true) :
    minAccountNameLength ≤ stop - start := by
  unfold labelValid at h
  split at h
  · cases h
  · omega

theorem labelEnd_le {name : Bytes} {start : Nat} (hle : start ≤ name.length) :
    labelEnd name start ≤ name.length := by
  unfold labelEnd
  split
  · next i hi =>
    have hlt : i < (name.drop start).length := (List.findIdx?_eq_some_iff_getElem.1 hi).1
    rw [List.length_drop] at hlt
    omega
  · exact Nat.le_refl _

/-- `while( true )`, from `begin = start` on -/
def labelsValidFrom (name : Bytes) (start : Nat) : Bool :=
  if labelValid name start (labelEnd name start) = true then
    if labelEnd name start = name.length then true
    else labelsValidFrom name (labelEnd name start + 1)
  else false
termination_by name.length - start
decreasing_by
  next hvalid _ =>
  have hlong := labelValid_long hvalid
  have h3 : 3 ≤ labelEnd name start - start := hlong
  by_cases hle : start ≤ name.length
  · have := labelEnd_le hle
    omega
  · have hnil : name.drop start = [] := List.drop_eq_nil_of_le (by omega)
    have heq : labelEnd name start = name.length := by
      unfold labelEnd
      rw [hnil]
      rfl
    omega

def isValidAccountName (name : Bytes) : Bool :=
  if name.length < minAccountNameLength then false
  else if name.length > maxAccountNameLength then false
  else labelsValidFrom name 0

example : isValidAccountName "a-b1.foo.x0-9".toUTF8.toList = true := by decide +kernel

/-! ### The grammar -/

/-- A label: a lower-case letter, lower-case letters, digits and hyphens, and a lower-case letter
or a digit at the end. -/
structure Label where
  first : UInt8
  middle : Bytes
  last : UInt8
  first_valid : isLowerCase first = true
  middle_valid : ∀ c ∈ middle, isLowerCase c = true ∨ isDecimalDigit c = true ∨ c = hyphen
  last_valid : isLowerCase last = true ∨ isDecimalDigit last = true
  long : 3 ≤ (first :: middle ++ [last]).length

namespace Label

def bytes (l : Label) : Bytes := l.first :: l.middle ++ [l.last]

/-- The labels, joined by single dots. -/
def joined (labels : List Label) : Bytes := List.intercalate [dot] (labels.map bytes)

theorem joined_one (l : Label) : joined [l] = l.bytes := by
  simp [joined]

theorem joined_cons (l l' : Label) (ls : List Label) :
    joined (l :: l' :: ls) = l.bytes ++ dot :: joined (l' :: ls) := by
  simp [joined, List.intercalate]

theorem lowerCase_ne_dot {c : UInt8} (h : isLowerCase c = true) : c ≠ dot := by
  rintro rfl
  exact absurd h (by decide)

theorem digit_ne_dot {c : UInt8} (h : isDecimalDigit c = true) : c ≠ dot := by
  rintro rfl
  exact absurd h (by decide)

theorem no_dot (l : Label) : ∀ c ∈ l.bytes, c ≠ dot := by
  intro c hc
  simp only [bytes, List.cons_append, List.mem_cons, List.mem_append, List.not_mem_nil,
    or_false] at hc
  rcases hc with hfirst | hmiddle | hlast
  · rw [hfirst]
    exact lowerCase_ne_dot l.first_valid
  · rcases l.middle_valid c hmiddle with hletter | hdigit | hhyphen
    · exact lowerCase_ne_dot hletter
    · exact digit_ne_dot hdigit
    · rw [hhyphen]
      decide
  · rw [hlast]
    rcases l.last_valid with hletter | hdigit
    · exact lowerCase_ne_dot hletter
    · exact digit_ne_dot hdigit

end Label

/-! ### The scan accepts the grammar -/

theorem byteAt_append (p q : Bytes) (i : Nat) : byteAt (p ++ q) (p.length + i) = byteAt q i := by
  unfold byteAt
  rw [List.getElem?_append_right (Nat.le_add_right _ _), Nat.add_sub_cancel_left]

theorem byteAt_of_lt {w : Bytes} (r : Bytes) {i : Nat} (hi : i < w.length) :
    byteAt (w ++ r) i = w[i] := by
  unfold byteAt
  rw [List.getElem?_append_left hi, List.getElem?_eq_getElem hi]
  rfl

theorem findIdx?_no_dot {w : Bytes} (hw : dot ∉ w) : w.findIdx? (· == dot) = none := by
  rw [List.findIdx?_eq_none_iff]
  intro c hc
  rw [beq_eq_false_iff_ne]
  rintro rfl
  exact hw hc

theorem labelEnd_dot (p r : Bytes) {w : Bytes} (hw : dot ∉ w) :
    labelEnd (p ++ (w ++ dot :: r)) p.length = p.length + w.length := by
  have hfind : (w ++ dot :: r).findIdx? (· == dot) = some w.length := by
    rw [List.findIdx?_append, findIdx?_no_dot hw, List.findIdx?_cons]
    simp
  unfold labelEnd
  rw [List.drop_left, hfind]

theorem labelEnd_none (p : Bytes) {w : Bytes} (hw : dot ∉ w) :
    labelEnd (p ++ w) p.length = p.length + w.length := by
  unfold labelEnd
  rw [List.drop_left, findIdx?_no_dot hw, List.length_append]

theorem split_ends {α : Type} {w : List α} (h : 3 ≤ w.length) :
    ∃ first middle last, w = first :: middle ++ [last] := by
  cases w with
  | nil => simp at h
  | cons first rest =>
    have hne : rest ≠ [] := by
      rintro rfl
      simp at h
    exact ⟨first, rest.dropLast, rest.getLast hne, by
      rw [List.cons_append, List.dropLast_append_getLast hne]⟩

theorem middleValid_iff (p middle r : Bytes) (first last : UInt8) :
    middleValid (p ++ ((first :: middle ++ [last]) ++ r)) p.length
        (p.length + (first :: middle ++ [last]).length) = true ↔
      ∀ c ∈ middle, isLowerCase c = true ∨ isDecimalDigit c = true ∨ c = hyphen := by
  have hcount : p.length + (first :: middle ++ [last]).length - 1 - (p.length + 1)
      = middle.length := by
    simp only [List.length_append, List.length_cons, List.length_nil]
    omega
  have hbyte : ∀ i (hi : i < middle.length),
      byteAt (p ++ ((first :: middle ++ [last]) ++ r)) (p.length + 1 + i) = middle[i] := by
    intro i hi
    have hlt : 1 + i < (first :: middle ++ [last]).length := by
      simp only [List.length_append, List.length_cons, List.length_nil]
      omega
    rw [Nat.add_assoc, byteAt_append, byteAt_of_lt r hlt]
    simp only [Nat.add_comm 1 i, List.cons_append, List.getElem_cons_succ]
    exact List.getElem_append_left hi
  unfold middleValid
  rw [hcount]
  simp only [List.all_eq_true, List.mem_range'_1, Bool.or_eq_true, beq_iff_eq, or_assoc]
  constructor
  · intro h c hc
    obtain ⟨i, hi, hget⟩ := List.getElem_of_mem hc
    have hvalid := h (p.length + 1 + i) (by omega)
    rw [hbyte i hi, hget] at hvalid
    exact hvalid
  · intro h i hi
    have hlt : i - (p.length + 1) < middle.length := by omega
    have hat := hbyte _ hlt
    rw [show p.length + 1 + (i - (p.length + 1)) = i by omega] at hat
    rw [hat]
    exact h _ (List.getElem_mem hlt)

theorem labelValid_iff (p w r : Bytes) (hlen : 2 < (p ++ (w ++ r)).length) :
    labelValid (p ++ (w ++ r)) p.length (p.length + w.length) = true ↔
      ∃ l : Label, l.bytes = w := by
  have hwidth : p.length + w.length - p.length = w.length := by omega
  by_cases hshort : w.length < minAccountNameLength
  · have hfalse : labelValid (p ++ (w ++ r)) p.length (p.length + w.length) = false := by
      unfold labelValid
      rw [hwidth, if_pos hshort]
    rw [hfalse]
    constructor
    · intro h
      cases h
    · rintro ⟨l, rfl⟩
      exact absurd l.long (Nat.not_le.2 hshort)
  · have h3 : 3 ≤ w.length := Nat.le_of_not_lt hshort
    obtain ⟨first, middle, last, rfl⟩ := split_ends h3
    have hfirst : byteAt (p ++ ((first :: middle ++ [last]) ++ r)) p.length = first :=
      byteAt_append p ((first :: middle ++ [last]) ++ r) 0
    have hlast : byteAt (p ++ ((first :: middle ++ [last]) ++ r))
        (p.length + (first :: middle ++ [last]).length - 1) = last := by
      have hpos : p.length + (first :: middle ++ [last]).length - 1
          = p.length + (middle.length + 1) := by
        simp only [List.length_append, List.length_cons, List.length_nil]
        omega
      have hlt : middle.length + 1 < (first :: middle ++ [last]).length := by
        simp
      rw [hpos, byteAt_append, byteAt_of_lt r hlt]
      simp
    have hmiddle := middleValid_iff p middle r first last
    unfold labelValid
    rw [hwidth, if_neg hshort, hfirst, hlast, if_pos hlen]
    constructor
    · intro h
      split at h
      · cases h
      next hletter =>
      split at h
      · cases h
      next hend =>
      refine ⟨⟨first, middle, last, ?_, hmiddle.1 h, ?_, h3⟩, rfl⟩
      · simpa using hletter
      · simpa only [Bool.not_eq_true', Bool.not_eq_false, Bool.or_eq_true] using hend
    · rintro ⟨l, hl⟩
      have hparts : l.first = first ∧ l.middle = middle ∧ l.last = last := by
        simp only [Label.bytes, List.cons_append, List.cons.injEq] at hl
        have htail := List.append_inj' hl.2 rfl
        exact ⟨hl.1, htail.1, (List.cons.inj htail.2).1⟩
      obtain ⟨rfl, rfl, rfl⟩ := hparts
      have hend : (isLowerCase l.last || isDecimalDigit l.last) = true := by
        rw [Bool.or_eq_true]
        exact l.last_valid
      rw [l.first_valid, hend]
      exact hmiddle.2 l.middle_valid

/- The turn of the loop over a label with a dot after it. -/
theorem labelsValidFrom_dot (p r : Bytes) {w : Bytes} (hw : dot ∉ w)
    (hlen : 2 < (p ++ (w ++ dot :: r)).length) :
    labelsValidFrom (p ++ (w ++ dot :: r)) p.length = true ↔
      (∃ l : Label, l.bytes = w) ∧
        labelsValidFrom (p ++ w ++ [dot] ++ r) (p ++ w ++ [dot]).length = true := by
  have hmore : p.length + w.length ≠ (p ++ (w ++ dot :: r)).length := by
    simp only [List.length_append, List.length_cons]
    omega
  have hnext : p ++ w ++ [dot] ++ r = p ++ (w ++ dot :: r) := by simp
  have hpos : (p ++ w ++ [dot]).length = p.length + w.length + 1 := by
    simp only [List.length_append, List.length_cons, List.length_nil]
  rw [labelsValidFrom, labelEnd_dot p r hw, if_neg hmore, hnext, hpos]
  have hlabel := labelValid_iff p w (dot :: r) hlen
  by_cases hvalid : labelValid (p ++ (w ++ dot :: r)) p.length (p.length + w.length) = true
  · rw [if_pos hvalid]
    exact (and_iff_right (hlabel.1 hvalid)).symm
  · rw [if_neg hvalid]
    constructor
    · intro h
      cases h
    · intro h
      exact absurd (hlabel.2 h.1) hvalid

/- The turn over the last label. -/
theorem labelsValidFrom_last (p : Bytes) {w : Bytes} (hw : dot ∉ w) (hlen : 2 < (p ++ w).length) :
    labelsValidFrom (p ++ w) p.length = true ↔ ∃ l : Label, l.bytes = w := by
  have hlabel := labelValid_iff p w [] (by rwa [List.append_nil])
  rw [List.append_nil] at hlabel
  rw [labelsValidFrom, labelEnd_none p hw, if_pos List.length_append.symm, ← hlabel]
  by_cases hvalid : labelValid (p ++ w) p.length (p.length + w.length) = true
  · rw [if_pos hvalid, hvalid]
  · rw [if_neg hvalid]
    constructor
    · intro h
      cases h
    · intro h
      exact absurd h hvalid

theorem labelsValidFrom_append (p q : Bytes) (hlen : 2 < (p ++ q).length) :
    labelsValidFrom (p ++ q) p.length = true ↔
      ∃ labels : List Label, labels ≠ [] ∧ Label.joined labels = q := by
  -- the induction is on the bytes still to be read; each turn of the loop reads one label
  induction hn : q.length using Nat.strong_induction_on generalizing p q with
  | _ n ih =>
  have hrest : ∀ w r, q = w ++ dot :: r →
      (labelsValidFrom (p ++ w ++ [dot] ++ r) (p ++ w ++ [dot]).length = true ↔
        ∃ labels : List Label, labels ≠ [] ∧ Label.joined labels = r) := by
    intro w r hq
    have hshorter : r.length < n := by
      rw [← hn, hq, List.length_append, List.length_cons]
      omega
    have hlen' : 2 < (p ++ w ++ [dot] ++ r).length := by
      rw [hq] at hlen
      simpa using hlen
    exact ih r.length hshorter (p ++ w ++ [dot]) r hlen' rfl
  constructor
  · intro h
    by_cases hdot : dot ∈ q
    · obtain ⟨w, r, hq, hw⟩ := List.eq_append_cons_of_mem hdot
      rw [hq] at h hlen
      obtain ⟨⟨l, hl⟩, hmore⟩ := (labelsValidFrom_dot p r hw hlen).1 h
      obtain ⟨labels, hne, hjoined⟩ := (hrest w r hq).1 hmore
      obtain ⟨l', ls, rfl⟩ := List.exists_cons_of_ne_nil hne
      refine ⟨l :: l' :: ls, List.cons_ne_nil _ _, ?_⟩
      rw [Label.joined_cons, hjoined, hl, hq]
    · obtain ⟨l, hl⟩ := (labelsValidFrom_last p hdot hlen).1 h
      exact ⟨[l], List.cons_ne_nil _ _, by rw [Label.joined_one, hl]⟩
  · rintro ⟨labels, hne, hjoined⟩
    obtain ⟨l, ls, rfl⟩ := List.exists_cons_of_ne_nil hne
    have hw : dot ∉ l.bytes := fun hmem => l.no_dot dot hmem rfl
    cases ls with
    | nil =>
      rw [Label.joined_one] at hjoined
      rw [← hjoined] at hlen ⊢
      exact (labelsValidFrom_last p hw hlen).2 ⟨l, rfl⟩
    | cons l' ls =>
      rw [Label.joined_cons] at hjoined
      have hmore := (hrest _ _ hjoined.symm).2 ⟨l' :: ls, List.cons_ne_nil _ _, rfl⟩
      rw [← hjoined] at hlen ⊢
      exact (labelsValidFrom_dot p _ hw hlen).2 ⟨⟨l, rfl⟩, hmore⟩

theorem isValidAccountName_eq (name : Bytes) :
    isValidAccountName name = true ↔
      minAccountNameLength ≤ name.length ∧ name.length ≤ maxAccountNameLength ∧
        labelsValidFrom name 0 = true := by
  unfold isValidAccountName
  by_cases hmin : name.length < minAccountNameLength
  · rw [if_pos hmin]
    simp [Nat.not_le.2 hmin]
  by_cases hmax : name.length > maxAccountNameLength
  · rw [if_neg hmin, if_pos hmax]
    simp [Nat.not_le.2 hmax]
  rw [if_neg hmin, if_neg hmax]
  simp only [Nat.le_of_not_lt hmin, Nat.le_of_not_lt hmax, true_and]

theorem labelsValid_iff {name : Bytes} (hlong : minAccountNameLength ≤ name.length) :
    labelsValidFrom name 0 = true ↔
      ∃ labels : List Label, labels ≠ [] ∧ Label.joined labels = name :=
  labelsValidFrom_append [] name hlong

/-- The names `is_valid_account_name` accepts are those of the grammar. -/
theorem accepts_grammar (name : Bytes) :
    isValidAccountName name = true ↔
      minAccountNameLength ≤ name.length ∧ name.length ≤ maxAccountNameLength ∧
        ∃ labels : List Label, labels ≠ [] ∧ Label.joined labels = name := by
  rw [isValidAccountName_eq]
  exact and_congr_right fun hlong => and_congr_right fun _ => labelsValid_iff hlong

/-! ### The names of the chain's objects -/

theorem isLetter_toNat (c : UInt8) : isLetter c.toNat = isLowerCase c := by
  simp [isLetter, isLowerCase, UInt8.le_iff_toNat_le]

theorem isDigit_toNat (c : UInt8) : isDigit c.toNat = isDecimalDigit c := by
  simp [isDigit, isDecimalDigit, UInt8.le_iff_toNat_le]

theorem toNat_hyphen (c : UInt8) : (c.toNat == 45) = (c == hyphen) := by
  rw [Bool.eq_iff_iff, beq_iff_eq, beq_iff_eq, ← UInt8.toNat_inj]
  rfl

theorem byte_of_label {n : Nat} (h : isLetter n = true ∨ isDigit n = true ∨ n = 45) :
    (UInt8.ofNat n).toNat = n := by
  simp only [isLetter, isDigit, decide_eq_true_eq] at h
  exact UInt8.toNat_ofNat_of_lt' (by change n < 256; omega)

theorem getLastD_ends (first last : Nat) (middle : List Nat) :
    (first :: (middle ++ [last])).getLastD 0 = last := by
  rw [← List.cons_append, List.getLastD_eq_getLast?, List.getLast?_concat]
  rfl

theorem isValidLabel_iff (w : List Nat) :
    isValidLabel w = true ↔ ∃ l : Label, l.bytes.map UInt8.toNat = w := by
  constructor
  · intro h
    simp only [isValidLabel, Bool.and_eq_true, decide_eq_true_eq, Bool.or_eq_true,
      List.all_eq_true, beq_iff_eq] at h
    obtain ⟨⟨⟨hlong, hfirst⟩, hlast⟩, hmiddle⟩ := h
    obtain ⟨first, middle, last, rfl⟩ := split_ends hlong
    simp only [List.cons_append, List.headD_cons, List.tail_cons, List.dropLast_concat,
      or_assoc] at hfirst hmiddle
    have hlast' : isLetter last = true ∨ isDigit last = true := by
      rwa [List.cons_append, getLastD_ends] at hlast
    have hf : (UInt8.ofNat first).toNat = first := byte_of_label (.inl hfirst)
    have hl : (UInt8.ofNat last).toNat = last := by
      rcases hlast' with hletter | hdigit
      · exact byte_of_label (.inl hletter)
      · exact byte_of_label (.inr (.inl hdigit))
    have hm : ∀ c ∈ middle, (UInt8.ofNat c).toNat = c := fun c hc => byte_of_label (hmiddle c hc)
    refine ⟨⟨UInt8.ofNat first, middle.map UInt8.ofNat, UInt8.ofNat last, ?_, ?_, ?_, ?_⟩, ?_⟩
    · rw [← isLetter_toNat, hf]
      exact hfirst
    · intro c hc
      obtain ⟨n, hn, rfl⟩ := List.mem_map.1 hc
      have hvalid := hmiddle n hn
      rw [← hm n hn, isLetter_toNat, isDigit_toNat] at hvalid
      rcases hvalid with hletter | hdigit | hhyphen
      · exact .inl hletter
      · exact .inr (.inl hdigit)
      · exact .inr (.inr (UInt8.toNat_inj.1 hhyphen))
    · rw [← isLetter_toNat, ← isDigit_toNat, hl]
      exact hlast'
    · simpa using hlong
    · have hmap : (middle.map UInt8.ofNat).map UInt8.toNat = middle := by
        rw [List.map_map]
        exact (List.map_congr_left hm).trans (List.map_id _)
      simp only [Label.bytes, List.map_append, List.map_cons, List.map_nil, hf, hl, hmap]
  · rintro ⟨l, rfl⟩
    have hlong : 3 ≤ (l.bytes.map UInt8.toNat).length := by
      rw [List.length_map]
      exact l.long
    simp only [isValidLabel, Bool.and_eq_true, decide_eq_true_eq, Bool.or_eq_true,
      List.all_eq_true]
    refine ⟨⟨⟨hlong, ?_⟩, ?_⟩, ?_⟩
    · simpa [Label.bytes, isLetter_toNat] using l.first_valid
    · simp only [Label.bytes, List.cons_append, List.map_cons, List.map_append, List.map_nil,
        getLastD_ends, isLetter_toNat, isDigit_toNat]
      exact l.last_valid
    · intro n hn
      simp only [Label.bytes, List.cons_append, List.map_cons, List.tail_cons, List.map_append,
        List.map_nil, List.dropLast_concat] at hn
      obtain ⟨c, hc, rfl⟩ := List.mem_map.1 hn
      rw [isLetter_toNat, isDigit_toNat, toNat_hyphen, beq_iff_eq, or_assoc]
      exact l.middle_valid c hc

theorem joined_toNat (labels : List Label) :
    (Label.joined labels).map UInt8.toNat
      = List.intercalate [46] (labels.map fun l => l.bytes.map UInt8.toNat) := by
  induction labels with
  | nil => rfl
  | cons l ls ih =>
    cases ls with
    | nil => simp [Label.joined]
    | cons l' ls =>
      rw [Label.joined_cons, List.map_append, List.map_cons, ih]
      simp [List.intercalate]
      rfl

theorem labels_of_valid {parts : List (List Nat)} (h : parts.all isValidLabel = true) :
    ∃ labels : List Label, labels.map (fun l => l.bytes.map UInt8.toNat) = parts := by
  induction parts with
  | nil => exact ⟨[], rfl⟩
  | cons part parts ih =>
    rw [List.all_cons, Bool.and_eq_true] at h
    obtain ⟨l, hl⟩ := (isValidLabel_iff part).1 h.1
    obtain ⟨labels, hlabels⟩ := ih h.2
    exact ⟨l :: labels, by rw [List.map_cons, hl, hlabels]⟩

theorem nameBytes_lt (name : Name) : ∀ n ∈ nameBytes name, n < 256 := by
  intro n hn
  have hmem : n ∈ (List.range 16).map fun i => name / 256 ^ (15 - i) % 256 := by
    unfold nameBytes at hn
    simp only at hn
    split at hn
    · exact hn
    · exact (List.takeWhile_subset _) hn
  obtain ⟨i, -, rfl⟩ := List.mem_map.1 hmem
  exact Nat.mod_lt _ (by decide)

theorem splitOn_labels (name : Bytes) :
    ((name.map UInt8.toNat).splitOn 46).all isValidLabel = true ↔
      ∃ labels : List Label, labels ≠ [] ∧ Label.joined labels = name := by
  constructor
  · intro h
    obtain ⟨labels, hlabels⟩ := labels_of_valid h
    refine ⟨labels, ?_, ?_⟩
    · rintro rfl
      exact List.splitOn_ne_nil _ _ hlabels.symm
    · have hjoin : [46].intercalate ((name.map UInt8.toNat).splitOn 46) = name.map UInt8.toNat :=
        List.intercalate_splitOn 46
      rw [← hlabels, ← joined_toNat] at hjoin
      exact List.map_injective_iff.2 (fun _ _ => UInt8.toNat_inj.1) hjoin
  · rintro ⟨labels, hne, rfl⟩
    rw [joined_toNat, List.splitOn_intercalate]
    · rw [List.all_eq_true]
      intro part hpart
      obtain ⟨l, -, rfl⟩ := List.mem_map.1 hpart
      exact (isValidLabel_iff _).2 ⟨l, rfl⟩
    · intro part hpart hmem
      obtain ⟨l, -, rfl⟩ := List.mem_map.1 hpart
      obtain ⟨c, hc, hc46⟩ := List.mem_map.1 hmem
      exact l.no_dot c hc (UInt8.toNat_inj.1 hc46)
    · simpa using hne

/-- What the chain's operations check of an account name is the scan of its bytes. -/
theorem validateAccountName_scan (name : Name) :
    Chain.isValidAccountName name
      = isValidAccountName ((nameBytes name).map UInt8.ofNat) := by
  have hbytes : ((nameBytes name).map UInt8.ofNat).map UInt8.toNat = nameBytes name := by
    rw [List.map_map]
    refine (List.map_congr_left fun n hn => ?_).trans (List.map_id _)
    exact UInt8.toNat_ofNat_of_lt' (nameBytes_lt name n hn)
  have hlength : ((nameBytes name).map UInt8.ofNat).length = (nameBytes name).length :=
    List.length_map _
  have hlabels := splitOn_labels ((nameBytes name).map UInt8.ofNat)
  rw [hbytes] at hlabels
  rw [Bool.eq_iff_iff, isValidAccountName_eq, hlength]
  simp only [Chain.isValidAccountName, Bool.and_eq_true, decide_eq_true_eq, and_assoc]
  refine and_congr_right fun hlong => and_congr_right fun _ => ?_
  rw [labelsValid_iff (by rw [hlength]; exact hlong), hlabels]

end WeNode.Protocol.AccountName

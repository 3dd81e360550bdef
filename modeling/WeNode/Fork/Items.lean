import WeNode.Fork.ForkDatabase

/-!
# Items and branches of the fork database

What `fork_database` keeps true of its items, and what the walks along `prev` find: a branch
is a list of items in which each one's weak pointer names the next.
-/

namespace WeNode.Fork

variable {τ : Type} {hash : SignedBlock τ → Nat}

@[simp] theorem SignedBlock.id_num (b : SignedBlock τ) : (b.id hash).num = b.blockNum := rfl

theorem SignedBlock.id_ne_zero (b : SignedBlock τ) : b.id hash ≠ BlockId.zero := by
  intro h
  have hn := congrArg BlockId.num h
  simp [SignedBlock.blockNum, BlockId.zero] at hn

/-- The items of `S` agree with the blocks they carry, are told apart by their serial numbers
(all below `n`), and a `prev` names an item allocated earlier that carries the parent block. -/
structure Sound (hash : SignedBlock τ → Nat) (S : ForkItem τ → Prop) (n : Nat) : Prop where
  ptr_lt : ∀ {x}, S x → x.ptr < n
  ptr_inj : ∀ {x y}, S x → S y → x.ptr = y.ptr → x = y
  num_eq : ∀ {x}, S x → x.num = x.data.blockNum
  id_eq : ∀ {x}, S x → x.id = x.data.id hash
  prev_lt : ∀ {x p}, S x → x.prev = some p → p < x.ptr
  prev_id : ∀ {x y}, S x → S y → x.prev = some y.ptr → y.id = x.data.previous
  valid : ∀ {x}, S x → x.invalid = false

namespace Sound

variable {S : ForkItem τ → Prop} {n : Nat}

theorem mono (h : Sound hash S n) {T : ForkItem τ → Prop} (hT : ∀ x, T x → S x) :
    Sound hash T n where
  ptr_lt hx := h.ptr_lt (hT _ hx)
  ptr_inj hx hy := h.ptr_inj (hT _ hx) (hT _ hy)
  num_eq hx := h.num_eq (hT _ hx)
  id_eq hx := h.id_eq (hT _ hx)
  prev_lt hx := h.prev_lt (hT _ hx)
  prev_id hx hy := h.prev_id (hT _ hx) (hT _ hy)
  valid hx := h.valid (hT _ hx)

theorem id_num (h : Sound hash S n) {x : ForkItem τ} (hx : S x) : x.id.num = x.num := by
  rw [h.id_eq hx, h.num_eq hx]
  rfl

theorem previous_num (h : Sound hash S n) {x : ForkItem τ} (hx : S x) :
    x.data.previous.num + 1 = x.num := by
  rw [h.num_eq hx]
  rfl

/-- One step along `prev` goes down one block number. -/
theorem prev_num (h : Sound hash S n) {x y : ForkItem τ} (hx : S x) (hy : S y)
    (hp : x.prev = some y.ptr) : y.num + 1 = x.num := by
  rw [← h.previous_num hx, ← h.prev_id hx hy hp, h.id_num hy]

theorem data_inj (h : Sound hash S n) (hc : CollisionFree hash) {x : ForkItem τ} (hx : S x)
    {b : SignedBlock τ} (hb : x.id = b.id hash) : x.data = b :=
  hc _ _ (by rw [← h.id_eq hx, hb])

end Sound

/-- The weak pointer of `x` names `y`. -/
def Links (x y : ForkItem τ) : Prop := x.prev = some y.ptr

/-- A branch, the newest item first. -/
abbrev Branch (l : List (ForkItem τ)) : Prop := l.IsChain Links

theorem Branch.num_eq {S : ForkItem τ → Prop} {n : Nat} (hS : Sound hash S n) :
    ∀ (l : List (ForkItem τ)), Branch l → (∀ x ∈ l, S x) →
      ∀ (i : Nat) (x y : ForkItem τ), l.head? = some x → l[i]? = some y → y.num + i = x.num
  | [], _, _, i, x, y, h, _ => by simp at h
  | [a], _, _, i, x, y, h, hy => by
    cases i with
    | zero => simp_all
    | succ i => simp at hy
  | a :: b :: l, hl, hm, i, x, y, h, hy => by
    obtain ⟨hab, hl'⟩ := List.isChain_cons_cons.mp hl
    have hx : a = x := by simpa using h
    subst hx
    cases i with
    | zero =>
      have hya : a = y := by simpa using hy
      rw [hya]; rfl
    | succ i =>
      have hy' : (b :: l)[i]? = some y := by simpa using hy
      have ih := Branch.num_eq hS (b :: l) hl' (fun z hz => hm z (List.mem_cons_of_mem _ hz))
        i b y rfl hy'
      have hpn := hS.prev_num (hm a (List.mem_cons_self ..)) (hm b (by simp)) hab
      omega

/-- A branch is no longer than the serial numbers allow. -/
theorem Branch.length_le {S : ForkItem τ → Prop} {n : Nat} (hS : Sound hash S n)
    {l : List (ForkItem τ)} (hl : Branch l) (hm : ∀ x ∈ l, S x) {x : ForkItem τ}
    (hx : l.head? = some x) : l.length ≤ x.ptr + 1 := by
  induction l generalizing x with
  | nil => simp at hx
  | cons y l ih =>
    have hyx : y = x := by simpa using hx
    subst hyx
    cases l with
    | nil => simp
    | cons z l =>
      have hlink := (List.isChain_cons_cons.mp hl).1
      have := ih (List.isChain_cons.mp hl).2 (fun w hw => hm w (List.mem_cons_of_mem _ hw)) rfl
      have := hS.prev_lt (hm y (by simp)) hlink
      simp only [List.length_cons] at *
      omega

namespace ForkDatabase

variable (db : ForkDatabase τ) (held : List (ForkItem τ))

theorem mem_live {x : ForkItem τ} :
    x ∈ db.live held ↔ x ∈ db.index ∨ db.head = some x ∨ x ∈ held := by
  simp [live]

theorem lock_mem {p : Option Nat} {y : ForkItem τ} (h : db.lock held p = some y) :
    y ∈ db.live held ∧ p = some y.ptr := by
  cases p with
  | none => simp [lock] at h
  | some q =>
    simp only [lock, Option.bind_some] at h
    have hm := List.mem_of_find?_eq_some h
    have hq := List.find?_some h
    simp only [decide_eq_true_eq] at hq
    exact ⟨hm, by rw [hq]⟩

theorem lock_eq_some {S : ForkItem τ → Prop} {n : Nat} (hS : Sound hash S n)
    (hl : ∀ x ∈ db.live held, S x) {y : ForkItem τ} (hy : y ∈ db.live held) :
    db.lock held (some y.ptr) = some y := by
  simp only [lock, Option.bind_some]
  cases hf : (db.live held).find? (fun x => x.ptr = y.ptr) with
  | none =>
    have := List.find?_eq_none.mp hf y hy
    simp at this
  | some z =>
    have hz := List.mem_of_find?_eq_some hf
    have hq := List.find?_some hf
    simp only [decide_eq_true_eq] at hq
    rw [hS.ptr_inj (hl z hz) (hl y hy) hq]

/-- The walk along `prev` passes a branch that ends in the item it returns. -/
theorem descend_branch {n fuel : Nat} {x y : ForkItem τ} {l : List (ForkItem τ)}
    (h : db.descend held n fuel x = some (l, y)) :
    Branch (l ++ [y]) ∧ (l ++ [y]).head? = some x ∧ (∀ z ∈ l ++ [y], z = x ∨ z ∈ db.live held) ∧
      (∀ z ∈ l, n < z.num) ∧ y.num ≤ n := by
  induction fuel generalizing x l with
  | zero => simp [descend] at h
  | succ fuel ih =>
    simp only [descend] at h
    split at h
    · next hn =>
      split at h
      · simp at h
      · next z hz =>
        obtain ⟨⟨l', y'⟩, hr, hp⟩ := Option.map_eq_some_iff.mp h
        obtain ⟨rfl, rfl⟩ := Prod.mk.injEq .. ▸ hp
        obtain ⟨hb, hh, hm, hnum, hle⟩ := ih hr
        obtain ⟨hzl, hzp⟩ := db.lock_mem held hz
        refine ⟨?_, rfl, ?_, ?_, hle⟩
        · cases hc : l' ++ [y'] with
          | nil => simp at hc
          | cons c t =>
            rw [hc] at hh hb
            have hcz : c = z := by simpa using hh
            simp only [List.cons_append, hc]
            exact List.isChain_cons_cons.mpr ⟨by rw [hcz]; exact hzp, hb⟩
        · intro w hw
          rcases List.mem_cons.mp hw with rfl | hw
          · exact .inl rfl
          · rcases hm w hw with rfl | hw'
            · exact .inr hzl
            · exact .inr hw'
        · intro w hw
          rcases List.mem_cons.mp hw with rfl | hw
          · exact hn
          · exact hnum w hw
    · next hn =>
      simp only [Option.some.injEq, Prod.mk.injEq] at h
      obtain ⟨rfl, rfl⟩ := h
      refine ⟨List.isChain_singleton _, rfl, by simp, by simp, by omega⟩

theorem descendBoth_branch {fuel : Nat} {x y : ForkItem τ} {l m : List (ForkItem τ)}
    (h : db.descendBoth held fuel x y = some (l, m)) :
    Branch l ∧ Branch m ∧ l.head? = some x ∧ m.head? = some y ∧ l.length = m.length ∧
      (∀ z ∈ l, z = x ∨ z ∈ db.live held) ∧ (∀ z ∈ m, z = y ∨ z ∈ db.live held) ∧
      ∃ a b, l.getLast? = some a ∧ m.getLast? = some b ∧ a.data.previous = b.data.previous := by
  induction fuel generalizing x y l m with
  | zero => simp [descendBoth] at h
  | succ fuel ih =>
    simp only [descendBoth] at h
    split at h
    · split at h
      · next x' y' hx hy =>
        obtain ⟨⟨l', m'⟩, hr, hp⟩ := Option.map_eq_some_iff.mp h
        obtain ⟨rfl, rfl⟩ := Prod.mk.injEq .. ▸ hp
        obtain ⟨hbl, hbm, hhl, hhm, hlen, hml, hmm, a, b, ha, hb, hab⟩ := ih hr
        obtain ⟨hxl, hxp⟩ := db.lock_mem held hx
        obtain ⟨hyl, hyp⟩ := db.lock_mem held hy
        cases l' with
        | nil => simp at hhl
        | cons c l' =>
          cases m' with
          | nil => simp at hhm
          | cons e m' =>
            have hcx : c = x' := by simpa using hhl
            have hey : e = y' := by simpa using hhm
            subst hcx hey
            refine ⟨List.isChain_cons_cons.mpr ⟨hxp, hbl⟩, List.isChain_cons_cons.mpr ⟨hyp, hbm⟩,
              rfl, rfl, by simpa using hlen, ?_, ?_, a, b, by simpa using ha, by simpa using hb,
              hab⟩
            · intro z hz
              rcases List.mem_cons.mp hz with rfl | hz
              · exact .inl rfl
              · rcases hml z hz with rfl | hz' <;> [exact .inr hxl; exact .inr hz']
            · intro z hz
              rcases List.mem_cons.mp hz with rfl | hz
              · exact .inl rfl
              · rcases hmm z hz with rfl | hz' <;> [exact .inr hyl; exact .inr hz']
      · simp at h
    · next he =>
      simp only [Option.some.injEq, Prod.mk.injEq] at h
      obtain ⟨rfl, rfl⟩ := h
      refine ⟨List.isChain_singleton _, List.isChain_singleton _, rfl, rfl, rfl, by simp, by simp,
        x, y, rfl, rfl, ?_⟩
      simpa using he

theorem fetchBlock_mem {i : BlockId} {x : ForkItem τ} (h : db.fetchBlock i = some x) :
    x ∈ db.index ∧ x.id = i := by
  refine ⟨List.mem_of_find?_eq_some h, ?_⟩
  have := List.find?_some h
  simpa using this

/-- What the fork database keeps true. -/
structure Ok (hash : SignedBlock τ → Nat) (db : ForkDatabase τ) : Prop where
  sound : Sound hash (fun x => x ∈ db.live []) db.nextPtr
  unique : ∀ x ∈ db.index, ∀ y ∈ db.index, x.id = y.id → x = y

variable {db} {held}

theorem index_live {x : ForkItem τ} (h : x ∈ db.index) : x ∈ db.live [] :=
  (db.mem_live []).mpr (.inl h)

theorem head_live {x : ForkItem τ} (h : db.head = some x) : x ∈ db.live [] :=
  (db.mem_live []).mpr (.inr (.inl h))

theorem live_of_head_mem {h : ForkItem τ} (hh : db.head = some h) (hi : h ∈ db.index)
    {x : ForkItem τ} (hx : x ∈ db.live []) : x ∈ db.index := by
  rcases (db.mem_live []).mp hx with hx | hx | hx
  · exact hx
  · rw [hh] at hx
    cases hx
    exact hi
  · simp at hx

theorem Ok.fetchBlock_eq (ok : db.Ok hash) {x : ForkItem τ} (hx : x ∈ db.index) :
    db.fetchBlock x.id = some x := by
  unfold fetchBlock
  cases hf : db.index.find? (fun y => y.id = x.id) with
  | none =>
    have := List.find?_eq_none.mp hf x hx
    simp at this
  | some y =>
    have hq := List.find?_some hf
    simp only [decide_eq_true_eq] at hq
    rw [ok.unique y (List.mem_of_find?_eq_some hf) x hx hq]

theorem empty_ok : (empty : ForkDatabase τ).Ok hash where
  sound := by constructor <;> simp [live, empty]
  unique := by simp [empty]

theorem startBlock_ok (b : SignedBlock τ) : (empty.startBlock hash b).Ok hash := by
  have hmem : ∀ {x}, x ∈ (empty.startBlock hash b).live [] →
      x = ⟨0, none, b.blockNum, false, b.id hash, b⟩ := by
    intro x hx
    simpa [live, startBlock, insert, empty] using hx
  constructor
  · constructor
    · intro x hx
      rw [hmem hx]
      exact Nat.one_pos
    · intro x y hx hy _
      rw [hmem hx, hmem hy]
    · intro x hx
      rw [hmem hx]
    · intro x hx
      rw [hmem hx]
    · intro x p hx hp
      rw [hmem hx] at hp
      cases hp
    · intro x y hx _ hp
      rw [hmem hx] at hp
      cases hp
    · intro x hx
      rw [hmem hx]
  · intro x hx y hy _
    rw [hmem (index_live hx), hmem (index_live hy)]

/-- Dropping items from the index and moving the head to an item of a sound set keeps the
fork database sound. -/
theorem Ok.shrink (ok : db.Ok hash) {db' : ForkDatabase τ}
    (hi : ∀ x ∈ db'.index, x ∈ db.index) (hh : ∀ x, db'.head = some x → x ∈ db.live [])
    (hn : db'.nextPtr = db.nextPtr) : db'.Ok hash where
  sound := by
    rw [hn]
    refine ok.sound.mono fun x hx => ?_
    rcases (db'.mem_live []).mp hx with hx | hx | hx
    · exact index_live (hi x hx)
    · exact hh x hx
    · simp at hx
  unique x hx y hy := ok.unique x (hi x hx) y (hi y hy)

/-! ### Pushing a block -/

/-- What a successful `push_block` of the fork database does. -/
structure Pushed (hash : SignedBlock τ → Nat) (db : ForkDatabase τ) (b : SignedBlock τ)
    (f : ForkDatabase τ) (item : ForkItem τ) : Prop where
  ok : f.Ok hash
  data : item.data = b
  id : item.id = b.id hash
  num : item.num = b.blockNum
  index : (f.index = db.index ++ [item] ∧ ∀ y ∈ db.index, y.id ≠ item.id) ∨
    (f.index = db.index ∧ ∃ y ∈ db.index, y.id = item.id)
  head : (f.head = some item ∧ ∀ h, db.head = some h → h.num < item.num) ∨
    ∃ h, db.head = some h ∧ f.head = some h ∧ item.num ≤ h.num
  prev_some : db.head ≠ none → b.previous ≠ BlockId.zero →
    ∃ p ∈ db.index, p.id = b.previous ∧ item.prev = some p.ptr
  prev_none : db.head = none ∨ b.previous = BlockId.zero → item.prev = none

theorem findParent_ok {b : SignedBlock τ} {prev : Option Nat} (h : db.findParent b = .ok prev) :
    (db.head ≠ none → b.previous ≠ BlockId.zero →
      ∃ p ∈ db.index, p.id = b.previous ∧ prev = some p.ptr) ∧
    (db.head = none ∨ b.previous = BlockId.zero → prev = none) := by
  unfold findParent at h
  cases hh : db.head with
  | none =>
    rw [hh] at h
    cases h
    simp
  | some t =>
    rw [hh] at h
    simp only at h
    split at h
    · cases h
    · split at h
      · next hz =>
        cases h
        exact ⟨fun _ hz' => absurd hz hz', fun _ => rfl⟩
      · next hz =>
        split at h
        · cases h
        · next p hp =>
          split at h
          · cases h
          · cases h
            obtain ⟨hm, hid⟩ := db.fetchBlock_mem hp
            exact ⟨fun _ _ => ⟨p, hm, hid, rfl⟩, by simp [hz]⟩

theorem insert_index (x : ForkItem τ) :
    ((db.insert x).index = db.index ++ [x] ∧ ∀ y ∈ db.index, y.id ≠ x.id) ∨
    ((db.insert x).index = db.index ∧ ∃ y ∈ db.index, y.id = x.id) := by
  unfold insert
  split
  · next h =>
    right
    simpa using h
  · next h =>
    left
    simpa using h

theorem link_fields (x : ForkItem τ) :
    (db.link x).index = (db.insert x).index ∧ (db.link x).nextPtr = db.nextPtr + 1 ∧
      (((db.link x).head = some x ∧ ∀ h, db.head = some h → h.num < x.num) ∨
        ∃ h, db.head = some h ∧ (db.link x).head = some h ∧ x.num ≤ h.num) := by
  have hh : (db.insert x).head = db.head := by unfold insert; split <;> rfl
  unfold link
  cases hd : db.head with
  | none => simp
  | some t =>
    by_cases hlt : t.num < x.num
    · simp [hlt]
    · simp only [hlt, if_false]
      exact ⟨trivial, trivial, .inr ⟨t, rfl, by rw [hh, hd], by omega⟩⟩

theorem pushBlock_spec (ok : db.Ok hash) {b : SignedBlock τ} {f : ForkDatabase τ}
    (h : db.pushBlock hash b = .ok f) : ∃ item, Pushed hash db b f item := by
  unfold pushBlock at h
  cases hp : db.findParent b with
  | error e => rw [hp] at h; cases h
  | ok prev =>
    rw [hp] at h
    cases h
    obtain ⟨hsome, hnone⟩ := findParent_ok hp
    generalize hx : (⟨db.nextPtr, prev, b.blockNum, false, b.id hash, b⟩ : ForkItem τ) = x
    obtain ⟨hidx, hnp, hhead⟩ := db.link_fields x
    have hnew : ∀ {y}, y ∈ (db.link x).live [] → y = x ∨ y ∈ db.live [] := by
      intro y hy
      rcases (mem_live _ []).mp hy with hy | hy | hy
      · rw [hidx] at hy
        rcases db.insert_index x with ⟨hi, -⟩ | ⟨hi, -⟩
        · rw [hi] at hy
          rcases List.mem_append.mp hy with hy | hy
          · exact .inr (index_live hy)
          · exact .inl (by simpa using hy)
        · rw [hi] at hy
          exact .inr (index_live hy)
      · rcases hhead with ⟨ht, -⟩ | ⟨t, htd, ht, -⟩
        · rw [ht] at hy
          cases hy
          exact .inl rfl
        · rw [ht] at hy
          cases hy
          exact .inr (head_live htd)
      · simp at hy
    have hS := ok.sound
    have hxp : x.ptr = db.nextPtr := by rw [← hx]
    have hprev : ∀ {p}, x.prev = some p →
        ∃ q ∈ db.index, q.id = x.data.previous ∧ p = q.ptr := by
      intro p hpp
      rw [← hx] at hpp ⊢
      simp only at hpp ⊢
      by_cases hz : db.head = none ∨ b.previous = BlockId.zero
      · rw [hnone hz] at hpp
        cases hpp
      · push Not at hz
        obtain ⟨q, hq, hqid, hqp⟩ := hsome hz.1 hz.2
        rw [hqp] at hpp
        exact ⟨q, hq, hqid, (Option.some.inj hpp).symm⟩
    refine ⟨x, ?_, by rw [← hx], by rw [← hx], by rw [← hx], ?_, ?_, ?_, ?_⟩
    · constructor
      · rw [hnp]
        constructor
        · intro y hy
          rcases hnew hy with rfl | hy
          · omega
          · have := hS.ptr_lt hy; omega
        · intro y z hy hz hyz
          rcases hnew hy with hyx | hy' <;> rcases hnew hz with hzx | hz'
          · rw [hyx, hzx]
          · have := hS.ptr_lt hz'
            rw [hyx] at hyz
            omega
          · have := hS.ptr_lt hy'
            rw [hzx] at hyz
            omega
          · exact hS.ptr_inj hy' hz' hyz
        · intro y hy
          rcases hnew hy with rfl | hy
          · rw [← hx]
          · exact hS.num_eq hy
        · intro y hy
          rcases hnew hy with rfl | hy
          · rw [← hx]
          · exact hS.id_eq hy
        · intro y p hy hyp
          rcases hnew hy with rfl | hy
          · obtain ⟨q, hq, -, rfl⟩ := hprev hyp
            have := hS.ptr_lt (index_live hq)
            omega
          · exact hS.prev_lt hy hyp
        · intro y z hy hz hyz
          rcases hnew hy with hyx | hy'
          · rw [hyx] at hyz ⊢
            obtain ⟨q, hq, hqid, hqp⟩ := hprev hyz
            rcases hnew hz with hzx | hz'
            · have := hS.ptr_lt (index_live hq)
              rw [hzx] at hqp
              omega
            · rw [hS.ptr_inj hz' (index_live hq) hqp, hqid]
          · rcases hnew hz with hzx | hz'
            · have h1 := hS.prev_lt hy' hyz
              have h2 := hS.ptr_lt hy'
              rw [hzx] at h1
              omega
            · exact hS.prev_id hy' hz' hyz
        · intro y hy
          rcases hnew hy with rfl | hy
          · rw [← hx]
          · exact hS.valid hy
      · rw [hidx]
        rcases db.insert_index x with ⟨hi, hne⟩ | ⟨hi, -⟩
        · rw [hi]
          intro y hy z hz hyz
          rcases List.mem_append.mp hy with hy | hy <;> rcases List.mem_append.mp hz with hz | hz
          · exact ok.unique y hy z hz hyz
          · have : z = x := by simpa using hz
            exact absurd (this ▸ hyz) (hne y hy)
          · have : y = x := by simpa using hy
            exact absurd (this ▸ hyz).symm (hne z hz)
          · have h1 : y = x := by simpa using hy
            have h2 : z = x := by simpa using hz
            rw [h1, h2]
        · rw [hi]
          exact ok.unique
    · rw [hidx]
      exact db.insert_index x
    · exact hhead
    · intro h1 h2
      obtain ⟨p, hp, hpid, hpp⟩ := hsome h1 h2
      exact ⟨p, hp, hpid, by rw [← hx]; exact hpp⟩
    · intro h1
      rw [← hx]
      exact hnone h1

end ForkDatabase

end WeNode.Fork

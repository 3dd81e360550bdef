import WeNode.Fork.Items

/-!
# Branches back to a common ancestor

`fetch_branch_from` returns two branches whose oldest blocks have one parent
(fork_database.cpp:168-210), and `fetch_block_on_main_branch_by_number` does not notice that
older items were dropped from the index.
-/

namespace WeNode.Fork

variable {τ : Type} {hash : SignedBlock τ → Nat}

/-- The result of `fetch_branch_from( i, j )`. -/
structure Branches (db : ForkDatabase τ) (i j : BlockId) (first second : List (ForkItem τ)) :
    Prop where
  first_branch : Branch first
  second_branch : Branch second
  first_live : ∀ x ∈ first, x ∈ db.live []
  second_live : ∀ x ∈ second, x ∈ db.live []
  first_head : ∃ x ∈ db.index, first.head? = some x ∧ x.id = i
  second_head : ∃ x ∈ db.index, second.head? = some x ∧ x.id = j
  last : ∃ a b, first.getLast? = some a ∧ second.getLast? = some b ∧
    a.data.previous = b.data.previous

theorem Branch.append {l m : List (ForkItem τ)} {y : ForkItem τ} (hl : Branch (l ++ [y]))
    (hm : Branch m) (hy : m.head? = some y) : Branch (l ++ m) := by
  cases m with
  | nil => simp at hy
  | cons z m =>
    have hz : z = y := by simpa using hy
    subst hz
    rw [show l ++ z :: m = (l ++ [z]) ++ m by simp]
    refine List.IsChain.append hl (List.isChain_cons.mp hm).2 ?_
    intro a ha b hb
    have ha' : a = z := by simpa using ha.symm
    rw [ha']
    exact (List.isChain_cons.mp hm).1 b hb

theorem head?_append_head {l m : List (ForkItem τ)} {y : ForkItem τ} (hm : m.head? = some y) :
    (l ++ m).head? = (l ++ [y]).head? := by
  cases l with
  | nil => simpa using hm
  | cons a l => rfl

/-- The parts of a successful `fetch_branch_from`. -/
theorem fetchBranchFrom_parts {db : ForkDatabase τ} {i j : BlockId}
    {first second : List (ForkItem τ)} (h : db.fetchBranchFrom i j = some (first, second)) :
    ∃ x y x' y' l₁ l₂ r₁ r₂, db.fetchBlock i = some x ∧ db.fetchBlock j = some y ∧
      db.descend [] y.num (x.ptr + 1) x = some (l₁, x') ∧
      db.descend [] x'.num (y.ptr + 1) y = some (l₂, y') ∧
      db.descendBoth [] (x'.ptr + 1) x' y' = some (r₁, r₂) ∧
      first = l₁ ++ r₁ ∧ second = l₂ ++ r₂ := by
  unfold ForkDatabase.fetchBranchFrom at h
  split at h
  · next x y hx hy =>
    split at h
    · cases h
    · next l₁ x' h₁ =>
      split at h
      · cases h
      · next l₂ y' h₂ =>
        obtain ⟨⟨r₁, r₂⟩, hr, hp⟩ := Option.map_eq_some_iff.mp h
        simp only [Prod.mk.injEq] at hp
        exact ⟨x, y, x', y', l₁, l₂, r₁, r₂, hx, hy, h₁, h₂, hr, hp.1.symm, hp.2.symm⟩
  · cases h

theorem fetchBranchFrom_spec {db : ForkDatabase τ} {i j : BlockId}
    {first second : List (ForkItem τ)} (h : db.fetchBranchFrom i j = some (first, second)) :
    Branches db i j first second := by
  obtain ⟨x, y, x', y', l₁, l₂, r₁, r₂, hx, hy, h₁, h₂, hr, rfl, rfl⟩ := fetchBranchFrom_parts h
  obtain ⟨hxi, hxid⟩ := db.fetchBlock_mem hx
  obtain ⟨hyi, hyid⟩ := db.fetchBlock_mem hy
  obtain ⟨hb₁, hh₁, hm₁, -, -⟩ := db.descend_branch [] h₁
  obtain ⟨hb₂, hh₂, hm₂, -, -⟩ := db.descend_branch [] h₂
  obtain ⟨hbr₁, hbr₂, hhr₁, hhr₂, -, hmr₁, hmr₂, a, b, ha, hb, hab⟩ :=
    db.descendBoth_branch [] hr
  have hlive₁ : ∀ z ∈ l₁ ++ [x'], z ∈ db.live [] := by
    intro z hz
    rcases hm₁ z hz with rfl | hz'
    · exact ForkDatabase.index_live hxi
    · exact hz'
  have hlive₂ : ∀ z ∈ l₂ ++ [y'], z ∈ db.live [] := by
    intro z hz
    rcases hm₂ z hz with rfl | hz'
    · exact ForkDatabase.index_live hyi
    · exact hz'
  refine ⟨hb₁.append hbr₁ hhr₁, hb₂.append hbr₂ hhr₂, ?_, ?_, ⟨x, hxi, ?_, hxid⟩,
    ⟨y, hyi, ?_, hyid⟩, a, b, ?_, ?_, hab⟩
  · intro z hz
    rcases List.mem_append.mp hz with hz | hz
    · exact hlive₁ z (List.mem_append_left _ hz)
    · rcases hmr₁ z hz with rfl | hz'
      · exact hlive₁ z (by simp)
      · exact hz'
  · intro z hz
    rcases List.mem_append.mp hz with hz | hz
    · exact hlive₂ z (List.mem_append_left _ hz)
    · rcases hmr₂ z hz with rfl | hz'
      · exact hlive₂ z (by simp)
      · exact hz'
  · rw [head?_append_head hhr₁, hh₁]
  · rw [head?_append_head hhr₂, hh₂]
  · rw [List.getLast?_append, ha]; rfl
  · rw [List.getLast?_append, hb]; rfl

namespace Branches

variable {db : ForkDatabase τ} {i j : BlockId} {first second : List (ForkItem τ)}

/-- A branch of live items counts down from its first item to the parent of its last. -/
theorem length_of_last {S : ForkItem τ → Prop} {n : Nat} (hS : Sound hash S n)
    {l : List (ForkItem τ)} (hl : Branch l) (hm : ∀ x ∈ l, S x) {x a : ForkItem τ}
    (hx : l.head? = some x) (ha : l.getLast? = some a) :
    a.data.previous.num + l.length = x.num := by
  rw [List.getLast?_eq_getElem?] at ha
  have hnum := Branch.num_eq hS l hl hm _ x a hx ha
  have hmem : a ∈ l := List.mem_of_getElem? ha
  have hprev := hS.previous_num (hm a hmem)
  have hpos : 0 < l.length := List.length_pos_of_mem hmem
  omega

theorem first_ne (h : Branches db i j first second) : first ≠ [] := by
  obtain ⟨x, -, hx, -⟩ := h.first_head
  intro he
  rw [he] at hx
  cases hx

theorem second_ne (h : Branches db i j first second) : second ≠ [] := by
  obtain ⟨x, -, hx, -⟩ := h.second_head
  intro he
  rw [he] at hx
  cases hx

/-- How much longer the one branch is shows in the block numbers of the two heads. -/
theorem length_diff (h : Branches db i j first second) (ok : db.Ok hash) :
    first.length + j.num = second.length + i.num := by
  obtain ⟨x, hxi, hx, hxid⟩ := h.first_head
  obtain ⟨y, hyi, hy, hyid⟩ := h.second_head
  obtain ⟨a, b, ha, hb, hab⟩ := h.last
  have h1 := length_of_last ok.sound h.first_branch h.first_live hx ha
  have h2 := length_of_last ok.sound h.second_branch h.second_live hy hb
  have h3 := ok.sound.id_num (ForkDatabase.index_live hxi)
  have h4 := ok.sound.id_num (ForkDatabase.index_live hyi)
  rw [hab] at h1
  rw [hxid] at h3
  rw [hyid] at h4
  omega

end Branches

/-- Two walks that start at different items of one height meet nowhere. -/
theorem descendBoth_disjoint {db : ForkDatabase τ} (ok : db.Ok hash) {fuel : Nat}
    {x y : ForkItem τ} {l m : List (ForkItem τ)} (hx : x ∈ db.live []) (hy : y ∈ db.live [])
    (hnum : x.num = y.num) (hne : x.id ≠ y.id) (h : db.descendBoth [] fuel x y = some (l, m)) :
    ∀ a ∈ l, ∀ b ∈ m, a.id ≠ b.id := by
  induction fuel generalizing x y l m with
  | zero => simp [ForkDatabase.descendBoth] at h
  | succ fuel ih =>
    have hS := ok.sound
    simp only [ForkDatabase.descendBoth] at h
    split at h
    · next hprev =>
      split at h
      · next x' y' hlx hly =>
        obtain ⟨⟨l', m'⟩, hr, hp⟩ := Option.map_eq_some_iff.mp h
        simp only [Prod.mk.injEq] at hp
        obtain ⟨rfl, rfl⟩ := hp
        obtain ⟨hx', hxp⟩ := db.lock_mem [] hlx
        obtain ⟨hy', hyp⟩ := db.lock_mem [] hly
        have hnx := hS.prev_num hx hx' hxp
        have hny := hS.prev_num hy hy' hyp
        have hne' : x'.id ≠ y'.id := by
          rw [hS.prev_id hx hx' hxp, hS.prev_id hy hy' hyp]
          exact hprev
        obtain ⟨hbl, hbm, hhl, hhm, -, hml, hmm, -⟩ := db.descendBoth_branch [] hr
        have hlow : ∀ a ∈ l', a.num ≤ x'.num ∧ a ∈ db.live [] := by
          intro a ha
          have hmem : ∀ z ∈ l', z ∈ db.live [] := fun z hz =>
            (hml z hz).elim (fun e => e ▸ hx') id
          obtain ⟨k, hk⟩ := List.mem_iff_getElem?.mp ha
          have := Branch.num_eq hS l' hbl hmem k x' a hhl hk
          exact ⟨by omega, hmem a ha⟩
        have hlow' : ∀ b ∈ m', b.num ≤ y'.num ∧ b ∈ db.live [] := by
          intro b hb
          have hmem : ∀ z ∈ m', z ∈ db.live [] := fun z hz =>
            (hmm z hz).elim (fun e => e ▸ hy') id
          obtain ⟨k, hk⟩ := List.mem_iff_getElem?.mp hb
          have := Branch.num_eq hS m' hbm hmem k y' b hhm hk
          exact ⟨by omega, hmem b hb⟩
        intro a ha b hb
        rcases List.mem_cons.mp ha with rfl | ha <;> rcases List.mem_cons.mp hb with rfl | hb
        · exact hne
        · intro he
          have h1 := hS.id_num hx
          have h2 := hS.id_num (hlow' b hb).2
          have h3 := (hlow' b hb).1
          rw [he] at h1
          omega
        · intro he
          have h1 := hS.id_num hy
          have h2 := hS.id_num (hlow a ha).2
          have h3 := (hlow a ha).1
          rw [he] at h2
          omega
        · exact ih hx' hy' (by omega) hne' hr a ha b hb
      · cases h
    · simp only [Option.some.injEq, Prod.mk.injEq] at h
      obtain ⟨rfl, rfl⟩ := h
      simpa using hne

theorem descend_stop {db : ForkDatabase τ} {held : List (ForkItem τ)} {n fuel : Nat}
    {x y : ForkItem τ} {l : List (ForkItem τ)} (hx : x.num ≤ n)
    (h : db.descend held n fuel x = some (l, y)) : l = [] ∧ y = x := by
  cases fuel with
  | zero => simp [ForkDatabase.descend] at h
  | succ fuel =>
    have hn : ¬ n < x.num := by omega
    simp only [ForkDatabase.descend, hn, if_false, Option.some.injEq, Prod.mk.injEq] at h
    exact ⟨h.1.symm, h.2.symm⟩

/-- The two branches of a block one higher than the current head, on another parent, have no
block in common. -/
theorem fetchBranchFrom_disjoint {db : ForkDatabase τ} (ok : db.Ok hash) {i j : BlockId}
    {first second : List (ForkItem τ)} (h : db.fetchBranchFrom i j = some (first, second))
    (hnum : i.num = j.num + 1) {x : ForkItem τ} (hx : x ∈ db.index) (hxid : x.id = i)
    (hprev : x.data.previous ≠ j) : ∀ a ∈ first, ∀ b ∈ second, a.id ≠ b.id := by
  have hS := ok.sound
  obtain ⟨x₀, y, x', y', l₁, l₂, r₁, r₂, hfx, hfy, h₁, h₂, hr, rfl, rfl⟩ :=
    fetchBranchFrom_parts h
  obtain ⟨hxi, hxi'⟩ := db.fetchBlock_mem hfx
  obtain ⟨hyi, hyid⟩ := db.fetchBlock_mem hfy
  have hxx : x₀ = x := ok.unique x₀ hxi x hx (hxi'.trans hxid.symm)
  subst hxx
  have hnx := hS.id_num (ForkDatabase.index_live hx)
  have hny := hS.id_num (ForkDatabase.index_live hyi)
  rw [hxid] at hnx
  rw [hyid] at hny
  -- the first loop makes one step, the second none
  simp only [ForkDatabase.descend, show y.num < x₀.num by omega, if_true] at h₁
  split at h₁
  · cases h₁
  · next p hp =>
    obtain ⟨hpl, hpp⟩ := db.lock_mem [] hp
    have hpn := hS.prev_num (ForkDatabase.index_live hx) hpl hpp
    obtain ⟨⟨l, z⟩, hl, hlz⟩ := Option.map_eq_some_iff.mp h₁
    simp only [Prod.mk.injEq] at hlz
    obtain ⟨rfl, rfl⟩ := hlz
    obtain ⟨rfl, rfl⟩ := descend_stop (by omega) hl
    obtain ⟨rfl, rfl⟩ := descend_stop (by omega) h₂
    have hne : z.id ≠ y'.id := by
      rw [hS.prev_id (ForkDatabase.index_live hx) hpl hpp, hyid]
      exact hprev
    have hdis := descendBoth_disjoint ok hpl (ForkDatabase.index_live hyi) (by omega) hne hr
    obtain ⟨-, hbm, -, hhm, -, -, hmm, -⟩ := db.descendBoth_branch [] hr
    intro a ha b hb
    simp only [List.cons_append, List.nil_append, List.mem_cons] at ha
    rcases ha with rfl | ha
    · have hmem : ∀ w ∈ r₂, w ∈ db.live [] := fun w hw =>
        (hmm w hw).elim (fun e => e ▸ ForkDatabase.index_live hyi) id
      obtain ⟨k, hk⟩ := List.mem_iff_getElem?.mp hb
      have hkn := Branch.num_eq hS r₂ hbm hmem k y' b hhm hk
      intro he
      have hbn := hS.id_num (hmem b hb)
      rw [← he, hxid] at hbn
      omega
    · exact hdis a ha b hb

/-! ### Dropping old items -/

namespace ForkDatabase

theorem setMaxSize_head (db : ForkDatabase τ) (s : Nat) : (db.setMaxSize s).head = db.head := by
  unfold setMaxSize
  split <;> simp [*]

theorem setMaxSize_nextPtr (db : ForkDatabase τ) (s : Nat) :
    (db.setMaxSize s).nextPtr = db.nextPtr := by
  unfold setMaxSize
  split <;> rfl

theorem mem_setMaxSize {db : ForkDatabase τ} {s : Nat} {x : ForkItem τ} :
    x ∈ (db.setMaxSize s).index ↔ x ∈ db.index ∧ ∀ h, db.head = some h → h.num - s ≤ x.num := by
  unfold setMaxSize
  cases hd : db.head with
  | none => simp
  | some h => simp

variable {S : ForkItem τ → Prop} {n : Nat} {db : ForkDatabase τ} {held : List (ForkItem τ)}

theorem setMaxSize_live {s : Nat} {x : ForkItem τ} (h : x ∈ (db.setMaxSize s).live held) :
    x ∈ db.live held := by
  rw [mem_live, setMaxSize_head, mem_setMaxSize] at h
  rw [mem_live]
  rcases h with ⟨h, -⟩ | h
  · exact .inl h
  · exact .inr h

theorem lock_setMaxSize (hS : Sound hash S n) (hl : ∀ x ∈ db.live held, S x) {s : Nat}
    {x : ForkItem τ} (hx : S x) (hk : ∀ h, db.head = some h → h.num - s < x.num) :
    (db.setMaxSize s).lock held x.prev = db.lock held x.prev := by
  cases hd : db.lock held x.prev with
  | none =>
    cases hd' : (db.setMaxSize s).lock held x.prev with
    | none => rfl
    | some y =>
      obtain ⟨hy, hp⟩ := lock_mem _ held hd'
      have := db.lock_eq_some held hS hl (setMaxSize_live hy)
      rw [← hp, hd] at this
      cases this
  | some y =>
    obtain ⟨hy, hp⟩ := lock_mem _ held hd
    have hnum := hS.prev_num hx (hl y hy) hp
    have hy' : y ∈ (db.setMaxSize s).live held := by
      rw [mem_live, setMaxSize_head, mem_setMaxSize]
      rcases (db.mem_live held).mp hy with h | h
      · exact .inl ⟨h, fun t ht => by have := hk t ht; omega⟩
      · exact .inr h
    rw [hp]
    exact lock_eq_some _ held hS (fun z hz => hl z (setMaxSize_live hz)) hy'

theorem descend_setMaxSize (hS : Sound hash S n) (hl : ∀ x ∈ db.live held, S x) {s k : Nat}
    (hk : ∀ h, db.head = some h → h.num - s ≤ k) (fuel : Nat) {x : ForkItem τ} (hx : S x) :
    (db.setMaxSize s).descend held k fuel x = db.descend held k fuel x := by
  induction fuel generalizing x with
  | zero => rfl
  | succ fuel ih =>
    simp only [descend]
    split
    · next hlt =>
      rw [lock_setMaxSize hS hl hx (fun h hh => lt_of_le_of_lt (hk h hh) hlt)]
      split
      · rfl
      · next y hy => rw [ih (hl y (lock_mem _ held hy).1)]
    · rfl

/-- The main branch from block number `k` up does not change when items below are dropped. -/
theorem fetchBlockOnMainBranchByNumber_setMaxSize (hS : Sound hash S n)
    (hl : ∀ x ∈ db.live held, S x) {s k : Nat} (hk : ∀ h, db.head = some h → h.num - s ≤ k) :
    (db.setMaxSize s).fetchBlockOnMainBranchByNumber held k =
      db.fetchBlockOnMainBranchByNumber held k := by
  have hnum : (db.setMaxSize s).fetchBlockByNumber k = db.fetchBlockByNumber k := by
    unfold fetchBlockByNumber setMaxSize
    cases hd : db.head with
    | none => rfl
    | some h =>
      simp only [List.filter_filter]
      refine List.filter_congr fun x _ => ?_
      have := hk h hd
      by_cases hx : x.num = k <;> simp [hx, this]
  have hwalk : (db.setMaxSize s).walkMainBranchToNum held k = db.walkMainBranchToNum held k := by
    unfold walkMainBranchToNum
    rw [setMaxSize_head]
    cases hd : db.head with
    | none => rfl
    | some h =>
      simp only
      rw [descend_setMaxSize hS hl hk _ (hl h ((db.mem_live held).mpr (.inr (.inl hd))))]
  unfold fetchBlockOnMainBranchByNumber
  rw [hnum]
  split
  · rfl
  · rfl
  · exact hwalk

/-- A block found by number has that number and is alive. -/
theorem fetchBlockOnMainBranchByNumber_spec (hS : Sound hash S n) (hl : ∀ x ∈ db.live held, S x)
    {k : Nat} {x : ForkItem τ} (h : db.fetchBlockOnMainBranchByNumber held k = some x) :
    x.num = k ∧ x ∈ db.live held := by
  have hone : ∀ y, y ∈ db.fetchBlockByNumber k → y.num = k ∧ y ∈ db.live held := by
    intro y hy
    obtain ⟨hm, hn⟩ := List.mem_filter.mp hy
    exact ⟨by simpa using hn, (db.mem_live held).mpr (.inl hm)⟩
  unfold fetchBlockOnMainBranchByNumber at h
  split at h
  · cases h
  · next y hy =>
    cases h
    exact hone x (by rw [hy]; simp)
  · unfold walkMainBranchToNum at h
    split at h
    · cases h
    · next t ht =>
      split at h
      · cases h
      · next hge =>
        obtain ⟨⟨l, y⟩, hd, hy⟩ := Option.map_eq_some_iff.mp h
        cases hy
        obtain ⟨hb, hh, hm, hlow, hle⟩ := db.descend_branch held hd
        have htl : t ∈ db.live held := (db.mem_live held).mpr (.inr (.inl ht))
        have hmS : ∀ z ∈ l ++ [y], S z := fun z hz =>
          (hm z hz).elim (fun e => e ▸ hl t htl) (hl z)
        have hyl : y ∈ db.live held := (hm y (by simp)).elim (fun e => e ▸ htl) id
        refine ⟨?_, hyl⟩
        show y.num = k
        have hlast : (l ++ [y])[l.length]? = some y := by simp
        have hy := Branch.num_eq hS _ hb hmS _ t y hh hlast
        cases hlen : l.length with
        | zero => omega
        | succ j =>
          -- the item before the last is still above `k`
          obtain ⟨z, hz⟩ : ∃ z, l[j]? = some z := by
            rw [List.getElem?_eq_getElem (by omega)]
            exact ⟨_, rfl⟩
          have hz' : (l ++ [y])[j]? = some z := by
            rw [List.getElem?_append_left (by omega), hz]
          have hzn := Branch.num_eq hS _ hb hmS _ t z hh hz'
          have := hlow z (List.mem_of_getElem? hz)
          omega

end ForkDatabase

end WeNode.Fork

import WeNode.Chain.RequiredSignatures

/-!
# What the checks of authorities go through

Where the recursion limit cuts nothing off that counts, a check accepts exactly what is met, and it
has asked for exactly the keys that an order-free reading of the authorities asks for.
-/

namespace WeNode.Chain

open WeNode.Lib

/-- The keys and the accounts of an authority, in the order they are asked. -/
def Authority.members (a : Authority) : List ((PublicKey ⊕ Name) × Nat) :=
  a.keyAuths.map (fun m => (.inl m.1, m.2)) ++ a.accountAuths.map fun m => (.inr m.1, m.2)

/-- The keys that signed, and accounts that count. -/
def counting (keys : List PublicKey) (S : Set Name) : Set (PublicKey ⊕ Name) :=
  {x | x.elim (· ∈ keys) (· ∈ S)}

section Walk

variable (keys : List PublicKey) (inner : Name → Authority)

/-- The keys and accounts that count. -/
def Counts : Set (PublicKey ⊕ Name) := counting keys (satisfiedAccounts keys inner)

/-- A key or an account that comes before the threshold of an authority is reached. -/
def Asks (a : Authority) (x : PublicKey ⊕ Name) : Prop :=
  x ∈ Quorum.asked (Counts keys inner) a.weightThreshold a.members 0

/-- The second authority is that of an account asked for by the first. -/
def Descends (a b : Authority) : Prop :=
  ∃ n, n ≠ tempAccount ∧ Asks keys inner a (.inr n) ∧ b = inner n

/-- A key that signed and that an authority asks for, itself or through its accounts. -/
def Uses (a : Authority) (k : PublicKey) : Prop :=
  ∃ b, Relation.ReflTransGen (Descends keys inner) a b ∧ Asks keys inner b (.inl k) ∧ k ∈ keys

/-- An account that does not count, and no key of it or of an account it names has signed. -/
def Idle (n : Name) : Prop :=
  n ∉ satisfiedAccounts keys inner ∧
    ∀ b, Relation.ReflTransGen (Refers inner) (inner n) b → ∀ k ∈ b.keyAuths.map (·.1), k ∉ keys

/-- Accounts nested more than `left` deep are idle. -/
def Settled : Nat → Authority → Prop
  | 0, a => ∀ m ∈ a.accountAuths, m.1 = tempAccount ∨ Idle keys inner m.1
  | left + 1, a => ∀ m ∈ a.accountAuths, m.1 = tempAccount ∨ Settled left (inner m.1)

end Walk

section Facts

variable {keys keys' : List PublicKey} {inner : Name → Authority} {a b : Authority} {S : Set Name}

theorem weightIn_keys {l : List (PublicKey × Nat)} :
    Quorum.weightIn (counting keys S) (l.map fun m => (.inl m.1, m.2)) = signedWeight keys l := by
  induction l with
  | nil => rfl
  | cons m l ih =>
    unfold signedWeight at ih ⊢
    rw [List.map_cons, List.filter_cons]
    by_cases hm : m.1 ∈ keys
    · rw [Quorum.weightIn_of_mem hm, ih, if_pos (decide_eq_true hm)]
      rfl
    · rw [Quorum.weightIn_of_not_mem hm, ih, if_neg (by simpa using hm)]

theorem weightIn_accounts {l : List (Name × Nat)} :
    Quorum.weightIn (counting keys S) (l.map fun m => (.inr m.1, m.2)) = Quorum.weightIn S l := by
  induction l with
  | nil => rfl
  | cons m l ih =>
    rw [List.map_cons]
    by_cases hm : m.1 ∈ S
    · have hcounts : (Sum.inr m.1 : PublicKey ⊕ Name) ∈ counting keys S := hm
      rw [Quorum.weightIn_of_mem (S := S) hm,
        Quorum.weightIn_of_mem (S := counting keys S) (m := (Sum.inr m.1, m.2)) hcounts, ih]
    · have hcounts : (Sum.inr m.1 : PublicKey ⊕ Name) ∉ counting keys S := hm
      rw [Quorum.weightIn_of_not_mem (S := S) hm,
        Quorum.weightIn_of_not_mem (S := counting keys S) (m := (Sum.inr m.1, m.2)) hcounts, ih]

/-- An authority is met when its members reach the threshold. -/
theorem met_iff :
    (a.quorum keys).Met S ↔ a.weightThreshold ≤ 0 + Quorum.weightIn (counting keys S) a.members := by
  unfold Authority.members
  rw [Quorum.weightIn_append, weightIn_keys, weightIn_accounts, Nat.zero_add]
  rfl

theorem counting_mono {T : Set Name} (hkeys : keys ⊆ keys') (hsub : S ⊆ T) :
    counting keys S ⊆ counting keys' T := by
  rintro (k | n) hx
  · exact hkeys hx
  · exact hsub hx

theorem met_mono {T : Set Name} (hkeys : keys ⊆ keys') (hsub : S ⊆ T)
    (h : (a.quorum keys).Met S) : (a.quorum keys').Met T := by
  rw [met_iff] at h ⊢
  exact h.trans (Nat.add_le_add_left (Quorum.weightIn_mono (counting_mono hkeys hsub)) _)

theorem satisfiedAccounts_mono (hkeys : keys ⊆ keys') :
    satisfiedAccounts keys inner ⊆ satisfiedAccounts keys' inner :=
  Quorum.counted_mono fun _ _ h => met_mono hkeys subset_rfl h

theorem counts_mono (hkeys : keys ⊆ keys') : Counts keys inner ⊆ Counts keys' inner :=
  counting_mono hkeys (satisfiedAccounts_mono hkeys)

theorem asks_member {x : PublicKey ⊕ Name} (h : Asks keys inner a x) :
    x ∈ a.members.map (·.1) := Quorum.mem_of_asked h

theorem asks_key {k : PublicKey} (h : Asks keys inner a (.inl k)) : k ∈ a.keyAuths.map (·.1) := by
  simpa [Authority.members] using asks_member h

theorem asks_account {n : Name} (h : Asks keys inner a (.inr n)) :
    ∃ m ∈ a.accountAuths, m.1 = n := by
  simpa [Authority.members] using asks_member h

theorem Descends.refers (h : Descends keys inner a b) : Refers inner a b := by
  obtain ⟨n, -, hasks, rfl⟩ := h
  obtain ⟨m, hm, rfl⟩ := asks_account hasks
  exact ⟨m, hm, rfl⟩

theorem Asks.anti {x : PublicKey ⊕ Name} (hkeys : keys ⊆ keys') (h : Asks keys' inner a x) :
    Asks keys inner a x :=
  Quorum.asked_anti (counts_mono hkeys) le_rfl h

/-- The fewer keys have signed, the more of them are asked for. -/
theorem Uses.anti {k : PublicKey} (hkeys : keys ⊆ keys') (hk : k ∈ keys)
    (h : Uses keys' inner a k) : Uses keys inner a k := by
  obtain ⟨b, hpath, hasks, -⟩ := h
  refine ⟨b, Relation.ReflTransGen.mono ?_ _ _ hpath, hasks.anti hkeys, hk⟩
  rintro x y ⟨n, hn, hx, rfl⟩
  exact ⟨n, hn, hx.anti hkeys, rfl⟩

theorem Uses.key {k : PublicKey} (h : Uses keys inner a k) :
    ∃ b, Relation.ReflTransGen (Refers inner) a b ∧ k ∈ b.keyAuths.map (·.1) := by
  obtain ⟨b, hpath, hasks, -⟩ := h
  exact ⟨b, Relation.ReflTransGen.mono (fun _ _ h => Descends.refers h) _ _ hpath, asks_key hasks⟩

theorem Idle.anti {n : Name} (hkeys : keys ⊆ keys') (h : Idle keys' inner n) : Idle keys inner n :=
  ⟨fun hn => h.1 (satisfiedAccounts_mono hkeys hn), fun b hb k hk hmem => h.2 b hb k hk (hkeys hmem)⟩

theorem Idle.no_uses {n : Name} {k : PublicKey} (h : Idle keys inner n) :
    ¬ Uses keys inner (inner n) k := by
  intro huses
  obtain ⟨b, hpath, hb⟩ := huses.key
  obtain ⟨_, _, _, hk⟩ := huses
  exact h.2 b hpath k hb hk

theorem Settled.anti (hkeys : keys ⊆ keys') {left : Nat} (h : Settled keys' inner left a) :
    Settled keys inner left a := by
  induction left generalizing a with
  | zero => exact fun m hm => (h m hm).imp_right (Idle.anti hkeys)
  | succ left ih => exact fun m hm => (h m hm).imp_right ih

theorem Settled.descends {left : Nat} (h : Settled keys inner (left + 1) a)
    (hab : Descends keys inner a b) : Settled keys inner left b := by
  obtain ⟨n, hn, hasks, rfl⟩ := hab
  obtain ⟨m, hm, rfl⟩ := asks_account hasks
  exact (h m hm).resolve_left hn

theorem uses_iff {k : PublicKey} : Uses keys inner a k ↔ (Asks keys inner a (.inl k) ∧ k ∈ keys) ∨
    ∃ n, n ≠ tempAccount ∧ Asks keys inner a (.inr n) ∧ Uses keys inner (inner n) k := by
  constructor
  · rintro ⟨b, hpath, hasks, hk⟩
    rcases hpath.cases_head with rfl | ⟨c, ⟨n, hn, hask, rfl⟩, hrest⟩
    · exact .inl ⟨hasks, hk⟩
    · exact .inr ⟨n, hn, hask, b, hrest, hasks, hk⟩
  · rintro (⟨hasks, hk⟩ | ⟨n, hn, hask, b, hpath, hasks, hk⟩)
    · exact ⟨a, .refl, hasks, hk⟩
    · exact ⟨b, hpath.head ⟨n, hn, hask, rfl⟩, hasks, hk⟩

/-- Whatever is met stays met with no more than the keys asked for. -/
theorem met_of_uses {left : Nat} (hsettled : Settled keys inner left a)
    (huses : ∀ k, Uses keys inner a k → k ∈ keys')
    (hmet : (a.quorum keys).Met (satisfiedAccounts keys inner)) :
    (a.quorum keys').Met (satisfiedAccounts keys' inner) := by
  induction left generalizing a with
  | zero =>
    rw [met_iff] at hmet ⊢
    refine Quorum.reached_of_asked hmet ?_
    rintro (k | n) hasks hcounts
    · exact huses k ⟨a, .refl, hasks, hcounts⟩
    · obtain ⟨m, hm, rfl⟩ := asks_account hasks
      rcases hsettled m hm with htemp | hidle
      · exact Quorum.mem_counted.2 (.inl htemp)
      · exact absurd hcounts hidle.1
  | succ left ih =>
    rw [met_iff] at hmet ⊢
    refine Quorum.reached_of_asked hmet ?_
    rintro (k | n) hasks hcounts
    · exact huses k ⟨a, .refl, hasks, hcounts⟩
    · by_cases htemp : n = tempAccount
      · exact Quorum.mem_counted.2 (.inl htemp)
      · have hdescends : Descends keys inner a (inner n) := ⟨n, htemp, hasks, rfl⟩
        have hinner : ((inner n).quorum keys).Met (satisfiedAccounts keys inner) :=
          (Quorum.mem_counted.1 hcounts).resolve_left htemp
        refine Quorum.mem_counted.2 (.inr (ih (hsettled.descends hdescends) ?_ hinner))
        rintro k ⟨b, hpath, hb, hk⟩
        exact huses k ⟨b, hpath.head hdescends, hb, hk⟩

end Facts

/-! ### The checks -/

section Run

variable {keys availableKeys : List PublicKey} {inner : Name → Authority} {roots : Authority → Prop}

/-- What the checks keep: which keys count, and that the accounts approved and the keys used are
those found by going through the roots. -/
structure Walking (keys availableKeys : List PublicKey) (inner : Name → Authority)
    (roots : Authority → Prop) (s : SignState) : Prop where
  available : s.availableKeys = availableKeys
  atHand : ∀ k, k ∈ s.signatures ∨ k ∈ s.availableKeys ↔ k ∈ keys
  signed : ∀ k ∈ s.used, k ∈ s.signatures
  temp : tempAccount ∈ s.approvedBy
  approved : ∀ n ∈ s.approvedBy, n ∈ satisfiedAccounts keys inner
  done : ∀ n ∈ s.approvedBy, n ≠ tempAccount → ∀ k, Uses keys inner (inner n) k → k ∈ s.used
  used : ∀ k ∈ s.used, ∃ a, roots a ∧ Uses keys inner a k

/-- What was asked for has been looked into. -/
def Handled (keys : List PublicKey) (inner : Name → Authority) (s : SignState) :
    PublicKey ⊕ Name → Prop
  | .inl k => k ∈ keys → k ∈ s.used
  | .inr n => n ≠ tempAccount → ∀ k, Uses keys inner (inner n) k → k ∈ s.used

theorem Handled.mono {s s' : SignState} {x : PublicKey ⊕ Name} (hused : s.used ⊆ s'.used)
    (h : Handled keys inner s x) : Handled keys inner s' x := by
  cases x with
  | inl k => exact fun hk => hused (h hk)
  | inr n => exact fun hn k hk => hused (h hn k hk)

/-- A check that accepts exactly what is met, and uses the keys it comes across. -/
def Exact (keys availableKeys : List PublicKey) (inner : Name → Authority)
    (roots : Authority → Prop) (check : SignState → Result (Bool × SignState)) (met : Prop)
    (uses : PublicKey → Prop) : Prop :=
  ∀ s, Walking keys availableKeys inner roots s → ∃ ok s', check s = .ok (ok, s') ∧
    Walking keys availableKeys inner roots s' ∧ s.used ⊆ s'.used ∧ (ok = true ↔ met) ∧
    ∀ k, uses k → k ∈ s'.used

theorem Walking.use {s : SignState} (h : Walking keys availableKeys inner roots s) {key : PublicKey}
    {signatures : List PublicKey} (hkey : key ∈ signatures) (hsigned : s.signatures ⊆ signatures)
    (hatHand : ∀ k ∈ signatures, k ∈ keys) (huses : ∃ a, roots a ∧ Uses keys inner a key) :
    Walking keys availableKeys inner roots
      { s with signatures := signatures, used := key :: s.used } where
  available := h.available
  atHand k := by
    constructor
    · rintro (hk | hk)
      · exact hatHand k hk
      · exact (h.atHand k).1 (.inr hk)
    · exact fun hk => ((h.atHand k).2 hk).imp_left fun hk => hsigned hk
  signed k hk := by
    rcases List.mem_cons.1 hk with rfl | hk
    · exact hkey
    · exact hsigned (h.signed k hk)
  temp := h.temp
  approved := h.approved
  done n hn htemp k hk := List.mem_cons_of_mem _ (h.done n hn htemp k hk)
  used k hk := by
    rcases List.mem_cons.1 hk with rfl | hk
    · exact huses
    · exact h.used k hk

theorem Walking.signedBy {s : SignState} (h : Walking keys availableKeys inner roots s)
    {key : PublicKey} (huses : key ∈ keys → ∃ a, roots a ∧ Uses keys inner a key) :
    (s.signedBy key).1 = decide (key ∈ keys) ∧
      Walking keys availableKeys inner roots (s.signedBy key).2 ∧
      s.used ⊆ (s.signedBy key).2.used ∧ (key ∈ keys → key ∈ (s.signedBy key).2.used) := by
  have hatHand := h.atHand key
  unfold SignState.signedBy
  by_cases hsigned : key ∈ s.signatures
  · have hkey : key ∈ keys := hatHand.1 (.inl hsigned)
    rw [if_pos hsigned]
    exact ⟨(decide_eq_true hkey).symm, h.use hsigned (List.Subset.refl _) (fun k hk => (h.atHand k).1 (.inl hk))
      (huses hkey), List.subset_cons_self _ _, fun _ => List.mem_cons_self⟩
  · rw [if_neg hsigned]
    by_cases havailable : key ∈ s.availableKeys
    · have hkey : key ∈ keys := hatHand.1 (.inr havailable)
      rw [if_pos havailable]
      refine ⟨(decide_eq_true hkey).symm, h.use List.mem_cons_self (List.subset_cons_self _ _) ?_
        (huses hkey), List.subset_cons_self _ _, fun _ => List.mem_cons_self⟩
      intro k hk
      rcases List.mem_cons.1 hk with rfl | hk
      · exact hkey
      · exact (h.atHand k).1 (.inl hk)
    · have hkey : key ∉ keys := fun hkey => (hatHand.2 hkey).elim hsigned havailable
      rw [if_neg havailable]
      exact ⟨(decide_eq_false hkey).symm, h, (List.Subset.refl _), fun hk => absurd hk hkey⟩

theorem checkKeys_walk {threshold total total' : Nat} {l : List (PublicKey × Nat)}
    {rest : List ((PublicKey ⊕ Name) × Nat)} {s s' : SignState} {ok : Bool}
    (hs : Walking keys availableKeys inner roots s)
    (huses : ∀ k, Sum.inl k ∈ Quorum.asked (Counts keys inner) threshold
        (l.map (fun m => (Sum.inl m.1, m.2)) ++ rest) total →
      k ∈ keys → ∃ a, roots a ∧ Uses keys inner a k)
    (hsmall : total + (l.map (·.2)).sum < two32)
    (h : checkKeys threshold l total s = (ok, total', s')) :
    Walking keys availableKeys inner roots s' ∧ s.used ⊆ s'.used ∧
      (ok = true → threshold ≤ total + signedWeight keys l ∧
        ∀ x ∈ Quorum.asked (Counts keys inner) threshold
          (l.map (fun m => (Sum.inl m.1, m.2)) ++ rest) total, Handled keys inner s' x) ∧
      (ok = false → total' = total + signedWeight keys l ∧
        (∀ x ∈ Quorum.asked (Counts keys inner) threshold
            (l.map (fun m => (Sum.inl m.1, m.2)) ++ rest) total,
          Handled keys inner s' x ∨ x ∈ Quorum.asked (Counts keys inner) threshold rest total') ∧
        ∀ x ∈ Quorum.asked (Counts keys inner) threshold rest total',
          x ∈ Quorum.asked (Counts keys inner) threshold
            (l.map (fun m => (Sum.inl m.1, m.2)) ++ rest) total) := by
  induction l generalizing total s with
  | nil =>
    cases h
    exact ⟨hs, (List.Subset.refl _), fun hf => Bool.noConfusion hf,
      fun _ => ⟨rfl, fun x hx => .inr hx, fun x hx => hx⟩⟩
  | cons m l ih =>
    obtain ⟨key, weight⟩ := m
    rw [List.map_cons, List.cons_append] at huses ⊢
    obtain ⟨hsigned, hs₁, hused₁, hkey⟩ := hs.signedBy (huses key Quorum.mem_asked_cons)
    rw [List.map_cons, List.sum_cons] at hsmall
    dsimp only at hsmall huses ⊢
    have hno : (total + weight) % two32 = total + weight := Nat.mod_eq_of_lt (by omega)
    simp only [checkKeys, hsigned, hno] at h
    by_cases hmem : key ∈ keys
    · have hcounts : (Sum.inl key : PublicKey ⊕ Name) ∈ Counts keys inner := hmem
      rw [signedWeight_of_mem hmem]
      rw [if_pos (decide_eq_true hmem)] at h
      by_cases hreached : threshold ≤ total + weight
      · rw [if_pos hreached] at h
        cases h
        rw [Quorum.asked_of_reached hcounts hreached]
        refine ⟨hs₁, hused₁, fun _ => ⟨by omega, fun x hx => ?_⟩, fun hf => Bool.noConfusion hf⟩
        rw [List.mem_singleton.1 hx]
        exact hkey
      · rw [if_neg hreached] at h
        rw [Quorum.asked_of_below hcounts hreached] at huses ⊢
        obtain ⟨hs', hused', htrue, hfalse⟩ :=
          ih hs₁ (fun k hk => huses k (List.mem_cons_of_mem _ hk)) (by omega) h
        have hfirst : Handled keys inner s' (.inl key) := fun hk => hused' (hkey hk)
        refine ⟨hs', List.Subset.trans hused₁ hused', fun hok => ?_, fun hok => ?_⟩
        · obtain ⟨hle, hall⟩ := htrue hok
          exact ⟨by omega, List.forall_mem_cons.2 ⟨hfirst, hall⟩⟩
        · obtain ⟨heq, hall, hback⟩ := hfalse hok
          exact ⟨by omega, List.forall_mem_cons.2 ⟨.inl hfirst, hall⟩,
            fun x hx => List.mem_cons_of_mem _ (hback x hx)⟩
    · have hcounts : (Sum.inl key : PublicKey ⊕ Name) ∉ Counts keys inner := hmem
      rw [signedWeight_of_not_mem hmem]
      rw [if_neg (by simpa using hmem)] at h
      rw [Quorum.asked_of_not_mem hcounts] at huses ⊢
      obtain ⟨hs', hused', htrue, hfalse⟩ :=
        ih hs₁ (fun k hk => huses k (List.mem_cons_of_mem _ hk)) (by omega) h
      have hfirst : Handled keys inner s' (.inl key) := fun hk => absurd hk hmem
      refine ⟨hs', List.Subset.trans hused₁ hused', fun hok => ?_, fun hok => ?_⟩
      · obtain ⟨hle, hall⟩ := htrue hok
        exact ⟨hle, List.forall_mem_cons.2 ⟨hfirst, hall⟩⟩
      · obtain ⟨heq, hall, hback⟩ := hfalse hok
        exact ⟨heq, List.forall_mem_cons.2 ⟨.inl hfirst, hall⟩,
          fun x hx => List.mem_cons_of_mem _ (hback x hx)⟩

/- An account is approved already, or its authority is checked now. -/
theorem approve_walk {check : Name → SignState → Result (Bool × SignState)} {account : Name}
    {s : SignState} (hs : Walking keys availableKeys inner roots s)
    (hcheck : account ≠ tempAccount → Exact keys availableKeys inner roots (check account)
      (account ∈ satisfiedAccounts keys inner) (Uses keys inner (inner account))) :
    ∃ ok s', approve check account s = .ok (ok, s') ∧ Walking keys availableKeys inner roots s' ∧
      s.used ⊆ s'.used ∧ (ok = true ↔ account ∈ satisfiedAccounts keys inner) ∧
      Handled keys inner s' (.inr account) := by
  unfold approve
  by_cases happroved : account ∈ s.approvedBy
  · rw [if_pos happroved]
    exact ⟨true, s, rfl, hs, (List.Subset.refl _), iff_of_true rfl (hs.approved account happroved),
      hs.done account happroved⟩
  · have htemp : account ≠ tempAccount := by
      rintro rfl
      exact happroved hs.temp
    obtain ⟨ok, s₁, hrun, hs₁, hused₁, hok, huses⟩ := hcheck htemp s hs
    rw [if_neg happroved, hrun]
    cases ok with
    | false => exact ⟨false, s₁, rfl, hs₁, hused₁, hok, fun _ => huses⟩
    | true =>
      refine ⟨true, { s₁ with approvedBy := account :: s₁.approvedBy }, rfl, ?_, hused₁, hok,
        fun _ => huses⟩
      refine { hs₁ with temp := List.mem_cons_of_mem _ hs₁.temp, approved := ?_, done := ?_ }
      · exact List.forall_mem_cons.2 ⟨hok.1 rfl, hs₁.approved⟩
      · exact List.forall_mem_cons.2 ⟨fun _ => huses, hs₁.done⟩

theorem checkAccounts_walk {check : Name → SignState → Result (Bool × SignState)}
    {l : List (Name × Nat)} (threshold total : Nat) {s : SignState}
    (hs : Walking keys availableKeys inner roots s) (hsmall : total + (l.map (·.2)).sum < two32)
    (hcheck : ∀ n, n ≠ tempAccount → .inr n ∈ Quorum.asked (Counts keys inner) threshold
        (l.map fun m => (.inr m.1, m.2)) total →
      Exact keys availableKeys inner roots (check n) (n ∈ satisfiedAccounts keys inner)
        (Uses keys inner (inner n))) :
    ∃ ok s', checkAccounts check threshold l total s = .ok (ok, s') ∧
      Walking keys availableKeys inner roots s' ∧ s.used ⊆ s'.used ∧
      (ok = true ↔ threshold ≤
        total + Quorum.weightIn (Counts keys inner) (l.map fun m => (.inr m.1, m.2))) ∧
      ∀ x ∈ Quorum.asked (Counts keys inner) threshold (l.map fun m => (.inr m.1, m.2)) total,
        Handled keys inner s' x := by
  induction l generalizing total s with
  | nil => exact ⟨decide (threshold ≤ total), s, rfl, hs, (List.Subset.refl _), decide_eq_true_iff, nofun⟩
  | cons m l ih =>
    obtain ⟨account, weight⟩ := m
    rw [List.map_cons] at hcheck ⊢
    rw [List.map_cons, List.sum_cons] at hsmall
    dsimp only at hsmall hcheck ⊢
    have hno : (total + weight) % two32 = total + weight := Nat.mod_eq_of_lt (by omega)
    obtain ⟨approved, s₁, hrun, hs₁, hused₁, happroved, hfirst⟩ :=
      approve_walk hs fun htemp => hcheck account htemp Quorum.mem_asked_cons
    unfold checkAccounts
    rw [hrun]
    cases approved with
    | true =>
      have hcounts : (Sum.inr account : PublicKey ⊕ Name) ∈ Counts keys inner := happroved.1 rfl
      rw [Quorum.weightIn_of_mem hcounts]
      dsimp only
      by_cases hreached : threshold ≤ total + weight
      · rw [Quorum.asked_of_reached hcounts hreached]
        refine ⟨true, s₁, ?_, hs₁, hused₁, iff_of_true rfl (by omega), fun x hx => ?_⟩
        · show (if threshold ≤ (total + weight) % two32 then _ else _) = _
          rw [hno, if_pos hreached]
          rfl
        · rw [List.mem_singleton.1 hx]
          exact hfirst
      · rw [Quorum.asked_of_below hcounts hreached] at hcheck ⊢
        obtain ⟨ok, s', hrun', hs', hused', hok, hall⟩ := ih (total + weight) hs₁ (by omega)
          fun n hn hx => hcheck n hn (List.mem_cons_of_mem _ hx)
        refine ⟨ok, s', ?_, hs', List.Subset.trans hused₁ hused', by rw [hok]; omega,
          List.forall_mem_cons.2 ⟨hfirst.mono hused', hall⟩⟩
        show (if threshold ≤ (total + weight) % two32 then _ else _) = _
        rw [hno, if_neg hreached]
        exact hrun'
    | false =>
      have hcounts : (Sum.inr account : PublicKey ⊕ Name) ∉ Counts keys inner := by
        intro h
        simpa using happroved.2 h
      rw [Quorum.weightIn_of_not_mem hcounts]
      rw [Quorum.asked_of_not_mem hcounts] at hcheck ⊢
      obtain ⟨ok, s', hrun', hs', hused', hok, hall⟩ := ih total hs₁ (by omega)
        fun n hn hx => hcheck n hn (List.mem_cons_of_mem _ hx)
      exact ⟨ok, s', hrun', hs', List.Subset.trans hused₁ hused', hok,
        List.forall_mem_cons.2 ⟨hfirst.mono hused', hall⟩⟩

/- The keys of an authority, then its accounts. -/
theorem checkParts_walk (check : Name → SignState → Result (Bool × SignState)) {auth : Authority}
    (hroot : ∃ a, roots a ∧ Relation.ReflTransGen (Descends keys inner) a auth)
    (hsmall : auth.totalWeight < two32)
    (hcheck : ∀ n, n ≠ tempAccount → Asks keys inner auth (.inr n) →
      Exact keys availableKeys inner roots (check n) (n ∈ satisfiedAccounts keys inner)
        (Uses keys inner (inner n))) :
    Exact keys availableKeys inner roots
      (fun s => match checkKeys auth.weightThreshold auth.keyAuths 0 s with
        | (met, total, s) => if met then .ok (true, s)
          else checkAccounts check auth.weightThreshold auth.accountAuths total s)
      ((auth.quorum keys).Met (satisfiedAccounts keys inner)) (Uses keys inner auth) := by
  intro s hs
  obtain ⟨met, total, s₁, hkeys⟩ : ∃ met total s₁,
      checkKeys auth.weightThreshold auth.keyAuths 0 s = (met, total, s₁) := ⟨_, _, _, rfl⟩
  have huses : ∀ k, Sum.inl k ∈ Quorum.asked (Counts keys inner) auth.weightThreshold
      (auth.keyAuths.map (fun m => (Sum.inl m.1, m.2)) ++
        auth.accountAuths.map fun m => (Sum.inr m.1, m.2)) 0 →
      k ∈ keys → ∃ a, roots a ∧ Uses keys inner a k := by
    intro k hasks hk
    obtain ⟨a, ha, hpath⟩ := hroot
    exact ⟨a, ha, auth, hpath, hasks, hk⟩
  unfold Authority.totalWeight at hsmall
  obtain ⟨hs₁, hused₁, htrue, hfalse⟩ := checkKeys_walk hs huses (by omega) hkeys
  -- whatever has been asked for is used
  have hdone : ∀ s' : SignState, (∀ x, Asks keys inner auth x → Handled keys inner s' x) →
      ∀ k, Uses keys inner auth k → k ∈ s'.used := by
    intro s' hall k hk
    rcases uses_iff.1 hk with ⟨hasks, hmem⟩ | ⟨n, htemp, hasks, hinner⟩
    · exact hall _ hasks hmem
    · exact hall _ hasks htemp k hinner
  have hmet : (auth.quorum keys).Met (satisfiedAccounts keys inner) ↔ auth.weightThreshold ≤
      signedWeight keys auth.keyAuths + Quorum.weightIn (Counts keys inner)
        (auth.accountAuths.map fun m => (.inr m.1, m.2)) := by
    rw [met_iff]
    unfold Authority.members
    rw [Quorum.weightIn_append, weightIn_keys, Nat.zero_add]
    rfl
  simp only [hkeys]
  rw [hmet]
  cases met with
  | true =>
    obtain ⟨hle, hall⟩ := htrue rfl
    exact ⟨true, s₁, rfl, hs₁, hused₁, iff_of_true rfl (by omega), hdone s₁ hall⟩
  | false =>
    obtain ⟨htotal, hall, hback⟩ := hfalse rfl
    have hsigned := signedWeight_le keys auth.keyAuths
    obtain ⟨ok, s', hrun, hs', hused', hok, hrest⟩ :=
      checkAccounts_walk auth.weightThreshold total hs₁ (by omega)
        fun n htemp hn => hcheck n htemp (hback _ hn)
    refine ⟨ok, s', hrun, hs', List.Subset.trans hused₁ hused', by rw [hok]; omega, hdone s' ?_⟩
    intro x hx
    rcases hall x hx with hdone | hasked
    · exact hdone.mono hused'
    · exact hrest x hasked

/-- One authority: what is accepted is what is met. -/
theorem checkAuthorityAt_walk {left : Nat} {auth : Authority} (hsettled : Settled keys inner left auth)
    (hsmall : ∀ b, Relation.ReflTransGen (Refers inner) auth b → b.totalWeight < two32)
    (hroot : ∃ a, roots a ∧ Relation.ReflTransGen (Descends keys inner) a auth) :
    Exact keys availableKeys inner roots (checkAuthorityAt (fun n => .ok (inner n)) left auth)
      ((auth.quorum keys).Met (satisfiedAccounts keys inner)) (Uses keys inner auth) := by
  induction left generalizing auth with
  | zero =>
    refine checkParts_walk _ hroot (hsmall auth .refl) ?_
    -- an account this deep is idle
    intro n htemp hasks s hs
    obtain ⟨m, hm, rfl⟩ := asks_account hasks
    have hidle := (hsettled m hm).resolve_left htemp
    exact ⟨false, s, rfl, hs, List.Subset.refl _, iff_of_false nofun hidle.1,
      fun k hk => absurd hk hidle.no_uses⟩
  | succ left ih =>
    refine checkParts_walk _ hroot (hsmall auth .refl) ?_
    intro n htemp hasks
    have hdescends : Descends keys inner auth (inner n) := ⟨n, htemp, hasks, rfl⟩
    obtain ⟨a, ha, hpath⟩ := hroot
    have hinner := ih (hsettled.descends hdescends)
      (fun b hb => hsmall b (hb.head hdescends.refers)) ⟨a, ha, hpath.tail hdescends⟩
    intro s hs
    obtain ⟨ok, s', hrun, hs', hused, hok, huses⟩ := hinner s hs
    refine ⟨ok, s', hrun, hs', hused, hok.trans ?_, huses⟩
    exact ⟨fun h => Quorum.mem_counted.2 (.inr h),
      fun h => (Quorum.mem_counted.1 h).resolve_left htemp⟩

end Run

/-! ### Requirements -/

/-- What a requirement asks for: an account, which may be approved already, or an authority. -/
inductive Entry
  | account (id : Name)
  | authority (a : Authority)

namespace Entry

def check (inner : Name → Authority) (depth : Nat) : Entry → SignState → Result (Bool × SignState)
  | .account id => checkAccountAuthority (fun n => .ok (inner n)) depth id
  | .authority a => checkAuthority (fun n => .ok (inner n)) depth a

def Met (keys : List PublicKey) (inner : Name → Authority) : Entry → Prop
  | .account id => id ∈ satisfiedAccounts keys inner
  | .authority a => (a.quorum keys).Met (satisfiedAccounts keys inner)

/- The authority gone through. -/
def Root (inner : Name → Authority) : Entry → Authority → Prop
  | .account id, a => id ≠ tempAccount ∧ a = inner id
  | .authority b, a => a = b

/-- A key that signed and that the entry asks for. -/
def Uses (keys : List PublicKey) (inner : Name → Authority) (e : Entry) (k : PublicKey) : Prop :=
  ∃ a, e.Root inner a ∧ Chain.Uses keys inner a k

variable {keys keys' availableKeys : List PublicKey} {inner : Name → Authority}
  {roots : Authority → Prop} {e : Entry} {depth : Nat}

theorem Met.mono (hkeys : keys ⊆ keys') (h : e.Met keys inner) : e.Met keys' inner := by
  cases e with
  | account id => exact satisfiedAccounts_mono hkeys h
  | authority a => exact met_mono hkeys (satisfiedAccounts_mono hkeys) h

theorem Uses.anti {k : PublicKey} (hkeys : keys ⊆ keys') (hk : k ∈ keys)
    (h : e.Uses keys' inner k) : e.Uses keys inner k := by
  obtain ⟨a, ha, huses⟩ := h
  exact ⟨a, ha, huses.anti hkeys hk⟩

/-- An entry that is met stays met with the keys it asks for. -/
theorem met_of_uses (hsettled : ∀ a, e.Root inner a → Settled keys inner depth a)
    (huses : ∀ k, e.Uses keys inner k → k ∈ keys') (hmet : e.Met keys inner) : e.Met keys' inner := by
  cases e with
  | account id =>
    by_cases htemp : id = tempAccount
    · exact Quorum.mem_counted.2 (.inl htemp)
    · have hroot : (account id).Root inner (inner id) := ⟨htemp, rfl⟩
      refine Quorum.mem_counted.2 (.inr ?_)
      exact Chain.met_of_uses (hsettled _ hroot) (fun k hk => huses k ⟨_, hroot, hk⟩)
        ((Quorum.mem_counted.1 hmet).resolve_left htemp)
  | authority a =>
    exact Chain.met_of_uses (hsettled a rfl) (fun k hk => huses k ⟨a, rfl, hk⟩) hmet

/-- An entry is gone into without harm from the recursion limit or the width of a weight. -/
def Plain (keys : List PublicKey) (inner : Name → Authority) (depth : Nat) (e : Entry) : Prop :=
  ∀ a, e.Root inner a → Settled keys inner depth a ∧
    ∀ b, Relation.ReflTransGen (Refers inner) a b → b.totalWeight < two32

theorem Plain.anti (hkeys : keys ⊆ keys') (h : e.Plain keys' inner depth) :
    e.Plain keys inner depth :=
  fun a ha => ⟨(h a ha).1.anti hkeys, (h a ha).2⟩

theorem check_walk (hplain : e.Plain keys inner depth) (hroots : ∀ a, e.Root inner a → roots a) :
    Exact keys availableKeys inner roots (e.check inner depth) (e.Met keys inner)
      (e.Uses keys inner) := by
  cases e with
  | account id =>
    intro s hs
    rw [check, checkAccountAuthority]
    by_cases happroved : id ∈ s.approvedBy
    · rw [if_pos happroved]
      refine ⟨true, s, rfl, hs, List.Subset.refl _, iff_of_true rfl (hs.approved id happroved), ?_⟩
      rintro k ⟨a, ⟨htemp, rfl⟩, huses⟩
      exact hs.done id happroved htemp k huses
    · have htemp : id ≠ tempAccount := by
        rintro rfl
        exact happroved hs.temp
      have hroot : (account id).Root inner (inner id) := ⟨htemp, rfl⟩
      obtain ⟨hsettled, hsmall⟩ := hplain _ hroot
      obtain ⟨ok, s', hrun, hs', hused, hok, huses⟩ :=
        checkAuthorityAt_walk hsettled hsmall ⟨_, hroots _ hroot, .refl⟩ s hs
      rw [if_neg happroved]
      refine ⟨ok, s', hrun, hs', hused, hok.trans ?_, ?_⟩
      · exact ⟨fun h => Quorum.mem_counted.2 (.inr h),
          fun h => (Quorum.mem_counted.1 h).resolve_left htemp⟩
      · rintro k ⟨a, ⟨-, rfl⟩, hk⟩
        exact huses k hk
  | authority a =>
    obtain ⟨hsettled, hsmall⟩ := hplain a rfl
    intro s hs
    obtain ⟨ok, s', hrun, hs', hused, hok, huses⟩ :=
      checkAuthorityAt_walk hsettled hsmall ⟨a, hroots a rfl, .refl⟩ s hs
    refine ⟨ok, s', hrun, hs', hused, hok, ?_⟩
    rintro k ⟨_, rfl, hk⟩
    exact huses k hk

/-- Entries gone through for the keys they use. -/
theorem goThrough_walk {l : List Entry} (hplain : ∀ e ∈ l, e.Plain keys inner depth)
    (hroots : ∀ e ∈ l, ∀ a, e.Root inner a → roots a) {s : SignState}
    (hs : Walking keys availableKeys inner roots s) :
    ∃ s', l.foldlM (fun s e => goThrough (e.check inner depth) s) s = .ok s' ∧
      Walking keys availableKeys inner roots s' ∧ s.used ⊆ s'.used ∧
      ∀ e ∈ l, ∀ k, e.Uses keys inner k → k ∈ s'.used := by
  induction l generalizing s with
  | nil => exact ⟨s, rfl, hs, List.Subset.refl _, nofun⟩
  | cons e l ih =>
    obtain ⟨ok, s₁, hrun, hs₁, hused₁, -, huses⟩ := check_walk (hplain e List.mem_cons_self)
      (hroots e List.mem_cons_self) s hs
    obtain ⟨s', hrun', hs', hused', hall⟩ := ih (fun e he => hplain e (List.mem_cons_of_mem _ he))
      (fun e he => hroots e (List.mem_cons_of_mem _ he)) hs₁
    refine ⟨s', ?_, hs', List.Subset.trans hused₁ hused',
      List.forall_mem_cons.2 ⟨fun k hk => hused' (huses k hk), hall⟩⟩
    rw [List.foldlM_cons]
    unfold goThrough
    rw [hrun]
    exact hrun'

end Entry

/-- A requirement: the entry it names, those it falls back to, and what is thrown. -/
structure Requirement where
  exception : Exception
  own : Entry
  fallback : List Entry

namespace Requirement

def entries (q : Requirement) : List Entry := q.own :: q.fallback

def check (inner : Name → Authority) (depth : Nat) (q : Requirement) (s : SignState) :
    Result SignState :=
  checkAny q.exception (q.entries.map (Entry.check inner depth)) s

def Met (keys : List PublicKey) (inner : Name → Authority) (q : Requirement) : Prop :=
  ∃ e ∈ q.entries, e.Met keys inner

variable {keys keys' availableKeys : List PublicKey} {inner : Name → Authority}
  {roots : Authority → Prop} {depth : Nat}

theorem Met.mono {q : Requirement} (hkeys : keys ⊆ keys') (h : q.Met keys inner) :
    q.Met keys' inner := by
  obtain ⟨e, he, hmet⟩ := h
  exact ⟨e, he, hmet.mono hkeys⟩

theorem checkAny_walk (exception : Exception) {l : List Entry}
    (hplain : ∀ e ∈ l, e.Plain keys inner depth)
    (hroots : ∀ e ∈ l, ∀ a, e.Root inner a → roots a) {s : SignState}
    (hs : Walking keys availableKeys inner roots s) :
    (∃ s', checkAny exception (l.map (Entry.check inner depth)) s = .ok s' ∧
      Walking keys availableKeys inner roots s' ∧ s.used ⊆ s'.used ∧
      (∃ e ∈ l, e.Met keys inner) ∧ ∀ e ∈ l.head?, ∀ k, e.Uses keys inner k → k ∈ s'.used) ∨
    checkAny exception (l.map (Entry.check inner depth)) s = .error exception ∧
      ¬ ∃ e ∈ l, e.Met keys inner := by
  induction l generalizing s with
  | nil => exact .inr ⟨rfl, by simp⟩
  | cons e l ih =>
    obtain ⟨ok, s₁, hrun, hs₁, hused₁, hok, huses⟩ := Entry.check_walk
      (hplain e List.mem_cons_self) (hroots e List.mem_cons_self) s hs
    rw [List.map_cons]
    unfold checkAny
    rw [hrun]
    cases ok with
    | true =>
      refine .inl ⟨s₁, rfl, hs₁, hused₁, ⟨e, List.mem_cons_self, hok.1 rfl⟩, ?_⟩
      rintro _ ⟨⟩
      exact huses
    | false =>
      have hnot : ¬ e.Met keys inner := fun h => by simpa using hok.2 h
      rcases ih (fun e he => hplain e (List.mem_cons_of_mem _ he))
        (fun e he => hroots e (List.mem_cons_of_mem _ he)) hs₁ with
        ⟨s', hrun', hs', hused', ⟨e', he', hmet⟩, -⟩ | ⟨hrun', hnone⟩
      · refine .inl ⟨s', hrun', hs', List.Subset.trans hused₁ hused',
          ⟨e', List.mem_cons_of_mem _ he', hmet⟩, ?_⟩
        rintro _ ⟨⟩ k hk
        exact hused' (huses k hk)
      · refine .inr ⟨hrun', ?_⟩
        rintro ⟨e', he', hmet⟩
        rcases List.mem_cons.1 he' with rfl | he'
        · exact hnot hmet
        · exact hnone ⟨e', he', hmet⟩

/-- The requirements one after the other. -/
theorem checks_walk {l : List Requirement}
    (hplain : ∀ q ∈ l, ∀ e ∈ q.entries, e.Plain keys inner depth)
    (hroots : ∀ q ∈ l, ∀ e ∈ q.entries, ∀ a, e.Root inner a → roots a) {s : SignState}
    (hs : Walking keys availableKeys inner roots s) :
    (∃ s', l.foldlM (fun s q => q.check inner depth s) s = .ok s' ∧
      Walking keys availableKeys inner roots s' ∧ s.used ⊆ s'.used ∧
      ∀ q ∈ l, q.Met keys inner ∧ ∀ k, q.own.Uses keys inner k → k ∈ s'.used) ∨
    ∃ q ∈ l, l.foldlM (fun s q => q.check inner depth s) s = .error q.exception ∧
      ¬ q.Met keys inner := by
  induction l generalizing s with
  | nil => exact .inl ⟨s, rfl, hs, List.Subset.refl _, nofun⟩
  | cons q l ih =>
    rw [List.foldlM_cons]
    rcases checkAny_walk q.exception (hplain q List.mem_cons_self)
      (hroots q List.mem_cons_self) hs with
      ⟨s₁, hrun, hs₁, hused₁, hmet, huses⟩ | ⟨hrun, hnot⟩
    · have hcheck : q.check inner depth s = .ok s₁ := hrun
      have hown : ∀ k, q.own.Uses keys inner k → k ∈ s₁.used := huses q.own rfl
      rcases ih (fun q hq => hplain q (List.mem_cons_of_mem _ hq))
        (fun q hq => hroots q (List.mem_cons_of_mem _ hq)) hs₁ with
        ⟨s', hrun', hs', hused', hall⟩ | ⟨q', hq', hrun', hnot⟩
      · refine .inl ⟨s', ?_, hs', List.Subset.trans hused₁ hused',
          List.forall_mem_cons.2 ⟨⟨hmet, fun k hk => hused' (hown k hk)⟩, hall⟩⟩
        rw [hcheck]
        exact hrun'
      · refine .inr ⟨q', List.mem_cons_of_mem _ hq', ?_, hnot⟩
        rw [hcheck]
        exact hrun'
    · refine .inr ⟨q, List.mem_cons_self, ?_, hnot⟩
      have hcheck : q.check inner depth s = .error q.exception := hrun
      rw [hcheck]
      rfl

end Requirement

end WeNode.Chain

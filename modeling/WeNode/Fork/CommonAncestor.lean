import Mathlib.Logic.Relation
import WeNode.Fork.Branches

/-!
# Back to the most recent common ancestor

In a fork database made by `start_block`, by pushing blocks whose parent is stored and by
`set_max_size`, every stored block above the lowest has its parent stored.  There
`fetch_branch_from` finds the two shortest paths to one parent, and the main branch is the branch
of the head.
-/

namespace WeNode.Fork

variable {τ : Type} {hash : SignedBlock τ → Nat}

/-- A fork database made by `start_block` and linked `push_block` calls, cut down by
`set_max_size` any number of times. -/
inductive ForkDatabase.Built (hash : SignedBlock τ → Nat) : ForkDatabase τ → Prop
  | start (b : SignedBlock τ) : Built hash (ForkDatabase.empty.startBlock hash b)
  | push {db f : ForkDatabase τ} {b : SignedBlock τ} : Built hash db →
      (∃ p ∈ db.index, p.id = b.previous) → db.pushBlock hash b = .ok f → Built hash f
  | resize {db : ForkDatabase τ} (s : Nat) : Built hash db → Built hash (db.setMaxSize s)

/-- `p` is the parent of `x`. -/
def ForkDatabase.Parent (db : ForkDatabase τ) (x p : ForkItem τ) : Prop :=
  x ∈ db.index ∧ p ∈ db.index ∧ p.id = x.data.previous

/-- `a` is `x` or an ancestor of it, all in between stored. -/
def ForkDatabase.Ancestor (db : ForkDatabase τ) (x a : ForkItem τ) : Prop :=
  Relation.ReflTransGen db.Parent x a

/-- Stored items from `x` down, each one the parent of the one before. -/
structure ForkDatabase.ParentPath (db : ForkDatabase τ) (x : ForkItem τ) (l : List (ForkItem τ)) :
    Prop where
  head : l.head? = some x
  stored : ∀ z ∈ l, z ∈ db.index
  parents : l.IsChain fun a p => p.id = a.data.previous

/-- Every stored item above `base` is linked to its stored parent, and the head is a highest one. -/
structure Rooted (hash : SignedBlock τ → Nat) (db : ForkDatabase τ) (base : Nat) : Prop where
  ok : db.Ok hash
  base_le : ∀ x ∈ db.index, base ≤ x.num
  linked : ∀ x ∈ db.index, base < x.num → ∃ p ∈ db.index, Links x p
  head : ∃ h ∈ db.index, db.head = some h ∧ ∀ x ∈ db.index, x.num ≤ h.num

theorem Rooted.start (b : SignedBlock τ) :
    Rooted hash (ForkDatabase.empty.startBlock hash b) b.blockNum := by
  have hindex : ∀ {x}, x ∈ (ForkDatabase.empty.startBlock hash b).index →
      x = ⟨0, none, b.blockNum, false, b.id hash, b⟩ := by
    intro x hx
    simpa [ForkDatabase.startBlock, ForkDatabase.insert, ForkDatabase.empty] using hx
  refine ⟨ForkDatabase.startBlock_ok b, ?_, ?_,
    ⟨⟨0, none, b.blockNum, false, b.id hash, b⟩, ?_, rfl, ?_⟩⟩
  · intro x hx
    rw [hindex hx]
  · intro x hx hbase
    rw [hindex hx] at hbase
    exact absurd hbase (Nat.lt_irrefl _)
  · simp [ForkDatabase.startBlock, ForkDatabase.insert, ForkDatabase.empty]
  · intro x hx
    rw [hindex hx]

namespace Rooted

variable {db f : ForkDatabase τ} {base : Nat}

theorem push {b : SignedBlock τ} (h : Rooted hash db base)
    (hlinked : ∃ p ∈ db.index, p.id = b.previous) (hf : db.pushBlock hash b = .ok f) :
    Rooted hash f base := by
  obtain ⟨item, hpushed⟩ := ForkDatabase.pushBlock_spec h.ok hf
  obtain ⟨t, ht, hhead, hmax⟩ := h.head
  obtain ⟨p₀, hp₀, hpid₀⟩ := hlinked
  have hprev : b.previous ≠ BlockId.zero := by
    rw [← hpid₀, h.ok.sound.id_eq (ForkDatabase.index_live hp₀)]
    exact SignedBlock.id_ne_zero _
  obtain ⟨p, hp, hpid, hlink⟩ := hpushed.prev_some (by rw [hhead]; nofun) hprev
  -- the new item stands one above its parent
  have hnum : item.num = p.num + 1 := by
    have := h.ok.sound.id_num (ForkDatabase.index_live hp)
    rw [hpid] at this
    rw [hpushed.num]
    show b.previous.num + 1 = _
    omega
  have hkeep : ∀ x ∈ db.index, x ∈ f.index := by
    intro x hx
    rcases hpushed.index with ⟨hi, -⟩ | ⟨hi, -⟩
    · rw [hi]
      exact List.mem_append_left _ hx
    · rw [hi]
      exact hx
  have hnew : ∀ x ∈ f.index, x ∈ db.index ∨ x = item := by
    intro x hx
    rcases hpushed.index with ⟨hi, -⟩ | ⟨hi, -⟩
    · rw [hi] at hx
      simpa using hx
    · rw [hi] at hx
      exact .inl hx
  have hpbase := h.base_le p hp
  refine ⟨hpushed.ok, ?_, ?_, ?_⟩
  · intro x hx
    rcases hnew x hx with hx | rfl
    · exact h.base_le x hx
    · omega
  · intro x hx hbase
    rcases hnew x hx with hx | rfl
    · obtain ⟨q, hq, hlinks⟩ := h.linked x hx hbase
      exact ⟨q, hkeep q hq, hlinks⟩
    · exact ⟨p, hkeep p hp, hlink⟩
  · rcases hpushed.head with ⟨hfhead, hhigher⟩ | ⟨t', ht', hfhead, hle⟩
    · have hlt := hhigher t hhead
      have hstored : item ∈ f.index := by
        rcases hpushed.index with ⟨hi, -⟩ | ⟨-, y, hy, hyid⟩
        · rw [hi]
          simp
        · -- a stored item of the same id would be as high
          have hynum := h.ok.sound.id_num (ForkDatabase.index_live hy)
          have hitem : item.id.num = item.num := by
            rw [hpushed.id, hpushed.num]
            rfl
          have := hmax y hy
          rw [hyid] at hynum
          omega
      refine ⟨item, hstored, hfhead, ?_⟩
      intro x hx
      rcases hnew x hx with hx | rfl
      · have := hmax x hx
        omega
      · exact Nat.le_refl _
    · have hsame : t' = t := Option.some.inj (ht'.symm.trans hhead)
      subst hsame
      refine ⟨t', hkeep t' ht, hfhead, ?_⟩
      intro x hx
      rcases hnew x hx with hx | rfl
      · exact hmax x hx
      · exact hle

theorem resize (h : Rooted hash db base) (s : Nat) : ∃ base', Rooted hash (db.setMaxSize s) base' := by
  obtain ⟨t, ht, hhead, hmax⟩ := h.head
  have hmem : ∀ x, x ∈ (db.setMaxSize s).index ↔ x ∈ db.index ∧ t.num - s ≤ x.num := by
    intro x
    rw [ForkDatabase.mem_setMaxSize, hhead]
    simp
  have hhead' : (db.setMaxSize s).head = some t := by
    rw [ForkDatabase.setMaxSize_head, hhead]
  refine ⟨max base (t.num - s), ?_, ?_, ?_, ⟨t, (hmem t).2 ⟨ht, Nat.sub_le _ _⟩, hhead', ?_⟩⟩
  · refine h.ok.shrink (fun x hx => ((hmem x).1 hx).1) ?_ (ForkDatabase.setMaxSize_nextPtr db s)
    intro x hx
    rw [hhead'] at hx
    cases hx
    exact ForkDatabase.head_live hhead
  · intro x hx
    obtain ⟨hx, hlow⟩ := (hmem x).1 hx
    exact max_le (h.base_le x hx) hlow
  · intro x hx hbase
    obtain ⟨hx, hlow⟩ := (hmem x).1 hx
    obtain ⟨p, hp, hlinks⟩ := h.linked x hx (lt_of_le_of_lt (le_max_left _ _) hbase)
    have hpnum := h.ok.sound.prev_num (ForkDatabase.index_live hx) (ForkDatabase.index_live hp) hlinks
    have hcut := lt_of_le_of_lt (le_max_right base (t.num - s)) hbase
    exact ⟨p, (hmem p).2 ⟨hp, by omega⟩, hlinks⟩
  · intro x hx
    exact hmax x ((hmem x).1 hx).1

end Rooted

theorem ForkDatabase.Built.rooted {db : ForkDatabase τ} (h : db.Built hash) :
    ∃ base, Rooted hash db base := by
  induction h with
  | start b => exact ⟨_, Rooted.start b⟩
  | push _ hlinked hf ih =>
    obtain ⟨base, ih⟩ := ih
    exact ⟨base, ih.push hlinked hf⟩
  | resize s _ ih =>
    obtain ⟨base, ih⟩ := ih
    exact ih.resize s

/-! ### Parents and ancestors -/

namespace Rooted

variable {db : ForkDatabase τ} {base : Nat} {x y p a b : ForkItem τ} {l : List (ForkItem τ)}

theorem sound (h : Rooted hash db base) : Sound hash (· ∈ db.index) db.nextPtr :=
  h.ok.sound.mono fun _ hx => ForkDatabase.index_live hx

theorem stored (h : Rooted hash db base) (hx : x ∈ db.live []) : x ∈ db.index := by
  obtain ⟨t, ht, hhead, -⟩ := h.head
  exact ForkDatabase.live_of_head_mem hhead ht hx

theorem lock_eq (h : Rooted hash db base) (hp : p ∈ db.index) (hlinks : Links x p) :
    db.lock [] x.prev = some p := by
  rw [hlinks]
  exact db.lock_eq_some [] h.ok.sound (fun _ hz => hz) (ForkDatabase.index_live hp)

/-- The weak pointer of a stored item names its stored parent. -/
theorem links_iff (h : Rooted hash db base) (hx : x ∈ db.index) (hp : p ∈ db.index) :
    Links x p ↔ p.id = x.data.previous := by
  constructor
  · exact h.sound.prev_id hx hp
  · intro hid
    have hnum := h.sound.previous_num hx
    have hpnum := h.sound.id_num hp
    have hbase := h.base_le p hp
    rw [hid] at hpnum
    obtain ⟨q, hq, hlinks⟩ := h.linked x hx (by omega)
    rw [h.ok.unique p hp q hq (hid.trans (h.sound.prev_id hx hq hlinks).symm)]
    exact hlinks

theorem parent_num (h : Rooted hash db base) (hp : db.Parent x p) : p.num + 1 = x.num :=
  h.sound.prev_num hp.1 hp.2.1 ((h.links_iff hp.1 hp.2.1).2 hp.2.2)

theorem parent_unique (h : Rooted hash db base) (ha : db.Parent x a) (hb : db.Parent x b) : a = b :=
  h.ok.unique a ha.2.1 b hb.2.1 (ha.2.2.trans hb.2.2.symm)

theorem ancestor_num_le (h : Rooted hash db base) (ha : db.Ancestor x a) : a.num ≤ x.num := by
  induction ha with
  | refl => exact Nat.le_refl _
  | tail _ hp ih =>
    have := h.parent_num hp
    omega

theorem ancestors_total (h : Rooted hash db base) (ha : db.Ancestor x a) (hb : db.Ancestor x b) :
    db.Ancestor a b ∨ db.Ancestor b a := by
  have hright : Relator.RightUnique db.Parent := fun _ _ _ => h.parent_unique
  exact Relation.ReflTransGen.total_of_right_unique hright ha hb

/- An item has one ancestor of each height. -/
theorem ancestor_unique (h : Rooted hash db base) (ha : db.Ancestor x a) (hb : db.Ancestor x b)
    (hnum : a.num = b.num) : a = b := by
  have hsame : ∀ {u v}, db.Ancestor u v → u.num = v.num → u = v := by
    intro u v huv hn
    rcases Relation.ReflTransGen.cases_head huv with rfl | ⟨c, hc, hcv⟩
    · rfl
    · have := h.parent_num hc
      have := h.ancestor_num_le hcv
      omega
  rcases h.ancestors_total ha hb with hab | hba
  · exact hsame hab hnum
  · exact (hsame hba hnum.symm).symm

/- Below an item that is not `a` itself, `a` is an ancestor of the parent. -/
theorem ancestor_parent (h : Rooted hash db base) (ha : db.Ancestor x a) (hne : x ≠ a)
    (hp : db.Parent x p) : db.Ancestor p a := by
  rcases Relation.ReflTransGen.cases_head ha with hxa | ⟨c, hc, hca⟩
  · exact absurd hxa hne
  · rw [h.parent_unique hp hc]
    exact hca

/- Of two ancestors the lower one is an ancestor of the other. -/
theorem ancestor_below (h : Rooted hash db base) (ha : db.Ancestor x a) (hb : db.Ancestor x b)
    (hle : b.num ≤ a.num) : db.Ancestor a b := by
  rcases h.ancestors_total ha hb with hab | hba
  · exact hab
  · have hge := h.ancestor_num_le hba
    rw [h.ancestor_unique ha hb (by omega)]
    exact .refl

theorem ancestor_stored (hx : x ∈ db.index) (ha : db.Ancestor x a) : a ∈ db.index := by
  induction ha with
  | refl => exact hx
  | tail _ hp _ => exact hp.2.1

/-! ### Paths -/

theorem path_of_branch (h : Rooted hash db base) (hb : Branch l) (hhead : l.head? = some x)
    (hmem : ∀ z ∈ l, z ∈ db.index) : db.ParentPath x l where
  head := hhead
  stored := hmem
  parents := hb.imp_of_mem_imp fun a p ha hp hlinks =>
    (h.links_iff (hmem a ha) (hmem p hp)).1 hlinks

end Rooted

namespace ForkDatabase.ParentPath

variable {db : ForkDatabase τ} {x y a : ForkItem τ} {l : List (ForkItem τ)} {base : Nat}

/- A path is its first item, or that item before the path of the next. -/
theorem cases_path (h : db.ParentPath x l) :
    l = [x] ∨ ∃ p t, l = x :: p :: t ∧ db.Parent x p ∧ db.ParentPath p (p :: t) := by
  obtain ⟨hhead, hstored, hparents⟩ := h
  cases l with
  | nil => cases hhead
  | cons z l =>
    obtain rfl : z = x := by simpa using hhead
    cases l with
    | nil => exact .inl rfl
    | cons p t =>
      obtain ⟨hid, hparents⟩ := List.isChain_cons_cons.1 hparents
      have hp := hstored p (by simp)
      exact .inr ⟨p, t, rfl, ⟨hstored z (by simp), hp, hid⟩, rfl,
        fun w hw => hstored w (List.mem_cons_of_mem _ hw), hparents⟩

theorem ancestor (h : db.ParentPath x l) : ∀ z ∈ l, db.Ancestor x z := by
  induction l generalizing x with
  | nil => nofun
  | cons w l ih =>
    intro z hz
    rcases h.cases_path with hl | ⟨p, t, hl, hp, ht⟩
    · rw [hl, List.mem_singleton] at hz
      rw [hz]
      exact .refl
    · obtain ⟨rfl, rfl⟩ := List.cons.inj hl
      rcases List.mem_cons.1 hz with rfl | hz
      · exact .refl
      · exact .head hp (ih ht z hz)

/-- The height of the last item of a path and the length of the path. -/
theorem length_eq (hroot : Rooted hash db base) (h : db.ParentPath x l) (ha : l.getLast? = some a) :
    a.num + l.length = x.num + 1 := by
  induction l generalizing x with
  | nil => cases ha
  | cons w l ih =>
    rcases h.cases_path with hl | ⟨p, t, hl, hp, ht⟩
    · rw [hl] at ha ⊢
      cases ha
      rfl
    · obtain ⟨rfl, rfl⟩ := List.cons.inj hl
      have hlen := ih ht (by rw [← ha]; rfl)
      have := hroot.parent_num hp
      rw [List.length_cons]
      omega

end ForkDatabase.ParentPath

/-! ### The loops -/

namespace Rooted

variable {db : ForkDatabase τ} {base n fuel : Nat} {x y a b c : ForkItem τ}
  {l m : List (ForkItem τ)}

/- The walk down to a height that is not below the lowest one gets there. -/
theorem descend_some (h : Rooted hash db base) (hn : base ≤ n) (hx : x ∈ db.index)
    (hfuel : x.ptr < fuel) : ∃ r, db.descend [] n fuel x = some r := by
  induction fuel generalizing x with
  | zero => omega
  | succ fuel ih =>
    unfold ForkDatabase.descend
    by_cases hlt : n < x.num
    · obtain ⟨p, hp, hlinks⟩ := h.linked x hx (by omega)
      have hptr := h.sound.prev_lt hx hlinks
      obtain ⟨r, hr⟩ := ih hp (by omega)
      rw [if_pos hlt, h.lock_eq hp hlinks]
      exact ⟨(x :: r.1, r.2), by simp [hr]⟩
    · exact ⟨([], x), by rw [if_neg hlt]⟩

theorem descend_path (h : Rooted hash db base) (hx : x ∈ db.index)
    (hd : db.descend [] n fuel x = some (l, y)) : db.ParentPath x (l ++ [y]) := by
  obtain ⟨hb, hhead, hmem, -⟩ := db.descend_branch [] hd
  refine h.path_of_branch hb hhead ?_
  intro z hz
  rcases hmem z hz with rfl | hz
  · exact hx
  · exact h.stored hz

theorem descend_height (h : Rooted hash db base) (hx : x ∈ db.index) (hn : n ≤ x.num)
    (hd : db.descend [] n fuel x = some (l, y)) : y.num = n := by
  induction fuel generalizing x l with
  | zero => cases hd
  | succ fuel ih =>
    unfold ForkDatabase.descend at hd
    by_cases hlt : n < x.num
    · rw [if_pos hlt] at hd
      cases hlock : db.lock [] x.prev with
      | none =>
        rw [hlock] at hd
        cases hd
      | some p =>
        rw [hlock] at hd
        obtain ⟨⟨l', y'⟩, hr, hy⟩ := Option.map_eq_some_iff.1 hd
        cases hy
        obtain ⟨hlive, hlinks⟩ := db.lock_mem [] hlock
        have hp := h.stored hlive
        have hnum := h.sound.prev_num hx hp hlinks
        exact ih hp (by omega) hr
    · rw [if_neg hlt] at hd
      cases hd
      omega

/-- The third loop ends while there is a common ancestor further down. -/
theorem descendBoth_some (h : Rooted hash db base) (hx : x ∈ db.index) (hy : y ∈ db.index)
    (hnum : x.num = y.num) (hcx : db.Ancestor x c) (hcy : db.Ancestor y c) (hfuel : x.ptr < fuel) :
    ∃ r, db.descendBoth [] fuel x y = some r := by
  induction fuel generalizing x y with
  | zero => omega
  | succ fuel ih =>
    unfold ForkDatabase.descendBoth
    by_cases hprev : x.data.previous ≠ y.data.previous
    · have hxc : x ≠ c := by
        rintro rfl
        exact hprev (by rw [h.ancestor_unique hcy .refl hnum])
      have hyc : y ≠ c := by
        rintro rfl
        exact hprev (by rw [h.ancestor_unique hcx .refl hnum.symm])
      obtain ⟨p, hp, hpc⟩ := (Relation.ReflTransGen.cases_head hcx).resolve_left hxc
      obtain ⟨q, hq, hqc⟩ := (Relation.ReflTransGen.cases_head hcy).resolve_left hyc
      have hxp := (h.links_iff hx hp.2.1).2 hp.2.2
      have hyq := (h.links_iff hy hq.2.1).2 hq.2.2
      have hpnum := h.parent_num hp
      have hqnum := h.parent_num hq
      have hptr := h.sound.prev_lt hx hxp
      obtain ⟨r, hr⟩ := ih hp.2.1 hq.2.1 (by omega) hpc hqc (by omega)
      rw [if_pos hprev, h.lock_eq hp.2.1 hxp, h.lock_eq hq.2.1 hyq]
      exact ⟨(x :: r.1, y :: r.2), by simp [hr]⟩
    · exact ⟨([x], [y]), by rw [if_neg hprev]⟩

/-- The third loop does not go below two ancestors of one parent. -/
theorem descendBoth_above (h : Rooted hash db base) (hx : x ∈ db.index) (hy : y ∈ db.index)
    (hnum : x.num = y.num) (ha : db.Ancestor x a) (hb : db.Ancestor y b)
    (hab : a.num = b.num) (hprev : a.data.previous = b.data.previous)
    (hd : db.descendBoth [] fuel x y = some (l, m)) : ∀ z ∈ l, a.num ≤ z.num := by
  induction fuel generalizing x y l m with
  | zero => cases hd
  | succ fuel ih =>
    have hax := h.ancestor_num_le ha
    unfold ForkDatabase.descendBoth at hd
    by_cases hne : x.data.previous ≠ y.data.previous
    · rw [if_pos hne] at hd
      cases hlx : db.lock [] x.prev with
      | none =>
        rw [hlx] at hd
        cases hd
      | some p =>
        cases hly : db.lock [] y.prev with
        | none =>
          rw [hlx, hly] at hd
          cases hd
        | some q =>
          rw [hlx, hly] at hd
          obtain ⟨⟨l', m'⟩, hr, hsplit⟩ := Option.map_eq_some_iff.1 hd
          cases hsplit
          obtain ⟨hplive, hxp⟩ := db.lock_mem [] hlx
          obtain ⟨hqlive, hyq⟩ := db.lock_mem [] hly
          have hp : db.Parent x p := ⟨hx, h.stored hplive, (h.links_iff hx (h.stored hplive)).1 hxp⟩
          have hq : db.Parent y q := ⟨hy, h.stored hqlive, (h.links_iff hy (h.stored hqlive)).1 hyq⟩
          have hpnum := h.parent_num hp
          have hqnum := h.parent_num hq
          -- at the height of `x` the ancestors would be `x` and `y`
          have hxa : x ≠ a := by
            rintro rfl
            exact hne (by rw [hprev, h.ancestor_unique hb .refl (by omega)])
          have hyb : y ≠ b := by
            rintro rfl
            exact hne (by rw [← hprev, h.ancestor_unique ha .refl (by omega)])
          intro z hz
          rcases List.mem_cons.1 hz with rfl | hz
          · exact hax
          · exact ih hp.2.1 hq.2.1 (by omega) (h.ancestor_parent ha hxa hp)
              (h.ancestor_parent hb hyb hq) hr z hz
    · rw [if_neg hne] at hd
      cases hd
      intro z hz
      rw [List.mem_singleton.1 hz]
      exact hax

end Rooted

/-! ### What is fetched -/

/-- The two branches from `x` and `y`: parent paths that end in two blocks of one parent, apart
unless one of `x` and `y` is an ancestor of the other, and no longer than any two such paths. -/
structure FetchedBranches (db : ForkDatabase τ) (x y : ForkItem τ)
    (first second : List (ForkItem τ)) : Prop where
  first_path : db.ParentPath x first
  second_path : db.ParentPath y second
  meet : ∃ a b, first.getLast? = some a ∧ second.getLast? = some b ∧
    a.data.previous = b.data.previous
  apart : ∀ z ∈ first, z ∈ second → db.Ancestor x y ∨ db.Ancestor y x
  shortest : ∀ p q a b, db.ParentPath x p → db.ParentPath y q → p.getLast? = some a →
    q.getLast? = some b → a.data.previous = b.data.previous →
    first.length ≤ p.length ∧ second.length ≤ q.length

namespace Rooted

variable {db : ForkDatabase τ} {base n : Nat} {x y x' y' c : ForkItem τ}
  {l₁ l₂ r₁ r₂ first second : List (ForkItem τ)}

/- Where the first two loops leave the two sides. -/
structure Levelled (db : ForkDatabase τ) (x y x' y' : ForkItem τ) (l₁ l₂ : List (ForkItem τ)) :
    Prop where
  first_loop : db.descend [] y.num (x.ptr + 1) x = some (l₁, x')
  second_loop : db.descend [] x'.num (y.ptr + 1) y = some (l₂, y')
  first_stored : x' ∈ db.index
  second_stored : y' ∈ db.index
  first_above : db.Ancestor x x'
  second_above : db.Ancestor y y'
  level : x'.num = y'.num
  lower : x'.num = min x.num y.num

theorem levelled (h : Rooted hash db base) (hx : x ∈ db.index) (hy : y ∈ db.index)
    (h₁ : db.descend [] y.num (x.ptr + 1) x = some (l₁, x'))
    (h₂ : db.descend [] x'.num (y.ptr + 1) y = some (l₂, y')) : Levelled db x y x' y' l₁ l₂ := by
  have hpath₁ := h.descend_path hx h₁
  have hpath₂ := h.descend_path hy h₂
  obtain ⟨-, -, -, -, hle₁⟩ := db.descend_branch [] h₁
  have hlower : x'.num = min x.num y.num := by
    rcases Nat.le_total y.num x.num with hyx | hxy
    · rw [h.descend_height hx hyx h₁, Nat.min_eq_right hyx]
    · rw [(descend_stop hxy h₁).2, Nat.min_eq_left hxy]
  exact ⟨h₁, h₂, hpath₁.stored x' (by simp), hpath₂.stored y' (by simp),
    hpath₁.ancestor x' (by simp), hpath₂.ancestor y' (by simp),
    (h.descend_height hy hle₁ h₂).symm, hlower⟩

theorem fetchBranchFrom_some (h : Rooted hash db base) (hx : x ∈ db.index) (hy : y ∈ db.index)
    (hcx : db.Ancestor x c) (hcy : db.Ancestor y c) :
    ∃ first second, db.fetchBranchFrom x.id y.id = some (first, second) := by
  obtain ⟨⟨l₁, x'⟩, h₁⟩ := h.descend_some (h.base_le y hy) hx (Nat.lt_succ_self x.ptr)
  have hx' : x' ∈ db.index := (h.descend_path hx h₁).stored x' (by simp)
  obtain ⟨⟨l₂, y'⟩, h₂⟩ := h.descend_some (h.base_le x' hx') hy (Nat.lt_succ_self y.ptr)
  have hlev := h.levelled hx hy h₁ h₂
  have hcx' := h.ancestor_num_le hcx
  have hcy' := h.ancestor_num_le hcy
  have hlower := hlev.lower
  have hlevel := hlev.level
  obtain ⟨r, hr⟩ := h.descendBoth_some hlev.first_stored hlev.second_stored hlevel
    (h.ancestor_below hlev.first_above hcx (by omega))
    (h.ancestor_below hlev.second_above hcy (by omega)) (Nat.lt_succ_self x'.ptr)
  refine ⟨l₁ ++ r.1, l₂ ++ r.2, ?_⟩
  unfold ForkDatabase.fetchBranchFrom
  simp only [h.ok.fetchBlock_eq hx, h.ok.fetchBlock_eq hy, h₁, h₂, hr, Option.map_some]

theorem fetched (h : Rooted hash db base) (hx : x ∈ db.index) (hy : y ∈ db.index)
    (hf : db.fetchBranchFrom x.id y.id = some (first, second)) :
    FetchedBranches db x y first second := by
  have hbranches := fetchBranchFrom_spec hf
  obtain ⟨x₀, hx₀, hhead₁, hid₁⟩ := hbranches.first_head
  obtain ⟨y₀, hy₀, hhead₂, hid₂⟩ := hbranches.second_head
  obtain rfl := h.ok.unique x₀ hx₀ x hx hid₁
  obtain rfl := h.ok.unique y₀ hy₀ y hy hid₂
  have hpath₁ := h.path_of_branch hbranches.first_branch hhead₁
    fun z hz => h.stored (hbranches.first_live z hz)
  have hpath₂ := h.path_of_branch hbranches.second_branch hhead₂
    fun z hz => h.stored (hbranches.second_live z hz)
  obtain ⟨u, v, x', y', l₁, l₂, r₁, r₂, hu, hv, h₁, h₂, hr, rfl, rfl⟩ := fetchBranchFrom_parts hf
  rw [h.ok.fetchBlock_eq hx] at hu
  rw [h.ok.fetchBlock_eq hy] at hv
  cases hu
  cases hv
  have hlev := h.levelled hx hy h₁ h₂
  have hlower := hlev.lower
  have hlevel := hlev.level
  obtain ⟨-, -, -, habove₁, -⟩ := db.descend_branch [] h₁
  obtain ⟨-, -, -, habove₂, -⟩ := db.descend_branch [] h₂
  obtain ⟨hbr₁, hbr₂, hhr₁, hhr₂, -, hmr₁, hmr₂, a, b, ha, hb, hab⟩ := db.descendBoth_branch [] hr
  refine ⟨hpath₁, hpath₂, hbranches.last, ?_, ?_⟩
  · intro z hz₁ hz₂
    have hzx := h.ancestor_num_le (hpath₁.ancestor z hz₁)
    have hzy := h.ancestor_num_le (hpath₂.ancestor z hz₂)
    rcases Decidable.em (x'.id = y'.id) with hsame | hne
    · -- the loops met: the lower one of `x` and `y` has not moved
      have hsame := h.ok.unique x' hlev.first_stored y' hlev.second_stored hsame
      rcases Nat.le_total y₀.num x₀.num with hyx | hxy
      · obtain ⟨-, hy'⟩ := descend_stop (by omega) h₂
        have hanc := hlev.first_above
        rw [hsame, hy'] at hanc
        exact .inl hanc
      · obtain ⟨-, hx'⟩ := descend_stop hxy h₁
        have hanc := hlev.second_above
        rw [← hsame, hx'] at hanc
        exact .inr hanc
    · exfalso
      have hlow : ∀ z ∈ r₁, z.num ≤ x'.num := by
        intro z hz
        have hpath := h.path_of_branch hbr₁ hhr₁ fun w hw => (hmr₁ w hw).elim
          (fun e => e ▸ hlev.first_stored) h.stored
        exact h.ancestor_num_le (hpath.ancestor z hz)
      have hdisjoint := descendBoth_disjoint h.ok (ForkDatabase.index_live hlev.first_stored)
        (ForkDatabase.index_live hlev.second_stored) hlevel hne hr
      rcases List.mem_append.1 hz₁ with hz₁ | hz₁
      · have := habove₁ z hz₁
        omega
      · rcases List.mem_append.1 hz₂ with hz₂ | hz₂
        · have := habove₂ z hz₂
          have := hlow z hz₁
          omega
        · exact hdisjoint z hz₁ z hz₂ rfl
  · intro p q a' b' hp hq ha' hb' hab'
    have hpa := hp.ancestor a' (List.mem_of_getLast? ha')
    have hqb := hq.ancestor b' (List.mem_of_getLast? hb')
    have hnuma := h.sound.previous_num (ancestor_stored hx hpa)
    have hnumb := h.sound.previous_num (ancestor_stored hy hqb)
    rw [hab'] at hnuma
    have hax := h.ancestor_num_le hpa
    have hby := h.ancestor_num_le hqb
    have habove := h.descendBoth_above hlev.first_stored hlev.second_stored hlevel
      (h.ancestor_below hlev.first_above hpa (by omega))
      (h.ancestor_below hlev.second_above hqb (by omega)) (by omega) hab' hr a
      (List.mem_of_getLast? ha)
    have hlast₁ : (l₁ ++ r₁).getLast? = some a := by
      rw [List.getLast?_append, ha]
      rfl
    have hlast₂ : (l₂ ++ r₂).getLast? = some b := by
      rw [List.getLast?_append, hb]
      rfl
    have hlen₁ := hpath₁.length_eq h hlast₁
    have hlen₂ := hpath₂.length_eq h hlast₂
    have hlenp := hp.length_eq h ha'
    have hlenq := hq.length_eq h hb'
    have hsame₁ := h.sound.previous_num (hpath₁.stored a (List.mem_of_getLast? hlast₁))
    have hsame₂ := h.sound.previous_num (hpath₂.stored b (List.mem_of_getLast? hlast₂))
    rw [hab] at hsame₁
    omega

/-- The block of a number that is stored on the branch of the head. -/
theorem fetchBlockOnMainBranchByNumber_eq (h : Rooted hash db base)
    (hn : ∃ z ∈ db.index, z.num = n) : ∃ t a, db.head = some t ∧
      db.fetchBlockOnMainBranchByNumber [] n = some a ∧ a.num = n ∧ db.Ancestor t a := by
  obtain ⟨z, hz, rfl⟩ := hn
  obtain ⟨t, ht, hhead, hmax⟩ := h.head
  obtain ⟨⟨l, a⟩, hd⟩ := h.descend_some (h.base_le z hz) ht (Nat.lt_succ_self t.ptr)
  have hpath := h.descend_path ht hd
  have hnum := h.descend_height ht (hmax z hz) hd
  have hstored := hpath.stored a (by simp)
  refine ⟨t, a, hhead, ?_, hnum, hpath.ancestor a (by simp)⟩
  have hfound : a ∈ db.fetchBlockByNumber z.num :=
    List.mem_filter.2 ⟨hstored, decide_eq_true hnum⟩
  unfold ForkDatabase.fetchBlockOnMainBranchByNumber
  split
  · next hnone =>
    rw [hnone] at hfound
    cases hfound
  · next w hone =>
    rw [hone, List.mem_singleton] at hfound
    rw [hfound]
  · unfold ForkDatabase.walkMainBranchToNum
    have hmax := hmax z hz
    rw [hhead]
    dsimp only
    rw [if_neg (by omega), hd]
    rfl

end Rooted

/-- `fetch_branch_from` and `fetch_block_on_main_branch_by_number` on every fork database that is
made by `start_block` and linked `push_block` calls. -/
theorem ForkDatabase.Built.fetches {db : ForkDatabase τ} (h : db.Built hash) :
    (∀ x ∈ db.index, ∀ y ∈ db.index, (∃ c, db.Ancestor x c ∧ db.Ancestor y c) →
      ∃ first second, db.fetchBranchFrom x.id y.id = some (first, second) ∧
        FetchedBranches db x y first second) ∧
    ∀ n, (∃ z ∈ db.index, z.num = n) → ∃ t a, db.head = some t ∧
      db.fetchBlockOnMainBranchByNumber [] n = some a ∧ a.num = n ∧ db.Ancestor t a := by
  obtain ⟨base, hroot⟩ := h.rooted
  constructor
  · rintro x hx y hy ⟨c, hcx, hcy⟩
    obtain ⟨first, second, hf⟩ := hroot.fetchBranchFrom_some hx hy hcx hcy
    exact ⟨first, second, hf, hroot.fetched hx hy hf⟩
  · intro n hn
    exact hroot.fetchBlockOnMainBranchByNumber_eq hn

/- Two blocks on one parent, under a digest that is the time of the block. -/
def forkRoot : ForkItem Unit := ⟨0, none, 1, false, ⟨1, 0⟩, ⟨.zero, 0, "", 0, [], 0, []⟩⟩
def forkLeft : ForkItem Unit := ⟨1, some 0, 2, false, ⟨2, 1⟩, ⟨⟨1, 0⟩, 1, "", 0, [], 0, []⟩⟩
def forkRight : ForkItem Unit := ⟨2, some 0, 2, false, ⟨2, 2⟩, ⟨⟨1, 0⟩, 2, "", 0, [], 0, []⟩⟩
def forkOfTwo : ForkDatabase Unit := ⟨[forkRoot, forkLeft, forkRight], some forkLeft, 1024, 3⟩

theorem forkOfTwo_built : forkOfTwo.Built fun b => b.timestamp :=
  .push (b := forkRight.data) (.push (b := forkLeft.data) (.start forkRoot.data)
    ⟨forkRoot, by decide, rfl⟩ rfl) ⟨forkRoot, by decide, rfl⟩ rfl

theorem fetches_forkOfTwo : ∃ first second,
    forkOfTwo.fetchBranchFrom ⟨2, 1⟩ ⟨2, 2⟩ = some (first, second) ∧
      FetchedBranches forkOfTwo forkLeft forkRight first second :=
  (ForkDatabase.Built.fetches forkOfTwo_built).1 forkLeft (by decide) forkRight (by decide)
    ⟨forkRoot, .single ⟨by decide, by decide, rfl⟩, .single ⟨by decide, by decide, rfl⟩⟩

end WeNode.Fork

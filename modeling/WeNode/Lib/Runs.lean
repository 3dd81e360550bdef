import Mathlib.Data.List.Basic

/-!
# Runs of a step that may fail

`l.foldlM f s` is the run of the step `f` from the state `s` over the inputs `l`; it ends with the
first exception.
-/

namespace WeNode.Lib

variable {ε α β σ τ : Type}

theorem bind_ok {x : Except ε α} {f : α → Except ε β} {b : β} :
    x >>= f = .ok b ↔ ∃ a, x = .ok a ∧ f a = .ok b := by
  cases x with
  | error e =>
    constructor
    · intro h
      cases h
    · rintro ⟨_, h, _⟩
      cases h
  | ok a =>
    constructor
    · intro h
      exact ⟨a, rfl, h⟩
    · rintro ⟨_, h, hf⟩
      cases h
      exact hf

theorem ok_bind {x : α} (f : α → Except ε β) :
    ((.ok x : Except ε α) >>= f) = f x := rfl

theorem error_bind {e : ε} (f : α → Except ε β) :
    ((.error e : Except ε α) >>= f) = .error e := rfl

theorem map_ok {x : Except ε α} {f : α → β} {b : β} :
    x.map f = .ok b ↔ ∃ a, x = .ok a ∧ f a = b := by
  cases x with
  | error e =>
    constructor
    · intro h
      cases h
    · rintro ⟨_, h, _⟩
      cases h
  | ok a =>
    constructor
    · intro h
      exact ⟨a, rfl, Except.ok.inj h⟩
    · rintro ⟨_, h, hf⟩
      cases h
      exact congrArg Except.ok hf

theorem toOption_ok {x : Except ε α} {a : α} (h : x.toOption = some a) : x = .ok a := by
  cases x with
  | error e => cases h
  | ok b =>
    cases h
    rfl

theorem run_cons {f : σ → α → Except ε σ} {a : α} {l : List α} {s s' : σ} :
    (a :: l).foldlM f s = .ok s' ↔ ∃ t, f s a = .ok t ∧ l.foldlM f t = .ok s' := by
  rw [List.foldlM_cons, bind_ok]

theorem run_append {f : σ → α → Except ε σ} {l l' : List α} {s s' : σ} :
    (l ++ l').foldlM f s = .ok s' ↔ ∃ t, l.foldlM f s = .ok t ∧ l'.foldlM f t = .ok s' := by
  rw [List.foldlM_append, bind_ok]

/-- What holds of the inputs seen so far and the state, holds at the end of a run. -/
theorem run_induction {f : σ → α → Except ε σ} {P : List α → σ → Prop} {s s' : σ} {l : List α}
    (h : l.foldlM f s = .ok s') (hs : P [] s)
    (hf : ∀ done t a t', P done t → a ∈ l → f t a = .ok t' → P (done ++ [a]) t') : P l s' := by
  suffices hr : ∀ done rest t, done ++ rest = l → P done t → rest.foldlM f t = .ok s' → P l s' from
    hr [] l s rfl hs h
  intro done rest t hl ht hrun
  induction rest generalizing done t with
  | nil =>
    cases hrun
    rw [List.append_nil] at hl
    exact hl ▸ ht
  | cons a rest ih =>
    obtain ⟨t', hstep, hrest⟩ := run_cons.1 hrun
    have ha : a ∈ l := hl ▸ List.mem_append_right done (List.mem_cons_self)
    exact ih (done ++ [a]) t' (by simpa using hl) (hf done t a t' ht ha hstep) hrest

/-- What every step of a run keeps, knowing where in the run it is made, holds at the end. -/
theorem run_prefix {f : σ → α → Except ε σ} {P : σ → Prop} {s s' : σ} {l : List α}
    (h : l.foldlM f s = .ok s') (hs : P s)
    (hf : ∀ done a rest t t', l = done ++ a :: rest → done.foldlM f s = .ok t → P t →
      f t a = .ok t' → P t') : P s' := by
  suffices hr : ∀ done rest t, l = done ++ rest → done.foldlM f s = .ok t → P t →
      rest.foldlM f t = .ok s' → P s' from hr [] l s rfl rfl hs h
  intro done rest t hl hdone ht hrun
  induction rest generalizing done t with
  | nil =>
    cases hrun
    exact ht
  | cons a rest ih =>
    obtain ⟨t', hstep, hrest⟩ := run_cons.1 hrun
    refine ih (done ++ [a]) t' (by simpa using hl) ?_ (hf done a rest t t' hl hdone ht hstep) hrest
    exact run_append.2 ⟨t, hdone, run_cons.2 ⟨t', hstep, rfl⟩⟩

/-- A step that follows another one follows its runs. -/
theorem run_simulates {f : σ → α → Except ε σ} {g : τ → α → Except ε τ} {R : σ → τ → Prop}
    {s s' : σ} {t : τ} {l : List α} (h : l.foldlM f s = .ok s') (hR : R s t)
    (hf : ∀ s t a s', R s t → f s a = .ok s' → ∃ t', g t a = .ok t' ∧ R s' t') :
    ∃ t', l.foldlM g t = .ok t' ∧ R s' t' := by
  induction l generalizing s t with
  | nil =>
    cases h
    exact ⟨t, rfl, hR⟩
  | cons a l ih =>
    obtain ⟨s₁, hs₁, hs'⟩ := run_cons.1 h
    obtain ⟨t₁, ht₁, hR₁⟩ := hf s t a s₁ hR hs₁
    obtain ⟨t', ht', hR'⟩ := ih hs' hR₁
    exact ⟨t', run_cons.2 ⟨t₁, ht₁, ht'⟩, hR'⟩

theorem forM_each {f : α → Except ε Unit} {l : List α} {u : Unit} (h : l.forM f = .ok u) {a : α}
    (ha : a ∈ l) : f a = .ok () := by
  induction l with
  | nil => cases ha
  | cons b l ih =>
    obtain ⟨_, hb, hl⟩ := bind_ok.1 h
    rcases List.mem_cons.1 ha with rfl | ha
    · exact hb
    · exact ih hl ha

theorem mapM_cons_ok {f : α → Except ε β} {a : α} {l : List α} {l' : List β} :
    (a :: l).mapM f = .ok l' ↔ ∃ b l'', f a = .ok b ∧ l.mapM f = .ok l'' ∧ l' = b :: l'' := by
  rw [List.mapM_cons]
  constructor
  · intro h
    obtain ⟨b, hb, h⟩ := bind_ok.1 h
    obtain ⟨l'', hl, h⟩ := bind_ok.1 h
    cases h
    exact ⟨b, l'', hb, hl, rfl⟩
  · rintro ⟨b, l'', hb, hl, rfl⟩
    exact bind_ok.2 ⟨b, hb, bind_ok.2 ⟨l'', hl, rfl⟩⟩

theorem mapM_map_ok {γ : Type} {f : α → Except ε β} {g : β → γ} {l : List α} {l' : List β}
    (h : l.mapM f = .ok l') : l.mapM (fun a => (f a).map g) = .ok (l'.map g) := by
  induction l generalizing l' with
  | nil =>
    cases h
    rfl
  | cons a l ih =>
    obtain ⟨b, l'', hb, hl, rfl⟩ := mapM_cons_ok.1 h
    exact mapM_cons_ok.2 ⟨g b, l''.map g, map_ok.2 ⟨b, hb, rfl⟩, ih hl, rfl⟩

/-- The results give the inputs back. -/
theorem mapM_inverse {f : α → Except ε β} {g : β → α} (hf : ∀ a b, f a = .ok b → g b = a)
    {l : List α} {l' : List β} (h : l.mapM f = .ok l') : l'.map g = l := by
  induction l generalizing l' with
  | nil =>
    cases h
    rfl
  | cons a l ih =>
    obtain ⟨b, l'', hb, hl, rfl⟩ := mapM_cons_ok.1 h
    rw [List.map_cons, hf a b hb, ih hl]

/-- What gives the inputs is found from them. -/
theorem mapM_back {f : α → Except ε β} {g : β → α} {l : List β}
    (hf : ∀ b ∈ l, f (g b) = .ok b) : (l.map g).mapM f = .ok l := by
  induction l with
  | nil => rfl
  | cons b l ih =>
    exact mapM_cons_ok.2 ⟨b, l, hf b List.mem_cons_self,
      ih fun b' hb' => hf b' (List.mem_cons_of_mem b hb'), rfl⟩

theorem mapM_mem {f : α → Except ε β} {l : List α} {l' : List β} (h : l.mapM f = .ok l') {b : β}
    (hb : b ∈ l') : ∃ a ∈ l, f a = .ok b := by
  induction l generalizing l' with
  | nil =>
    cases h
    cases hb
  | cons a l ih =>
    obtain ⟨b', l'', hb', hl, rfl⟩ := mapM_cons_ok.1 h
    rcases List.mem_cons.1 hb with rfl | hb
    · exact ⟨a, List.mem_cons_self, hb'⟩
    · obtain ⟨c, hc, hfc⟩ := ih hl hb
      exact ⟨c, List.mem_cons_of_mem a hc, hfc⟩

theorem mapM_each {f : α → Except ε β} {l : List α} {l' : List β} (h : l.mapM f = .ok l') {a : α}
    (ha : a ∈ l) : ∃ b, f a = .ok b := by
  induction l generalizing l' with
  | nil => cases ha
  | cons c l ih =>
    obtain ⟨b, l'', hb, hl, rfl⟩ := mapM_cons_ok.1 h
    rcases List.mem_cons.1 ha with rfl | ha
    · exact ⟨b, hb⟩
    · exact ih hl ha

end WeNode.Lib

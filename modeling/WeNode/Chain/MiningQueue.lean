import Mathlib
import WeNode.Chain.BlockSteps
import WeNode.Chain.CoreBlocks
import WeNode.Chain.Duplicates
import WeNode.Lib.TicketQueue

/-!
# The queue of the miners

The queue is implicit in `pow_worker`, drawn from `total_pow`, and `num_pow_witnesses` counts it.
`total_pow` starts at its greatest value, so that the first number drawn is zero, the one of a
witness that does not wait: the first proof of work is counted and its worker never queued.
-/

set_option mvcgen.warning false

namespace WeNode.Chain

open WeNode.Lib Std.Do

/-- `line` waits in the queue, with tickets up to `last`; `extra` are counted beyond it. -/
structure Mining.Line (m : Mining) (last extra : Nat) (line : List (Name × Nat)) : Prop where
  names : (m.workers.map (·.1)).Nodup
  inLine : InLine m.workers last line
  count : m.count = (line.length + extra) % two32

/-- The worker of a proof of work is counted and draws the next number. -/
structure Mining.Enters (m m' : Mining) (name : Name) : Prop where
  totalPow : m'.totalPow = (m.totalPow + 1) % two64
  count : m'.count = (m.count + 1) % two32
  takes : Takes name m'.totalPow m.workers m'.workers

/-- What the queue is after the proofs of work of `works`, since the genesis. -/
structure Mining.After (m : Mining) (works : List Name) (line : List (Name × Nat)) : Prop where
  totalPow : m.totalPow = (two64 - 1 + works.length) % two64
  line : m.Line (works.length - 1) (min works.length 1) line

theorem draw_number {k : Nat} (h : k < two64) : ((two64 - 1 + k) % two64 + 1) % two64 = k := by
  unfold two64 at h ⊢
  omega

theorem count_one {k : Nat} : (k % two32 + 1) % two32 = (k + 1) % two32 := by
  unfold two32
  omega

namespace Mining

variable {m m' : Mining} {works : List Name} {line : List (Name × Nat)} {name : Name}

/-- Nobody waits before the first proof of work. -/
theorem After.line_nil (h : m.After [] line) : line = [] := by
  rw [List.eq_nil_iff_forall_not_mem]
  intro x hx
  have hle : x.2 ≤ 0 := h.line.inLine.le_last x hx
  exact Nat.not_lt_of_le hle (h.line.inLine.pos hx)

/-- A proof of work lets its worker in, unless it is the first of all. -/
theorem After.enter (h : m.After works line) (hfew : works.length < two64)
    (he : m.Enters m' name) :
    ∃ line', m'.After (works ++ [name]) line' ∧
      line'.map (·.1) <:+ line.map (·.1) ++ [name] := by
  have htotal : m'.totalPow = works.length := by
    rw [he.totalPow, h.totalPow, draw_number hfew]
  have htotal' : m'.totalPow = (two64 - 1 + (works ++ [name]).length) % two64 := by
    rw [htotal, List.length_append, List.length_singleton]
    unfold two64 at hfew ⊢
    omega
  have hnames := he.takes.nodup h.line.names
  have hcount := he.count
  rw [h.line.count, count_one] at hcount
  have htakes := he.takes
  rw [htotal] at htakes
  by_cases hfirst : works = []
  · subst hfirst
    obtain rfl := h.line_nil
    exact ⟨[], ⟨htotal', hnames, h.line.inLine.pass htakes, hcount⟩, List.nil_suffix⟩
  · have hlength : works.length = (works.length - 1) + 1 := by
      have hpos := List.length_pos_iff.2 hfirst
      omega
    have hline : InLine m'.workers (works.length - 1 + 1) (line ++ [(name, works.length - 1 + 1)]) :=
      h.line.inLine.enter (hlength ▸ htakes)
    rw [← hlength] at hline
    refine ⟨line ++ [(name, works.length)], ⟨htotal', hnames, ?_, ?_⟩, ?_⟩
    · rw [List.length_append, List.length_singleton]
      exact hline
    · have hextra : line.length + min works.length 1 + 1 =
          line.length + 1 + min (works.length + 1) 1 := by omega
      rw [hcount, hextra]
      simp only [List.length_append, List.length_singleton]
    · rw [List.map_append]
      exact List.suffix_refl _

end Mining

namespace Database

variable {d d' : Database} {name : Name}

/-! ### Into the queue -/

/-- A change of a witness that was found gives it the number `n`. -/
theorem modifyWitness_place {f : Witness → Result Witness} {w : Witness} {n : Nat}
    (hw : d.findWitness name = some w) (hf : ∀ y, f w = .ok y → y.worker = (name, n))
    (h : d.modifyWitness name f = .ok d') :
    ∃ pre post, d.core.mining.workers = pre ++ (name, w.powWorker) :: post ∧
      d'.core.mining = { d.core.mining with workers := pre ++ (name, n) :: post } := by
  unfold modifyWitness at h
  obtain ⟨t, ht, rfl⟩ := of_modify h
  obtain ⟨x, y, hxy, hrep, -⟩ := Table.modify_ok ht
  have hxw : x = w := Option.some.inj (hrep.find_eq.symm.trans hw)
  have howner : w.owner = name := by simpa using List.find?_some hw
  obtain ⟨pre, post, hl, hl', -⟩ := hrep.split
  refine ⟨pre.map Witness.worker, post.map Witness.worker, ?_, ?_⟩
  · simp only [core, hl, hxw, List.map_append, List.map_cons]
    rw [← howner]
    rfl
  · simp only [core, hl', List.map_append, List.map_cons, hf y (hxw ▸ hxy)]

theorem createWitness_place {f : Witness → Witness} {n : Nat}
    (hf : ∀ id, (f { id := id, owner := name }).worker = (name, n))
    (h : d.createWitness name f = .ok d') :
    d'.core.mining = { d.core.mining with workers := d'.core.mining.workers } ∧
      Takes name n d.core.mining.workers d'.core.mining.workers := by
  obtain ⟨hnone, rfl⟩ := createWitness_ok h
  refine ⟨rfl, ?_⟩
  have hnew : name ∉ (d.witnesses.rows.map Witness.worker).map (·.1) := by
    intro hmem
    rw [List.map_map] at hmem
    obtain ⟨w, hw, hname⟩ := List.mem_map.1 hmem
    exact hnone w hw hname
  simp only [core, Table.create, List.map_append, List.map_singleton, hf]
  exact .first hnew

end Database

section

open Database

variable {d d' : Database} {name : Name}

theorem enqueueWorker_takes {key : PublicKey} {props : ChainProperties} {work : Hash}
    (h : enqueueWorker d name key props work = .ok d') :
    d'.core.mining = { d.core.mining with workers := d'.core.mining.workers } ∧
      Takes name d.core.mining.totalPow d.core.mining.workers d'.core.mining.workers := by
  unfold enqueueWorker at h
  cases hw : d.findWitness name with
  | none =>
    rw [hw] at h
    exact createWitness_place (fun _ => rfl) h
  | some w =>
    rw [hw] at h
    obtain ⟨_, hzero, h⟩ := bind_ok.1 h
    have howner : w.owner = name := by simpa using List.find?_some hw
    obtain ⟨pre, post, hl, hl'⟩ := modifyWitness_place (n := d.core.mining.totalPow) hw
      (fun y hy => by cases hy; rw [← howner]; rfl) h
    rw [require_ok hzero] at hl
    rw [hl', hl]
    exact ⟨rfl, .again pre post⟩

/-- A worker that draws its number after its work was counted. -/
theorem Mining.Enters.of_countPow {m : Mining} {name : Name}
    (hsame : m = { (countPow d).core.mining with workers := m.workers })
    (htakes : Takes name (countPow d).core.mining.totalPow (countPow d).core.mining.workers
      m.workers) : d.core.mining.Enters m name := by
  constructor
  · rw [hsame]
    rfl
  · rw [hsame]
    rfl
  · rw [hsame]
    exact htakes

theorem PowOperation.apply_spec {o : PowOperation} {w : Name} :
    ⦃⌜True⌝⦄ o.apply d w
      ⦃⇓? d' => ⌜∃ d₁ d₂ d₃, enqueueWorker d₂ o.workerAccount o.worker o.props o.work = .ok d₃ ∧
        d₂ = countPow d₁ ∧ d₁.core.mining = d.core.mining ∧
        d'.core.mining = d₃.core.mining⌝⦄ := by
  have he : ∀ (d : Database) name key props work, ⦃⌜True⌝⦄ enqueueWorker d name key props work
      ⦃⇓? d' => ⌜enqueueWorker d name key props work = .ok d'⌝⦄ := fun _ _ _ _ _ => triple_ok
  mvcgen [PowOperation.apply, createWorker_core, he, payPow_core]
  all_goals
    intro hpaid
    exact ⟨_, _, _, ‹enqueueWorker _ _ _ _ _ = _›, rfl, by grind, by rw [hpaid]⟩

theorem PowOperation.apply_enters {o : PowOperation} {w : Name} (h : o.apply d w = .ok d') :
    d.core.mining.Enters d'.core.mining o.workerAccount := by
  obtain ⟨d₁, d₂, d₃, he, rfl, hd₁, hd'⟩ := of_triple PowOperation.apply_spec trivial h
  obtain ⟨hsame, htakes⟩ := enqueueWorker_takes he
  rw [hd', ← hd₁]
  exact .of_countPow hsame htakes

theorem Pow2Operation.enqueue_takes {o : Pow2Operation} (h : o.enqueue d = .ok d') :
    d'.core.mining = { d.core.mining with workers := d'.core.mining.workers } ∧
      Takes o.work.workerAccount d.core.mining.totalPow d.core.mining.workers
        d'.core.mining.workers := by
  dsimp only [Pow2Operation.enqueue] at h
  split at h
  · split at h
    · cases h
    · obtain ⟨d₁, h₁, h⟩ := bind_ok.1 h
      have hcore := of_triple createWorker_core trivial h₁
      have hmining : d₁.core.mining = d.core.mining := by rw [hcore]
      rw [← hmining]
      exact createWitness_place (fun _ => rfl) h
  · obtain ⟨_, -, h⟩ := bind_ok.1 h
    split at h
    · cases h
    · next w hw =>
      obtain ⟨_, hzero, h⟩ := bind_ok.1 h
      have howner : w.owner = o.work.workerAccount := by simpa using List.find?_some hw
      obtain ⟨pre, post, hl, hl'⟩ := modifyWitness_place (n := d.core.mining.totalPow) hw
        (fun y hy => by cases hy; rw [← howner]; rfl) h
      rw [require_ok hzero] at hl
      rw [hl', hl]
      exact ⟨rfl, .again pre post⟩

theorem Pow2Operation.apply_spec {o : Pow2Operation} {w : Name} :
    ⦃⌜True⌝⦄ o.apply d w
      ⦃⇓? d' => ⌜∃ d₁, o.enqueue (countPow d) = .ok d₁ ∧ d'.core.mining = d₁.core.mining⌝⦄ := by
  have he : ∀ d : Database, ⦃⌜True⌝⦄ o.enqueue d ⦃⇓? d' => ⌜o.enqueue d = .ok d'⌝⦄ :=
    fun _ => triple_ok
  mvcgen [Pow2Operation.apply, he, adjustSupply_core, createTMEfundForSCORE_core]
  all_goals
    exact ⟨_, ‹_›, by grind⟩

theorem Pow2Operation.apply_enters {o : Pow2Operation} {w : Name} (h : o.apply d w = .ok d') :
    d.core.mining.Enters d'.core.mining o.work.workerAccount := by
  obtain ⟨d₁, he, hd'⟩ := of_triple Pow2Operation.apply_spec trivial h
  obtain ⟨hsame, htakes⟩ := Pow2Operation.enqueue_takes he
  rw [hd']
  exact .of_countPow hsame htakes

/-- A witness that a witness makes of itself does not wait. -/
theorem WitnessUpdateOperation.apply_takes {o : WitnessUpdateOperation} (h : o.apply d = .ok d') :
    d'.core.mining = d.core.mining ∨
      d'.core.mining = { d.core.mining with workers := d'.core.mining.workers } ∧
        Takes o.owner 0 d.core.mining.workers d'.core.mining.workers := by
  have hm : ∀ (d : Database) name key props, ⦃⌜True⌝⦄
      d.modifyWitness name (fun w => .ok { w with signingKey := key, props := props })
      ⦃⇓? d' => ⌜d'.core = { d.core with witnesses := d'.core.witnesses }⌝⦄ :=
    fun _ _ _ _ => modifyWitness_keys fun w => by mvcgen
  have hc : ∀ f : Witness → Witness, (∀ id, (f { id := id, owner := o.owner }).worker =
      (o.owner, 0)) → ⦃⌜True⌝⦄ d.createWitness o.owner f
      ⦃⇓? d' => ⌜d'.core.mining = { d.core.mining with workers := d'.core.mining.workers } ∧
        Takes o.owner 0 d.core.mining.workers d'.core.mining.workers⌝⦄ :=
    fun f hf => triple_of fun _ _ h => createWitness_place hf h
  refine of_triple (P := fun d' => d'.core.mining = d.core.mining ∨
      d'.core.mining = { d.core.mining with workers := d'.core.mining.workers } ∧
        Takes o.owner 0 d.core.mining.workers d'.core.mining.workers) ?_ trivial h
  mvcgen [WitnessUpdateOperation.apply, hm, hc]
  all_goals grind [Witness.worker]

end

/- The worker of a proof of work. -/
def Operation.worker : Operation → Option Name
  | .pow op => some op.workerAccount
  | .pow2 op => some op.work.workerAccount
  | _ => none

/- Between two databases the workers of `new` come into the queue and others leave at the front. -/
def Mined (d d' : Database) (new : List Name) : Prop :=
  ∀ works line, (works ++ new).length ≤ two64 → d.core.mining.After works line →
    ∃ line', d'.core.mining.After (works ++ new) line' ∧ line'.map (·.1) <:+ line.map (·.1) ++ new

namespace Mined

variable {d d₁ d' : Database} {new new' : List Name}

theorem of_eq (h : d'.core.mining = d.core.mining) : Mined d d' [] := by
  intro works line _ hd
  rw [List.append_nil, List.append_nil, h]
  exact ⟨line, hd, List.suffix_refl _⟩

theorem trans (h : Mined d d₁ new) (h' : Mined d₁ d' new') : Mined d d' (new ++ new') := by
  intro works line hfew hd
  rw [← List.append_assoc] at hfew ⊢
  have hfirst : (works ++ new).length ≤ two64 := by
    rw [List.length_append] at hfew
    omega
  obtain ⟨line₁, hd₁, hline₁⟩ := h works line hfirst hd
  obtain ⟨line', hd', hline'⟩ := h' (works ++ new) line₁ hfew hd₁
  refine ⟨line', hd', hline'.trans ?_⟩
  obtain ⟨left, hleft⟩ := hline₁
  exact ⟨left, by rw [← List.append_assoc, hleft, List.append_assoc]⟩

/-- The steps of a run, each with its own workers. -/
theorem run {α σ : Type} (db : σ → Database) {step : σ → α → Result σ} {workers : α → List Name}
    {s s' : σ} {l : List α} (h : l.foldlM step s = .ok s')
    (hstep : ∀ s a s', step s a = .ok s' → Mined (db s) (db s') (workers a)) :
    Mined (db s) (db s') (l.flatMap workers) := by
  refine run_induction (P := fun done t => Mined (db s) (db t) (done.flatMap workers)) h
    (of_eq rfl) ?_
  intro done t a t' ht _ ha
  rw [List.flatMap_append, List.flatMap_singleton]
  exact ht.trans (hstep t a t' ha)

end Mined

namespace Database

variable {d d' : Database} {works : List Name} {line : List (Name × Nat)}

theorem applyOperation_mined {w : Name} {o : Operation} (h : applyOperation w d o = .ok d') :
    Mined d d' o.worker.toList := by
  have hcore := of_triple applyOperation_core trivial h
  intro works line hfew hd
  cases o with
  | pow op =>
    have hlt : works.length < two64 := by simpa [Operation.worker] using hfew
    exact hd.enter hlt (PowOperation.apply_enters h)
  | pow2 op =>
    have hlt : works.length < two64 := by simpa [Operation.worker] using hfew
    exact hd.enter hlt (Pow2Operation.apply_enters h)
  | witnessUpdate op =>
    rcases WitnessUpdateOperation.apply_takes h with hsame | ⟨hsame, htakes⟩
    · exact Mined.of_eq hsame works line hfew hd
    · simp only [Operation.worker, Option.toList_none, List.append_nil]
      refine ⟨line, ⟨?_, htakes.nodup hd.line.names, hd.line.inLine.pass htakes, ?_⟩,
        List.suffix_refl _⟩
      · rw [hsame]
        exact hd.totalPow
      · rw [hsame]
        exact hd.line.count
  | _ =>
    have hsame : d'.core.mining = d.core.mining := by rw [hcore]; rfl
    exact Mined.of_eq hsame works line hfew hd

/-! ### Out of the queue -/

variable {last extra : Nat}

theorem decrement_mod (k : Nat) : decrement 32 ((k + 1) % two32) = k % two32 := by
  unfold decrement two32
  split <;> omega

/-- The first in the queue leaves it. -/
theorem popMiner_line {a : Name × Nat} (hd : d.core.mining.Line last extra (a :: line))
    (h : d.popMiner a.1 = .ok d') :
    d'.core.mining.Line last extra line ∧
      d'.core.mining.totalPow = d.core.mining.totalPow := by
  obtain ⟨d₁, h₁, h⟩ := bind_ok.1 h
  cases h
  obtain ⟨name, n⟩ := a
  have hfound : ∃ w, d.findWitness name = some w := by
    unfold modifyWitness at h₁
    obtain ⟨t, ht, -⟩ := of_modify h₁
    obtain ⟨x, _, -, hrep, -⟩ := Table.modify_ok ht
    exact ⟨x, hrep.find_eq⟩
  obtain ⟨w, hw⟩ := hfound
  have howner : w.owner = name := by simpa using List.find?_some hw
  obtain ⟨pre, post, hl, hl'⟩ := modifyWitness_place (n := 0) hw
    (fun y hy => by cases hy; rw [← howner]; rfl) h₁
  -- the ticket of the witness found is the lowest
  have hticket : w.powWorker = n := by
    have hmem := hd.inLine.mem List.mem_cons_self
    have hmem' : (name, w.powWorker) ∈ d.core.mining.workers := by
      rw [hl]
      exact List.mem_append_right _ List.mem_cons_self
    exact congrArg Prod.snd (List.inj_on_of_nodup_map hd.names hmem' hmem rfl)
  rw [hticket] at hl
  have hnames := hd.names
  have hline := hd.inLine
  rw [hl] at hnames hline
  have hcount : d₁.core.mining.count = d.core.mining.count := by rw [hl']
  refine ⟨⟨?_, ?_, ?_⟩, ?_⟩
  · show (d₁.core.mining.workers.map (·.1)).Nodup
    rw [hl']
    simpa using hnames
  · show InLine d₁.core.mining.workers last line
    rw [hl']
    exact hline.serve
  · show decrement 32 d₁.core.mining.count = (line.length + extra) % two32
    rw [hcount, hd.count, List.length_cons, Nat.add_right_comm, decrement_mod]
  · show d₁.core.mining.totalPow = d.core.mining.totalPow
    rw [hl']

/-- The miners selected leave from the front. -/
theorem selectMiners_line {voted queue miners : List Witness} {r : Database × List Witness}
    (hd : d.core.mining.Line last extra (queue.map Witness.worker))
    (h : selectMiners voted queue d miners = .ok r) :
    ∃ j, r.1.core.mining.Line last extra ((queue.map Witness.worker).drop j) ∧
      r.1.core.mining.totalPow = d.core.mining.totalPow := by
  induction queue generalizing d miners with
  | nil =>
    cases h
    exact ⟨0, hd, rfl⟩
  | cons m queue ih =>
    have hpop {d₁ d₂ : Database} {miners : List Witness} (h₁ : d₁.core.mining = d.core.mining)
        (h₂ : d₁.popMiner m.owner = .ok d₂) (h : selectMiners voted queue d₂ miners = .ok r) :
        ∃ j, r.1.core.mining.Line last extra (((m :: queue).map Witness.worker).drop j) ∧
          r.1.core.mining.totalPow = d.core.mining.totalPow := by
      rw [← h₁] at hd ⊢
      obtain ⟨hline, htotal⟩ := popMiner_line (a := m.worker) hd h₂
      obtain ⟨j, hj, htotal'⟩ := ih hline h
      exact ⟨j + 1, hj, htotal'.trans htotal⟩
    unfold selectMiners at h
    split at h
    · split at h
      · obtain ⟨d₁, h₁, h⟩ := bind_ok.1 h
        obtain ⟨d₂, h₂, h⟩ := bind_ok.1 h
        have hcore := of_triple setSchedule_core trivial h₁
        exact hpop (by rw [hcore]) h₂ h
      · obtain ⟨d₂, h₂, h⟩ := bind_ok.1 h
        exact hpop rfl h₂ h
    · cases h
      exact ⟨0, hd, rfl⟩

theorem sortOn_sorted {α : Type} (first second : α → Nat) (l : List α) :
    (sortOn first second l).Pairwise fun a b => first a ≤ first b := by
  have htotal : Std.Total fun a b =>
      first a < first b ∨ first a = first b ∧ second a ≤ second b := ⟨fun a b => by omega⟩
  have htrans : IsTrans α fun a b =>
      first a < first b ∨ first a = first b ∧ second a ≤ second b := ⟨fun a b c => by omega⟩
  refine (List.pairwise_insertionSort _ l).imp fun h => ?_
  omega

/-- `by_pow` is the line. -/
theorem byPow_line (hd : d.core.mining.Line last extra line) :
    d.byPow.map Witness.worker = line := by
  refine hd.inLine.eq_of_sorted ?_ ?_
  · have hperm := (List.perm_insertionSort (fun a b : Witness => a.powWorker < b.powWorker ∨
      a.powWorker = b.powWorker ∧ a.id ≤ b.id)
      (d.witnesses.rows.filter fun w => decide (0 < w.powWorker))).map Witness.worker
    refine hperm.trans (List.Perm.of_eq ?_)
    simp only [core, List.filter_map]
    rfl
  · rw [List.pairwise_map]
    exact sortOn_sorted _ _ _

theorem updateWitnessSchedule4_spec {versions : Name → WitnessVersion} :
    ⦃⌜True⌝⦄ d.updateWitnessSchedule4 versions
      ⦃⇓? d' => ⌜∃ d₁ voted r, selectMiners voted d₁.byPow d₁ [] = .ok r ∧
        d₁.core.mining = d.core.mining ∧ d'.core.mining = r.1.core.mining⌝⦄ := by
  have hs : ∀ voted queue (d : Database) miners, ⦃⌜True⌝⦄ selectMiners voted queue d miners
      ⦃⇓? r => ⌜selectMiners voted queue d miners = .ok r⌝⦄ := fun _ _ _ _ => triple_ok
  mvcgen [updateWitnessSchedule4, setSchedule_core, hs, advanceSchedule_core, tallyVersions_core,
    updateMedianWitnessProps_core]
  all_goals
    intro hd
    refine ⟨_, _, _, ‹selectMiners _ _ _ _ = _›, by grind, ?_⟩
    rw [hd]
    grind [core]

theorem updateWitnessScheduleHF0_spec :
    ⦃⌜True⌝⦄ d.updateWitnessScheduleHF0
      ⦃⇓? d' => ⌜∃ d₁ d₂ : Database,
        (d₂ = d₁ ∨ ∃ m, d₁.byPow.head? = some m ∧ d₁.popMiner m.owner = .ok d₂) ∧
        d₁.core.mining = d.core.mining ∧ d'.core.mining = d₂.core.mining⌝⦄ := by
  have hp : ∀ (d : Database) name, ⦃⌜True⌝⦄ d.popMiner name
      ⦃⇓? d' => ⌜d.popMiner name = .ok d'⌝⦄ := fun _ _ => triple_ok
  mvcgen [updateWitnessScheduleHF0, electHF0_core, hp, updateMedianWitnessProps_core]
  all_goals
    intro hd
    first
      | exact ⟨_, _, .inr ⟨_, ‹List.head? _ = _›, ‹popMiner _ _ = _›⟩, by grind, by rw [hd]; rfl⟩
      | exact ⟨d, d, .inl rfl, rfl, by rw [hd]; grind [core]⟩

/-- In a round miners leave the queue from its front, or none. -/
theorem updateWitnessSchedule_line {versions : Name → WitnessVersion}
    (hd : d.core.mining.Line last extra line) (h : d.updateWitnessSchedule versions = .ok d') :
    ∃ j, d'.core.mining.Line last extra (line.drop j) ∧
      d'.core.mining.totalPow = d.core.mining.totalPow := by
  unfold updateWitnessSchedule at h
  split at h
  · split at h
    · obtain ⟨d₁, voted, r, hsel, h₁, h'⟩ := of_triple updateWitnessSchedule4_spec trivial h
      rw [h', ← h₁]
      rw [← h₁] at hd
      have hline := byPow_line hd
      rw [← hline] at hd ⊢
      exact selectMiners_line hd hsel
    · obtain ⟨d₁, d₂, hpop, h₁, h'⟩ := of_triple updateWitnessScheduleHF0_spec trivial h
      rw [h', ← h₁]
      rw [← h₁] at hd
      rcases hpop with rfl | ⟨m, hm, hpop⟩
      · exact ⟨0, hd, rfl⟩
      · have hline := byPow_line hd
        rw [← hline] at hd ⊢
        obtain ⟨rest, hrest⟩ := List.head?_eq_some_iff.1 hm
        rw [hrest] at hd ⊢
        exact ⟨1, popMiner_line (a := m.worker) hd hpop⟩
  · cases h
    exact ⟨0, hd, rfl⟩

theorem endBlock_mining {w : Name} {versions : Name → WitnessVersion} :
    ⦃⌜True⌝⦄ d.endBlock w versions
      ⦃⇓? d' => ⌜∃ d₁ d₂ : Database, d₁.updateWitnessSchedule versions = .ok d₂ ∧
        d₁.core.mining = d.core.mining ∧ d'.core.mining = d₂.core.mining⌝⦄ := by
  have hu : ∀ d : Database, ⦃⌜True⌝⦄ d.updateWitnessSchedule versions
      ⦃⇓? d' => ⌜d.updateWitnessSchedule versions = .ok d'⌝⦄ := fun _ => triple_ok
  mvcgen [endBlock, clearExpiredOrders_core, clearExpiredDelegations_core, hu, settle_core,
    processHardforks_core]
  all_goals
    intro hd
    exact ⟨_, _, ‹updateWitnessSchedule _ _ = _›, by grind, by grind⟩

theorem updateWitnessSchedule_mined {versions : Name → WitnessVersion}
    (h : d.updateWitnessSchedule versions = .ok d') : Mined d d' [] := by
  intro works line _ hd
  rw [List.append_nil, List.append_nil]
  obtain ⟨j, hline, htotal⟩ := updateWitnessSchedule_line hd.line h
  refine ⟨line.drop j, ⟨htotal.trans hd.totalPow, hline⟩, ?_⟩
  rw [List.map_drop]
  exact List.drop_suffix j _

/- The number of witnesses with a number is the one counted. -/
def PowCounted (d : Database) : Prop :=
  d.gpo.numPowWitnesses = (d.witnesses.rows.filter fun w => w.powWorker ≠ 0).length

/- No two witnesses have the same number, unless it is zero. -/
def PowDistinct (d : Database) : Prop :=
  ((d.witnesses.rows.filter fun w => w.powWorker ≠ 0).map (·.powWorker)).Nodup

/- The owners of the witnesses in the queue, as `by_pow` orders them. -/
def miningQueue (d : Database) : List Name := d.byPow.map (·.owner)

theorem filter_worker (d : Database) :
    d.core.mining.workers.filter (fun h => decide (0 < h.2)) =
      (d.witnesses.rows.filter fun w => w.powWorker ≠ 0).map Witness.worker := by
  simp only [core, List.filter_map]
  refine congrArg (List.map Witness.worker) (List.filter_congr fun w _ => ?_)
  exact decide_eq_decide.2 Nat.pos_iff_ne_zero

theorem miningQueue_line (hd : d.core.mining.Line last extra line) :
    d.miningQueue = line.map (·.1) := by
  rw [← byPow_line hd, List.map_map]
  rfl

theorem PowDistinct.of_line (hd : d.core.mining.Line last extra line) : d.PowDistinct := by
  have hnodup := hd.inLine.tickets_nodup
  rw [filter_worker, List.map_map] at hnodup
  exact hnodup

/-- With the first proof of work the count is one ahead. -/
theorem powCounted_iff (hd : d.core.mining.After works line) : d.PowCounted ↔ works = [] := by
  have hlength : line.length = (d.witnesses.rows.filter fun w => w.powWorker ≠ 0).length := by
    rw [hd.line.inLine.length_eq, filter_worker, List.length_map]
  have hcount : d.gpo.numPowWitnesses = (line.length + min works.length 1) % two32 :=
    hd.line.count
  unfold PowCounted
  rw [← hlength, hcount]
  constructor
  · intro h
    by_contra hworks
    have hpos := List.length_pos_iff.2 hworks
    have hone : min works.length 1 = 1 := by omega
    rw [hone] at h
    unfold two32 at h
    omega
  · rintro rfl
    rw [hd.line_nil]
    rfl

end Database

/- The workers of the proofs of work of a transaction, of a block and of a run. -/
def Transaction.workers (t : Transaction) : List Name :=
  t.operations.flatMap fun o => o.worker.toList

def Block.workers (b : Block) : List Name := b.transactions.flatMap Transaction.workers

def workers (l : List (Skip × Block)) : List Name := l.flatMap fun x => x.2.workers

namespace ChainState

variable {env : Env} {skip : Skip} {s s' : ChainState} {b : Block} {t : Transaction}

theorem applyTransaction_mined (h : s.applyTransaction env skip t = .ok s') :
    Mined s.db s'.db t.workers := by
  obtain ⟨-, d, hd, rfl⟩ := applyTransaction_ok.1 h
  exact Mined.run id hd fun _ _ _ ho => Database.applyOperation_mined ho

theorem finishBlock_mined (h : s.finishBlock env skip b = .ok s') : Mined s.db s'.db [] := by
  obtain ⟨d₁, d₂, d₃, d₄, h₁, h₂, h₃, h₄, rfl⟩ := finishBlock_ok.1 h
  have hcore₁ := of_triple Database.updateGlobalDynamicData_core trivial h₁
  have hcore₂ := of_triple Database.updateSigningWitness_core trivial h₂
  have hcore₃ := of_triple Database.updateLastIrreversibleBlock_core trivial h₃
  obtain ⟨d₅, d₆, hround, h₅, h₆⟩ := of_triple Database.endBlock_mining trivial h₄
  have hbefore : d₅.core.mining = s.db.core.mining := by
    rw [h₅, Database.core_createBlockSummary, hcore₃, hcore₂, hcore₁]
  have hmoved := (Mined.of_eq hbefore).trans (Database.updateWitnessSchedule_mined hround)
  exact hmoved.trans (Mined.of_eq h₆)

theorem applyBlock_mined (h : s.applyBlock env skip b = .ok s') :
    Mined s.db s'.db b.workers := by
  obtain ⟨s₁, s₂, hstart, htransactions, hfinish⟩ := applyBlock_ok.1 h
  have hmined := Mined.run ChainState.db htransactions fun _ _ _ ht => applyTransaction_mined ht
  rw [(startBlock_keeps hstart).1] at hmined
  have hblock := hmined.trans (finishBlock_mined hfinish)
  rwa [List.append_nil] at hblock

theorem applyEach_mined {l : List (Skip × Block)} (h : s.applyEach env l = .ok s') :
    Mined s.db s'.db (workers l) :=
  Mined.run ChainState.db h fun _ _ _ hb => applyBlock_mined hb

theorem initGenesis_after (supply : Int) :
    (initGenesis supply).db.core.mining.After [] [] := by
  have hsame : (initGenesis supply).db.core.mining = (initGenesis 0).db.core.mining := rfl
  rw [hsame]
  refine ⟨rfl, ?_, InLine.nil ?_, rfl⟩
  · decide +kernel
  · decide +kernel

/-- In a run the queue counts its miners, numbers them apart and gives them back in the order in
which they came. -/
structure QueueKept (env : Env) (s₀ : ChainState) (l : List (Skip × Block)) (s : ChainState) :
    Prop where
  counted : s.db.PowCounted
  distinct : s.db.PowDistinct
  inOrder : ∀ before after s₁, l = before ++ after → s₀.applyEach env before = .ok s₁ →
    s.db.miningQueue <:+ s₁.db.miningQueue ++ workers after

/-- The count is right as long as no proof of work was made; the numbers and the order are right in
any case. -/
theorem queue_kept_iff {supply : Int} {l : List (Skip × Block)}
    (h : (initGenesis supply).applyEach env l = .ok s) (hfew : (workers l).length ≤ two64) :
    (QueueKept env (initGenesis supply) l s ↔ workers l = []) ∧ s.db.PowDistinct ∧
      ∀ before after s₁, l = before ++ after →
        (initGenesis supply).applyEach env before = .ok s₁ →
        s.db.miningQueue <:+ s₁.db.miningQueue ++ workers after := by
  obtain ⟨line, hafter, -⟩ := applyEach_mined h [] [] hfew (initGenesis_after supply)
  have hdistinct := Database.PowDistinct.of_line hafter.line
  have hcounted := Database.powCounted_iff hafter
  have horder : ∀ before after s₁, l = before ++ after →
      (initGenesis supply).applyEach env before = .ok s₁ →
      s.db.miningQueue <:+ s₁.db.miningQueue ++ workers after := by
    intro before after s₁ hl hbefore
    have hworkers : workers l = workers before ++ workers after := by
      rw [hl]
      exact List.flatMap_append
    obtain ⟨s₁', hbefore', hrest⟩ := run_append.1 (hl ▸ h)
    obtain rfl : s₁ = s₁' := Except.ok.inj (hbefore.symm.trans hbefore')
    rw [hworkers, List.length_append] at hfew
    obtain ⟨line₁, hafter₁, -⟩ := applyEach_mined hbefore [] []
      (by rw [List.nil_append]; omega) (initGenesis_after supply)
    obtain ⟨line', hafter', hline'⟩ := applyEach_mined hrest _ line₁
      (by rw [List.nil_append, List.length_append]; exact hfew) hafter₁
    rw [Database.miningQueue_line hafter'.line, Database.miningQueue_line hafter₁.line]
    exact hline'
  exact ⟨⟨fun hkept => hcounted.1 hkept.counted, fun hnone => ⟨hcounted.2 hnone, hdistinct, horder⟩⟩,
    hdistinct, horder⟩

end ChainState

theorem queue_kept_firstBlock :
    ∃ s, (ChainState.initGenesis initSupply).applyEach .plain [(.nothing, firstBlock)] = .ok s ∧
      ChainState.QueueKept .plain (ChainState.initGenesis initSupply)
        [(.nothing, firstBlock)] s := by
  obtain ⟨s, hs, -⟩ := map_ok.1 firstBlock_applied
  exact ⟨s, hs, (ChainState.queue_kept_iff hs (by decide)).1.2 rfl⟩

/- The first block, with a proof of work of the first witness. -/
def minedBlock : Block := { firstBlock with
  transactions := [{
    refBlockNum := 0
    refBlockPrefix := 0
    expiration := genesisTime + 60
    operations := [.pow {
      workerAccount := Database.genesisAccountName 0
      blockId := 0
      nonce := 0
      worker := initPublicKey
      input := 0
      work := 0
      props := {} }]
    signatures := [] }] }

/-- One witness is counted as waiting, and none waits. -/
theorem minedBlock_not_counted :
    ∃ s, (ChainState.initGenesis initSupply).applyEach .plain [(.nothing, minedBlock)] = .ok s ∧
      ¬ChainState.QueueKept .plain (ChainState.initGenesis initSupply)
        [(.nothing, minedBlock)] s := by
  have h : ((ChainState.initGenesis initSupply).applyEach .plain [(.nothing, minedBlock)]).map
      (fun s => (s.db.gpo.numPowWitnesses, s.db.witnesses.rows.all (·.powWorker == 0))) =
        .ok (1, true) := by
    decide +kernel
  obtain ⟨s, hs, hg⟩ := map_ok.1 h
  obtain ⟨hcount, hnone⟩ := Prod.mk.inj hg
  refine ⟨s, hs, fun hkept => ?_⟩
  have hempty : (s.db.witnesses.rows.filter fun w => w.powWorker ≠ 0) = [] := by
    rw [List.filter_eq_nil_iff]
    intro w hw
    have hzero := List.all_eq_true.1 hnone w hw
    simpa using hzero
  have hcounted : s.db.gpo.numPowWitnesses =
      (s.db.witnesses.rows.filter fun w => w.powWorker ≠ 0).length := hkept.counted
  rw [hcount, hempty] at hcounted
  exact absurd hcounted (by decide)

end WeNode.Chain

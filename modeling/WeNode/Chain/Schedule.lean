import WeNode.Chain.State

/-!
# Witness schedule

libraries/chain/witness_schedule.cpp.
-/

namespace WeNode.Chain

open WeNode.Lib

namespace Database

/- A witness at the start of its virtual schedule. -/
def resetWitness (w : Witness) : Result Witness := do
  let time ← u128Div virtualScheduleLapLength2 (u128 (w.votes + 1))
  return { w with virtualPosition := 0, virtualLastUpdate := 0, virtualScheduledTime := time }

/-- `reset_virtual_schedule_time` -/
def resetVirtualScheduleTime (d : Database) : Result Database := do
  let witnesses ← d.witnesses.rows.mapM resetWitness
  return { d with
    schedule := { d.schedule with currentVirtualTime := 0 }
    witnesses := { d.witnesses with rows := witnesses } }

/- The names scheduled, and their witnesses. -/
def scheduledNames (d : Database) : List Name :=
  d.schedule.currentShuffledWitnesses.take d.schedule.numScheduledWitnesses

def scheduledWitnesses (d : Database) : Result (List Witness) := d.scheduledNames.mapM d.getWitness

/- The witness in the middle of an order. -/
def medianOn (key : Witness → Int) (l : List Witness) : Result Witness :=
  found (l.insertionSort fun a b => key a ≤ key b)[l.length / 2]?

/-- `update_median_witness_props` -/
def updateMedianWitnessProps (d : Database) : Result Database := do
  let active ← d.scheduledWitnesses
  let fee := (← medianOn (·.props.accountCreationFee.amount) active).props.accountCreationFee
  let size := (← medianOn (·.props.maximumBlockSize) active).props.maximumBlockSize
  let rate := (← medianOn (·.props.tsdInterestRate) active).props.tsdInterestRate
  return { d with
    schedule := { d.schedule with medianProps := ⟨fee, size, rate⟩ }
    gpo := { d.gpo with maximumBlockSize := size, tsdInterestRate := rate } }

/-! ### Selection -/

/- The witnesses in the orders of `by_vote_name`, `by_pow` and `by_schedule_time`. -/
def byVoteName (d : Database) : List Witness :=
  d.witnesses.rows.insertionSort fun a b =>
    b.votes < a.votes ∨ a.votes = b.votes ∧ a.owner ≤ b.owner

def byPow (d : Database) : List Witness :=
  sortOn (·.powWorker) (·.id) (d.witnesses.rows.filter fun w => decide (0 < w.powWorker))

def byScheduleTime (d : Database) : List Witness :=
  sortOn (·.virtualScheduledTime) (·.id) d.witnesses.rows

/- Since hardfork 14 a witness needs a signing key to be scheduled. -/
def canProduce (d : Database) (w : Witness) : Bool := !(d.hasHardfork 14 && w.signingKey == 0)

def setSchedule (d : Database) (schedule : ScheduleType) (names : List Name) : Result Database :=
  names.foldlM (fun d name => d.modifyWitness name fun w => .ok { w with schedule := schedule }) d

def uncountPow (d : Database) : Database :=
  { d with gpo := { d.gpo with numPowWitnesses := decrement 32 d.gpo.numPowWitnesses } }

/- The miner leaves the queue. -/
def popMiner (d : Database) (name : Name) : Result Database := do
  let d ← d.modifyWitness name fun w => .ok { w with powWorker := 0 }
  return d.uncountPow

/- Miners from the top of the queue, skipping those already elected or without a key. -/
def selectMiners (voted : List Witness) :
    List Witness → Database → List Witness → Result (Database × List Witness)
  | [], d, miners => .ok (d, miners)
  | m :: queue, d, miners =>
    if miners.length < d.schedule.maxMinerWitnesses then do
      if m.id ∉ voted.map (·.id) ∧ d.canProduce m then
        let d ← d.setSchedule .miner [m.owner]
        let d ← d.popMiner m.owner
        selectMiners voted queue d (miners ++ [m])
      else
        let d ← d.popMiner m.owner
        selectMiners voted queue d miners
    else .ok (d, miners)

/- The running witnesses in the lead: those met on the way, and of them those selected. -/
def selectRunners (d : Database) (selected : List Nat) :
    List Witness → Nat → List Witness × List Witness
  | [], _ => ([], [])
  | w :: rest, count =>
    if count < maxWitnesses then
      if d.canProduce w ∧ w.id ∉ selected then
        let (met, runners) := selectRunners d selected rest (count + 1)
        (w :: met, w :: runners)
      else
        let (met, runners) := selectRunners d selected rest count
        (w :: met, runners)
    else ([], [])

/- The virtual schedule of the witnesses met; `none` where the time overflows. -/
def advanceMet (newTime : Nat) : List Witness → Database → Result (Option Database)
  | [], d => .ok (some d)
  | w :: met, d => do
    let time := u128Add newTime (← u128Div virtualScheduleLapLength2 (u128 (w.votes + 1)))
    if time < newTime then return none
    let d ← d.modifyWitness w.owner fun w => .ok { w with
      virtualPosition := 0
      virtualLastUpdate := newTime
      virtualScheduledTime := time }
    advanceMet newTime met d

/- The overflow is found after some of the witnesses met were changed, but then every witness is
reset. -/
def advanceSchedule (d : Database) (newTime : Nat) (met : List Witness) :
    Result (Database × Nat) := do
  match ← advanceMet newTime met d with
  | some d => return (d, newTime)
  | none => return (← d.resetVirtualScheduleTime, 0)

/-! ### Versions and hardforks voted for -/

/- The highest version that enough of the scheduled witnesses run at least. -/
def majorityVersion (required : Nat) (versions : List Nat) : Option Nat :=
  (versions.insertionSort (· ≥ ·)).find? fun v => decide (required ≤ versions.countP (v ≤ ·))

/- The least vote that enough of the scheduled witnesses made. -/
def majorityVote (required : Nat) (votes : List (Nat × Time)) : Option (Nat × Time) :=
  (votes.insertionSort fun a b => a.1 < b.1 ∨ a.1 = b.1 ∧ a.2 ≤ b.2).find? fun v =>
    decide (required ≤ votes.countP (· == v))

/- The hardfork voted for, if there is one. -/
def setNextHardfork (h : HardforkProperties) : Option (Nat × Time) → HardforkProperties
  | some (next, time) => { h with nextHardfork := next, nextHardforkTime := time }
  | none => { h with nextHardfork := h.currentHardforkVersion }

/- The tally of the versions and hardfork votes of the outgoing schedule. -/
def tallyVersions (versions : Name → WitnessVersion) (d : Database) :
    Result (Database × Nat) := do
  if !d.hasHardfork 5 then return (d, d.schedule.majorityVersion)
  let required := d.schedule.hardforkRequiredWitnesses
  let scheduled := (← d.scheduledWitnesses).map fun w => versions w.owner
  let version := (majorityVersion required (scheduled.map (·.runningVersion))).getD
    d.schedule.majorityVersion
  let vote := majorityVote required
    (scheduled.map fun w => (w.hardforkVersionVote, w.hardforkTimeVote))
  return ({ d with hardforks := setNextHardfork d.hardforks vote }, version)

/-! ### Shuffling -/

def swap (l : List Name) (i j : Nat) : List Name := (l.set i (l.getD j 0)).set j (l.getD i 0)

/- The pseudo random number drawn for the place `i`. -/
def shuffleKey (time : Time) (i : Nat) : Nat :=
  let k := (time * two32 + i * 2685821657736338717) % two64
  let k := k ^^^ (k / 2 ^ 12)
  let k := k ^^^ (k * 2 ^ 25 % two64)
  let k := k ^^^ (k / 2 ^ 27)
  k * 2685821657736338717 % two64

def shuffle (time : Time) (count : Nat) (l : List Name) : List Name :=
  (List.range count).foldl (fun l i => swap l i (i + shuffleKey time i % (count - i))) l

/- The schedule of a round: the active witnesses, shuffled, and empty entries. -/
def fillSchedule (d : Database) (active : List Name) : WitnessSchedule :=
  let count := max (active.length % 256) 1
  let names := active ++ List.replicate (maxWitnesses - active.length) 0
  { d.schedule with
    currentShuffledWitnesses := shuffle d.headBlockTime count names
    numScheduledWitnesses := count
    nextShuffleBlockNum := (d.headBlockNum + count) % two32 }

/-- `update_witness_schedule4` -/
def updateWitnessSchedule4 (versions : Name → WitnessVersion) (d : Database) :
    Result Database := do
  let voted := (d.byVoteName.filter d.canProduce).take d.schedule.maxVotedWitnesses
  let d ← d.setSchedule .top19 (voted.map (·.owner))
  let (d, miners) ← selectMiners voted d.byPow d []
  let selected := (voted ++ miners).map (·.id)
  let (met, runners) := d.selectRunners selected d.byScheduleTime selected.length
  let newTime := (met.getLast?.map (·.virtualScheduledTime)).getD d.schedule.currentVirtualTime
  let d ← d.setSchedule .timeshare (runners.map (·.owner))
  let (d, newTime) ← d.advanceSchedule newTime met
  let active := (voted ++ miners ++ runners).map (·.owner)
  let expected := min maxWitnesses d.witnesses.rows.length
  require (active.length = expected)
    "number of active witnesses does not equal expected_active_witnesses"
  let (d, version) ← d.tallyVersions versions
  let s := d.schedule
  let d := { d with schedule := { d.fillSchedule active with
    witnessPayNormalizationFactor := s.top19Weight * voted.length + s.minerWeight * miners.length +
      s.timeshareWeight * runners.length
    currentVirtualTime := newTime
    majorityVersion := version } }
  d.updateMedianWitnessProps

/-! ### Schedule before hardfork 4 -/

/- The elected witnesses that do not mine, and the one next in virtual time. -/
def electHF0 (d : Database) : Result (Database × List Name × Nat) := do
  let voted := (d.byVoteName.filter fun w => w.powWorker == 0).take (maxWitnesses - 2)
  let d ← voted.foldlM (fun d w => d.modifyWitness w.owner fun w =>
    .ok { w with virtualScheduledTime := two128 - 1 }) d
  match d.byScheduleTime.find? fun w => w.powWorker == 0 with
  | none => return (d, voted.map (·.owner), 0)
  | some w =>
    let newTime := if w.virtualScheduledTime = two128 - 1 then 0 else w.virtualScheduledTime
    let lap := if d.hasHardfork 2 then virtualScheduleLapLength2 else virtualScheduleLapLength
    let rest ← u128Div lap (u128 (w.votes + 1))
    let d ← d.modifyWitness w.owner fun w => .ok { w with
      virtualPosition := 0
      virtualScheduledTime := u128Add w.virtualScheduledTime rest }
    return (d, voted.map (·.owner) ++ [w.owner], newTime)

/- The miners of a round: one once voting took over, before that until the round is full. -/
def minersHF0 (voting : Bool) (count : Nat) : List Witness → List Name
  | [] => []
  | m :: queue =>
    if voting ∨ maxWitnesses ≤ count + 1 then [m.owner]
    else m.owner :: minersHF0 voting (count + 1) queue

/- The virtual time moves in the rounds that elect witnesses. -/
def scheduleHF0 (d : Database) (elects : Prop) [Decidable elects] (newTime : Nat)
    (active : List Name) : WitnessSchedule :=
  let s := d.fillSchedule active
  if elects then { s with currentVirtualTime := newTime } else s

def updateWitnessScheduleHF0 (d : Database) : Result Database := do
  let voting := decide (startMinerVotingBlock < d.headBlockNum)
  let (d, active, newTime) ←
    if d.gpo.numPowWitnesses = 0 ∨ voting then d.electHF0 else pure (d, [], 0)
  let d ← match d.byPow.head? with
    | some m => if maxWitnesses < d.gpo.numPowWitnesses then d.popMiner m.owner else pure d
    | none => pure d
  let active := active ++ minersHF0 voting active.length d.byPow
  let d := { d with
    schedule := d.scheduleHF0 (d.gpo.numPowWitnesses = 0 ∨ voting) newTime active }
  d.updateMedianWitnessProps

/-- `update_witness_schedule` -/
def updateWitnessSchedule (versions : Name → WitnessVersion) (d : Database) : Result Database :=
  if d.headBlockNum % maxWitnesses = 0 then
    if d.hasHardfork 4 then d.updateWitnessSchedule4 versions else d.updateWitnessScheduleHF0
  else .ok d

end Database

end WeNode.Chain

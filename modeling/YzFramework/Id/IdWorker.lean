import YzFramework.Generator.Stamp
import YzFramework.Library.Run

/-! `IdWorker`: the generator whose wait for the next millisecond does not read the
clock again. The clock is endless; a call may need any number of rounds of its loop. -/
namespace YzFramework.Id
open Library.Word Library.Run Generator

namespace IdWorker

def epoch : Long := 1491004800000
def workerIdBits : Nat := 5
def dataCenterIdBits : Nat := 5
def maxWorkerId : Long := ~~~(-1 <<< workerIdBits)
def maxDataCenterId : Long := ~~~(-1 <<< dataCenterIdBits)
def sequenceBits : Nat := 12
def workerIdShift : Nat := sequenceBits
def dataCenterIdShift : Nat := sequenceBits + workerIdBits
def timestampShift : Nat := sequenceBits + workerIdBits + dataCenterIdBits
def sequenceMask : Long := ~~~(-1 <<< sequenceBits)

end IdWorker

structure IdWorker where
  dataCenterId : Long
  workerId : Long
  sequence : Long := 0
  lastTimestamp : Long := -1
deriving DecidableEq

namespace IdWorker

def new (dataCenterId workerId : Long) : Except String IdWorker :=
  if maxDataCenterId.slt dataCenterId || dataCenterId.slt 0 then
    .error ("dataCenterId can't be greater than " ++ toString maxDataCenterId.toInt ++
      " or less than 0")
  else if maxWorkerId.slt workerId || workerId.slt 0 then
    .error ("worker Id can't be greater than " ++ toString maxWorkerId.toInt ++ " or less than 0")
  else .ok {dataCenterId,workerId}

/-- The loop of `nextMillis`, which assigns `lastTimestamp`. -/
def waitRounds (lastTimestamp : Long) : ℕ → Long → Option Long
  | 0,_ => none
  | rounds+1,timestamp =>
    if timestamp.sle lastTimestamp then waitRounds lastTimestamp rounds lastTimestamp
    else some timestamp

def nextMillis (rounds : ℕ) (lastTimestamp timeGen : Long) : Option Long :=
  waitRounds lastTimestamp rounds timeGen

def pack (timestamp dataCenterId workerId sequence : Long) : Long :=
  (timestamp - epoch) <<< timestampShift ||| dataCenterId <<< dataCenterIdShift |||
    workerId <<< workerIdShift ||| sequence

def issue (worker : IdWorker) (timestamp sequence : Long) (position : ℕ) :
    Except String Long × IdWorker × ℕ :=
  (.ok (pack timestamp worker.dataCenterId worker.workerId sequence),
    {worker with sequence,lastTimestamp := timestamp},position)

/-- No result where the loop has not ended after so many rounds. -/
def nextId (clock : ℕ → Long) (rounds : ℕ) (worker : IdWorker) (position : ℕ) :
    Option (Except String Long × IdWorker × ℕ) :=
  let timestamp := clock position
  if timestamp.slt worker.lastTimestamp then
    some (.error ("Clock moved backwards.  Refusing to generate id for " ++
      toString (worker.lastTimestamp - timestamp).toInt ++ " milliseconds"),worker,position+1)
  else do
    let (sequence,timestamp,position) ←
      if timestamp == worker.lastTimestamp then
        let sequence := (worker.sequence + 1) &&& sequenceMask
        if sequence == 0 then
          (nextMillis rounds worker.lastTimestamp (clock (position+1))).map fun timestamp =>
            (sequence,timestamp,position+2)
        else some (sequence,timestamp,position+1)
      else some (0,timestamp,position+1)
    some (issue worker timestamp sequence position)

/-- A worker, how far it has read the clock, and what it has issued, the newest first. -/
structure Session where
  worker : IdWorker
  position : ℕ := 0
  issued : List Long := []

variable (clock : ℕ → Long)

def call (rounds : ℕ) (session : Session) (_ : Unit) : Session :=
  match nextId clock rounds session.worker session.position with
  | some (.ok id,worker,position) => {worker,position,issued := id::session.issued}
  | some (.error _,worker,position) => {session with worker,position}
  | none => session

/-- The call waits for the next millisecond. -/
def Exhausted (session : Session) : Prop :=
  clock session.position = session.worker.lastTimestamp ∧
    (session.worker.sequence + 1) &&& sequenceMask = 0

instance (session : Session) : Decidable (Exhausted clock session) :=
  inferInstanceAs (Decidable (_ ∧ _))

/-- The call ends, what it waited for is later, and its identifier is above all before. -/
def Proper (session : Session) (_ : Unit) : Prop :=
  ∃ rounds reply after position,
    nextId clock rounds session.worker session.position = some (reply,after,position) ∧
    (Exhausted clock session → session.worker.lastTimestamp.slt after.lastTimestamp = true) ∧
    ∀ id, reply = .ok id → ∀ earlier ∈ session.issued, earlier.slt id = true

def reading (session : Session) : Long :=
  if Exhausted clock session then clock (session.position+1) else clock session.position

/-- The milliseconds since the epoch as 42 signed bits hold them. -/
def elapsed (timestamp : Long) : ℤ := ((timestamp - epoch).setWidth 42).toInt

/-- Where the sequence is exhausted the very next reading is later, and after the first
identifier a later millisecond is later in 42 bits too. -/
def Fit (session : Session) (_ : Unit) : Prop :=
  (Exhausted clock session →
    session.worker.lastTimestamp.slt (clock (session.position+1)) = true) ∧
  (session.issued ≠ [] → session.worker.lastTimestamp.slt (reading clock session) = true →
    elapsed session.worker.lastTimestamp < elapsed (reading clock session))

instance (session : Session) (next : Unit) : Decidable (Fit clock session next) :=
  inferInstanceAs (Decidable (_ ∧ _))

def node (worker : IdWorker) : ℕ := worker.dataCenterId.toNat * 2^5 + worker.workerId.toNat

def lastMark (worker : IdWorker) : ℤ :=
  mark (elapsed worker.lastTimestamp) worker.node worker.sequence.toNat

/-- The newest identifier is the one of the fields, and none is above it. -/
structure Sound (session : Session) : Prop where
  dataCenter : session.worker.dataCenterId.toNat < 2^5
  worker : session.worker.workerId.toNat < 2^5
  sequence : session.worker.sequence.toNat < 2^12
  newest : session.issued ≠ [] → ∃ id ∈ session.issued, id.toInt = lastMark session.worker
  highest : ∀ id ∈ session.issued, id.toInt ≤ lastMark session.worker

theorem new_sound {dataCenterId workerId : Long} {worker : IdWorker}
    (accepted : new dataCenterId workerId = .ok worker) : Sound {worker} := by
  unfold new at accepted
  split at accepted
  next => cases accepted
  next dataCenterOk =>
    split at accepted
    next => cases accepted
    next workerOk =>
      cases accepted
      exact ⟨five_bits dataCenterOk,five_bits workerOk,by simp,by simp,by simp⟩

theorem waitRounds_behind {lastTimestamp timestamp : Long} (rounds : ℕ)
    (behind : timestamp.sle lastTimestamp = true) : waitRounds lastTimestamp rounds timestamp = none := by
  induction rounds generalizing timestamp with
  | zero => rfl
  | succ rounds ih =>
    rw [waitRounds,if_pos behind]
    exact ih (by simp [BitVec.sle])

theorem waitRounds_passed {lastTimestamp timestamp : Long} (rounds : ℕ)
    (passed : ¬ timestamp.sle lastTimestamp = true) :
    waitRounds lastTimestamp (rounds+1) timestamp = some timestamp := by
  rw [waitRounds,if_neg passed]

theorem nextSequence (sequence : Long) :
    ((sequence + 1) &&& sequenceMask).toNat = (sequence.toNat + 1) % 2^12 :=
  counted_masked sequence (by decide)

theorem nextId_exhausted {session : Session} (waits : Exhausted clock session)
    (ahead : ¬ (clock session.position).slt session.worker.lastTimestamp = true) (rounds : ℕ) :
    nextId clock rounds session.worker session.position =
      (nextMillis rounds session.worker.lastTimestamp (clock (session.position+1))).bind
        fun timestamp => some (issue session.worker timestamp 0 (session.position+2)) := by
  have equal : (clock session.position == session.worker.lastTimestamp) = true := by simp [waits.1]
  simp only [nextId,if_neg ahead,if_pos equal,waits.2,Option.bind_map,Option.bind_eq_bind]
  rfl

theorem nextId_counted {session : Session} (same : clock session.position = session.worker.lastTimestamp)
    (left : (session.worker.sequence + 1) &&& sequenceMask ≠ 0) (rounds : ℕ) :
    nextId clock rounds session.worker session.position =
      some (issue session.worker session.worker.lastTimestamp
        ((session.worker.sequence + 1) &&& sequenceMask) (session.position+1)) := by
  have equal : (clock session.position == session.worker.lastTimestamp) = true := by simp [same]
  have some : ¬ ((session.worker.sequence + 1) &&& sequenceMask == 0) = true :=
    fun zero => left (beq_iff_eq.mp zero)
  have ahead : ¬ (clock session.position).slt session.worker.lastTimestamp = true := by
    rw [same,BitVec.slt_iff_toInt_lt]
    exact lt_irrefl _
  simp only [nextId,if_neg ahead,if_pos equal,if_neg some]
  rw [← same]
  rfl

theorem nextId_moved {session : Session}
    (ahead : ¬ (clock session.position).slt session.worker.lastTimestamp = true)
    (moved : clock session.position ≠ session.worker.lastTimestamp) (rounds : ℕ) :
    nextId clock rounds session.worker session.position =
      some (issue session.worker (clock session.position) 0 (session.position+1)) := by
  have different : ¬ (clock session.position == session.worker.lastTimestamp) = true := by simp [moved]
  simp only [nextId,if_neg ahead,if_neg different]
  rfl

/-- What a call can do: refuse, take the next number of the millisecond, take a later
millisecond, or wait for ever. -/
theorem nextId_cases (session : Session) (small : session.worker.sequence.toNat < 2^12) :
    ((clock session.position).toInt < session.worker.lastTimestamp.toInt ∧
      ∃ message, ∀ rounds, nextId clock rounds session.worker session.position =
        some (.error message,session.worker,session.position+1)) ∨
    (clock session.position = session.worker.lastTimestamp ∧ ¬ Exhausted clock session ∧
      ∃ sequence : Long, sequence.toNat = session.worker.sequence.toNat + 1 ∧
        sequence.toNat < 2^12 ∧
        ∀ rounds, nextId clock rounds session.worker session.position =
          some (issue session.worker session.worker.lastTimestamp sequence (session.position+1))) ∨
    (session.worker.lastTimestamp.toInt < (reading clock session).toInt ∧
      ∃ next, (¬ Exhausted clock session → next = session.position+1) ∧
        ∀ rounds, nextId clock (rounds+1) session.worker session.position =
          some (issue session.worker (reading clock session) 0 next)) ∨
    (Exhausted clock session ∧
      (clock (session.position+1)).toInt ≤ session.worker.lastTimestamp.toInt ∧
      ∀ rounds, nextId clock rounds session.worker session.position = none) := by
  by_cases behind : (clock session.position).slt session.worker.lastTimestamp = true
  · exact .inl ⟨BitVec.slt_iff_toInt_lt.mp behind,_,fun rounds => by rw [nextId,if_pos behind]⟩
  · refine .inr ?_
    by_cases same : clock session.position = session.worker.lastTimestamp
    · by_cases exhausted : (session.worker.sequence + 1) &&& sequenceMask = 0
      · have waits : Exhausted clock session := ⟨same,exhausted⟩
        have result := nextId_exhausted clock waits behind
        by_cases passed : (clock (session.position+1)).sle session.worker.lastTimestamp = true
        · refine .inr (.inr ⟨waits,BitVec.sle_iff_toInt_le.mp passed,fun rounds => ?_⟩)
          rw [result,nextMillis,waitRounds_behind rounds passed]
          rfl
        · have later : session.worker.lastTimestamp.toInt < (clock (session.position+1)).toInt := by
            simpa only [BitVec.sle_iff_toInt_le,not_le] using passed
          refine .inr (.inl ?_)
          rw [reading,if_pos waits]
          refine ⟨later,session.position+2,fun idle => absurd waits idle,fun rounds => ?_⟩
          rw [result,nextMillis,waitRounds_passed rounds passed]
          rfl
      · have next := nextSequence session.worker.sequence
        have nonzero : ((session.worker.sequence + 1) &&& sequenceMask).toNat ≠ 0 :=
          fun none => exhausted (BitVec.eq_of_toNat_eq none)
        exact .inl ⟨same,fun waits => exhausted waits.2,
          (session.worker.sequence + 1) &&& sequenceMask,by omega,by omega,
          nextId_counted clock same exhausted⟩
    · have moved : session.worker.lastTimestamp.toInt ≠ (clock session.position).toInt :=
        fun equal => same (BitVec.toInt_inj.mp equal).symm
      refine .inr (.inl ?_)
      rw [reading,if_neg fun waits => same waits.1]
      exact ⟨lt_of_le_of_ne (not_slt.mp behind) moved,session.position+1,fun _ => rfl,fun rounds =>
        nextId_moved clock behind same (rounds+1)⟩

theorem pack_toInt {worker : IdWorker} (dataCenter : worker.dataCenterId.toNat < 2^5)
    (small : worker.workerId.toNat < 2^5) (timestamp : Long) {sequence : Long}
    (fits : sequence.toNat < 2^12) :
    (pack timestamp worker.dataCenterId worker.workerId sequence).toInt =
      mark (elapsed timestamp) worker.node sequence.toNat := by
  have center : (worker.dataCenterId <<< dataCenterIdShift).toNat = worker.dataCenterId.toNat * 2^17 :=
    shifted_toNat worker.dataCenterId 17 (by omega)
  have machine : (worker.workerId <<< workerIdShift).toNat = worker.workerId.toNat * 2^12 :=
    shifted_toNat worker.workerId 12 (by omega)
  have nodes : (worker.dataCenterId <<< dataCenterIdShift |||
      worker.workerId <<< workerIdShift).toNat =
        worker.dataCenterId.toNat * 2^17 + worker.workerId.toNat * 2^12 := by
    rw [or_aligned_toNat _ _ 17 (by rw [center]; exact Nat.dvd_mul_left _ _)
      (by rw [machine]; omega),center,machine]
  have layout := @fields_toInt (timestamp - epoch)
    (worker.dataCenterId <<< dataCenterIdShift ||| worker.workerId <<< workerIdShift) sequence
    (by rw [nodes]; omega) (by rw [nodes]; omega) fits
  rw [nodes] at layout
  unfold pack mark node elapsed
  rw [BitVec.or_assoc ((timestamp - epoch) <<< timestampShift)]
  apply layout.trans
  push_cast
  ring

variable {clock}

private theorem wait_more {lastTimestamp timestamp result : Long} {rounds : ℕ}
    (found : waitRounds lastTimestamp rounds timestamp = some result) :
    waitRounds lastTimestamp (rounds+1) timestamp = some result := by
  induction rounds generalizing timestamp with
  | zero => cases found
  | succ rounds ih =>
    rw [waitRounds] at found ⊢
    split at found
    next behind =>
      rw [if_pos behind]
      exact ih found
    next passed => rwa [if_neg passed]

theorem nextId_more {rounds position : ℕ} {worker : IdWorker}
    {result : Except String Long × IdWorker × ℕ}
    (ended : nextId clock rounds worker position = some result) :
    nextId clock (rounds+1) worker position = some result := by
  have loop : ∀ result, nextMillis rounds worker.lastTimestamp (clock (position+1)) = some result →
      nextMillis (rounds+1) worker.lastTimestamp (clock (position+1)) = some result :=
    fun result found => wait_more found
  simp only [nextId] at ended ⊢
  split at ended
  next behind => rwa [if_pos behind]
  next notBehind =>
    rw [if_neg notBehind]
    split at ended
    next same =>
      rw [if_pos same]
      split at ended
      next exhausted =>
        rw [if_pos exhausted]
        cases found : nextMillis rounds worker.lastTimestamp (clock (position+1)) with
        | none =>
          rw [found] at ended
          cases ended
        | some timestamp =>
          rw [found] at ended
          rwa [loop timestamp found]
      next more => rwa [if_neg more]
    next different => rwa [if_neg different]

theorem call_issue {session : Session} {rounds position : ℕ} {timestamp sequence : Long}
    (taken : nextId clock rounds session.worker session.position =
      some (issue session.worker timestamp sequence position)) :
    call clock rounds session () = {
      worker := {session.worker with sequence,lastTimestamp := timestamp}
      position
      issued := pack timestamp session.worker.dataCenterId session.worker.workerId sequence::
        session.issued} := by
  rw [call,taken]
  rfl

theorem elapsed_lt {worker : IdWorker} (small : worker.sequence.toNat < 2^12) (timestamp : Long) :
    lastMark worker < mark (elapsed timestamp) worker.node 0 ↔
      elapsed worker.lastTimestamp < elapsed timestamp := by
  constructor
  · intro below
    unfold lastMark mark at below
    omega
  · intro later
    exact mark_later worker.node 0 small later

private theorem proper_iff (session : Session) (sound : Sound session) :
    Proper clock session () ↔ Fit clock session () := by
  rcases nextId_cases clock session sound.sequence with
    ⟨behind,message,refused⟩ | ⟨same,more,sequence,next,small,taken⟩ | ⟨later,place,_,taken⟩ |
    ⟨waits,passed,stuck⟩
  · have idle : ¬ Exhausted clock session := by
      intro waits
      rw [waits.1] at behind
      exact lt_irrefl _ behind
    refine iff_of_true ⟨0,_,_,_,refused 0,fun waits => absurd waits idle,fun id wrong => ?_⟩
      ⟨fun waits => absurd waits idle,fun _ later => ?_⟩
    · cases wrong
    · rw [reading,if_neg idle,BitVec.slt_iff_toInt_lt] at later
      exact absurd later (not_lt.mpr behind.le)
  · refine iff_of_true ⟨0,_,_,_,taken 0,fun waits => absurd waits more,fun id issued earlier old => ?_⟩
      ⟨fun waits => absurd waits more,fun _ later => ?_⟩
    · cases issued
      rw [BitVec.slt_iff_toInt_lt,pack_toInt sound.dataCenter sound.worker _ small]
      exact (sound.highest earlier old).trans_lt (mark_next _ _ (by omega))
    · rw [reading,if_neg more,same,BitVec.slt_iff_toInt_lt] at later
      exact absurd later (lt_irrefl _)
  · have strict := BitVec.slt_iff_toInt_lt.mpr later
    have value := pack_toInt sound.dataCenter sound.worker (reading clock session)
      (show (0 : Long).toNat < 2^12 by decide)
    constructor
    · rintro ⟨rounds,reply,after,position,ended,_,above⟩
      have same := (nextId_more ended).symm.trans (taken rounds)
      cases same
      refine ⟨fun waits => ?_,fun some _ => ?_⟩
      · rwa [reading,if_pos waits] at strict
      · obtain ⟨id,member,newest⟩ := sound.newest some
        have below := above _ rfl id member
        rw [BitVec.slt_iff_toInt_lt,value,newest] at below
        exact (elapsed_lt sound.sequence _).mp below
    · intro fit
      refine ⟨1,_,_,_,taken 0,fun _ => strict,fun id issued earlier old => ?_⟩
      cases issued
      have grown := fit.2 (List.ne_nil_of_mem old) strict
      rw [BitVec.slt_iff_toInt_lt,value]
      exact (sound.highest earlier old).trans_lt ((elapsed_lt sound.sequence _).mpr grown)
  · refine iff_of_false ?_ fun fit => ?_
    · rintro ⟨rounds,reply,after,position,ended,_⟩
      rw [stuck rounds] at ended
      cases ended
    · exact absurd (BitVec.slt_iff_toInt_lt.mp (fit.1 waits)) (not_lt.mpr passed)

theorem call_sound (session : Session) (sound : Sound session) (fit : Fit clock session ())
    (rounds : ℕ) : Sound (call clock (rounds+1) session ()) := by
  rcases nextId_cases clock session sound.sequence with
    ⟨_,message,refused⟩ | ⟨_,_,sequence,next,small,taken⟩ | ⟨later,place,_,taken⟩ | ⟨_,_,stuck⟩
  · rw [call,refused]
    exact ⟨sound.dataCenter,sound.worker,sound.sequence,sound.newest,sound.highest⟩
  · rw [call_issue (taken _)]
    have value := pack_toInt sound.dataCenter sound.worker session.worker.lastTimestamp small
    refine ⟨sound.dataCenter,sound.worker,small,fun _ => ⟨_,List.mem_cons_self,value⟩,fun id old => ?_⟩
    rcases List.mem_cons.mp old with rfl | earlier
    · exact value.le
    · have raised : session.worker.sequence.toNat < sequence.toNat := by omega
      exact ((sound.highest id earlier).trans_lt (mark_next _ _ raised)).le
  · rw [call_issue (taken _)]
    have value := pack_toInt sound.dataCenter sound.worker (reading clock session)
      (show (0 : Long).toNat < 2^12 by decide)
    refine ⟨sound.dataCenter,sound.worker,show (0 : Long).toNat < 2^12 by decide,
      fun _ => ⟨_,List.mem_cons_self,value⟩,fun id old => ?_⟩
    rcases List.mem_cons.mp old with rfl | earlier
    · exact value.le
    · have grown := fit.2 (List.ne_nil_of_mem earlier) (BitVec.slt_iff_toInt_lt.mpr later)
      exact ((sound.highest id earlier).trans_lt ((elapsed_lt sound.sequence _).mpr grown)).le
  · rw [call,stuck]
    exact sound

/-- For every clock: the calls of a run all end with higher and higher identifiers
exactly when none finds the clock still in the millisecond it has used up, and later
milliseconds are later in 42 bits. -/
theorem run_proper_iff (dataCenterId workerId : Long) (worker : IdWorker)
    (accepted : new dataCenterId workerId = .ok worker) (clock : ℕ → Long) (rounds n : ℕ) :
    Along (call clock (rounds+1)) (Proper clock) {worker} (List.replicate n ()) ↔
      Along (call clock (rounds+1)) (Fit clock) {worker} (List.replicate n ()) :=
  @along_iff _ _ _ _ _ Sound (fun session _ sound => proper_iff session sound)
    (fun session _ sound fit => call_sound session sound fit rounds) _ _ (new_sound accepted)

theorem run_proper_iff_three :
    Along (call (fun reading => 1500000000000 + BitVec.ofNat 64 (reading / 2)) 1)
      (Proper fun reading => 1500000000000 + BitVec.ofNat 64 (reading / 2))
      {worker := {dataCenterId := 2,workerId := 3}} (List.replicate 3 ()) :=
  (run_proper_iff 2 3 {dataCenterId := 2,workerId := 3} (by decide) _ 0 3).mpr (by decide +kernel)

theorem calls_steady {clock : ℕ → Long} {timestamp : Long} (rounds n : ℕ) (session : Session)
    (steady : ∀ position, session.position ≤ position → position < session.position+n →
      clock position = timestamp)
    (last : session.worker.lastTimestamp = timestamp)
    (room : session.worker.sequence.toNat+n < 2^12) :
    let after := final (call clock (rounds+1)) session (List.replicate n ())
    after.worker.lastTimestamp = timestamp ∧ after.position = session.position+n ∧
      after.worker.sequence.toNat = session.worker.sequence.toNat+n := by
  dsimp only
  induction n generalizing session with
  | zero => exact ⟨last,rfl,rfl⟩
  | succ n ih =>
    have here : clock session.position = session.worker.lastTimestamp := by
      rw [last]
      exact steady _ le_rfl (by omega)
    have more : ¬ Exhausted clock session := by
      intro waits
      have wrapped := nextSequence session.worker.sequence
      rw [waits.2] at wrapped
      have zero : (0 : Long).toNat = 0 := rfl
      omega
    have moved : (call clock (rounds+1) session ()).worker.lastTimestamp = timestamp ∧
        (call clock (rounds+1) session ()).position = session.position+1 ∧
        (call clock (rounds+1) session ()).worker.sequence.toNat =
          session.worker.sequence.toNat+1 := by
      rcases nextId_cases clock session (by omega) with
        ⟨behind,_⟩ | ⟨_,_,sequence,next,_,taken⟩ | ⟨later,_⟩ | ⟨waits,_⟩
      · rw [here] at behind
        exact absurd behind (lt_irrefl _)
      · rw [call_issue (taken (rounds+1))]
        exact ⟨last,rfl,next⟩
      · rw [reading,if_neg more,here] at later
        exact absurd later (lt_irrefl _)
      · exact absurd waits more
    obtain ⟨stays,place,next⟩ := moved
    obtain ⟨later,further,counted⟩ := ih (call clock (rounds+1) session ())
      (fun position begun small => steady position (by omega) (by omega)) stays (by omega)
    rw [List.replicate_succ,final_cons]
    exact ⟨later,by omega,by omega⟩

private theorem exhausted_not_proper {clock : ℕ → Long} {session : Session}
    (small : session.worker.sequence.toNat < 2^12) (waits : Exhausted clock session)
    (still : clock (session.position+1) = session.worker.lastTimestamp) :
    ¬ Proper clock session () := by
  rintro ⟨rounds,reply,after,position,ended,_⟩
  rcases nextId_cases clock session small with ⟨behind,_⟩ | ⟨_,more,_⟩ | ⟨later,_⟩ | ⟨_,_,stuck⟩
  · rw [waits.1] at behind
    exact lt_irrefl _ behind
  · exact more waits
  · rw [reading,if_pos waits,still] at later
    exact lt_irrefl _ later
  · rw [stuck rounds] at ended
    cases ended

/-- No worker makes 4097 calls within one new millisecond. -/
theorem busy_millisecond_stuck {clock : ℕ → Long} {timestamp : Long} (rounds : ℕ) {session : Session}
    (small : session.worker.sequence.toNat < 2^12)
    (fresh : session.worker.lastTimestamp.toInt < timestamp.toInt)
    (steady : ∀ position, session.position ≤ position → position < session.position+4098 →
      clock position = timestamp) :
    ¬ Along (call clock (rounds+1)) (Proper clock) session (List.replicate 4097 ()) := by
  intro proper
  have here : clock session.position = timestamp := steady _ le_rfl (by omega)
  have idle : ¬ Exhausted clock session := by
    intro waits
    rw [← waits.1,here] at fresh
    exact lt_irrefl _ fresh
  have opened : (call clock (rounds+1) session ()).worker.lastTimestamp = timestamp ∧
      (call clock (rounds+1) session ()).position = session.position+1 ∧
      (call clock (rounds+1) session ()).worker.sequence.toNat = 0 := by
    rcases nextId_cases clock session small with
      ⟨behind,_⟩ | ⟨same,_⟩ | ⟨_,place,next,taken⟩ | ⟨waits,_⟩
    · rw [here] at behind
      exact absurd (behind.trans fresh) (lt_irrefl _)
    · rw [← same,here] at fresh
      exact absurd fresh (lt_irrefl _)
    · rw [call_issue (taken rounds)]
      exact ⟨(if_neg idle).trans here,next idle,rfl⟩
    · exact absurd waits idle
  obtain ⟨first,place,count⟩ := opened
  obtain ⟨last,further,counted⟩ := calls_steady rounds 4095 (call clock (rounds+1) session ())
    (fun position begun near => steady position (by omega) (by omega)) first (by omega)
  rw [show 4097 = 4095+1+1 from rfl,List.replicate_succ,along_cons,List.replicate_succ',
    along_append] at proper
  refine exhausted_not_proper (by omega) ⟨?_,?_⟩ ?_ proper.2.2.1
  · rw [last]
    exact steady _ (by omega) (by omega)
  · apply BitVec.eq_of_toNat_eq
    rw [nextSequence,counted,count]
    rfl
  · rw [last]
    exact steady _ (by omega) (by omega)

def busyClock (position : ℕ) : Long :=
  if position < 4098 then 1500000000000 else BitVec.intMax 64

/-- The 4097th call within one millisecond never ends, though the clock goes on. -/
theorem exhausted_call_stuck :
    (∀ value : Long, value ≠ BitVec.intMax 64 →
      ∃ start, ∀ position, start ≤ position → value.slt (busyClock position) = true) ∧
    ¬ Along (call busyClock 1) (Proper busyClock) {worker := {dataCenterId := 0,workerId := 0}}
      (List.replicate 4097 ()) := by
  constructor
  · intro value below
    refine ⟨4098,fun position late => ?_⟩
    rw [busyClock,if_neg (by omega),BitVec.slt_iff_toInt_lt]
    have most : (BitVec.intMax 64).toInt = 2^63-1 := by decide
    have apart : value.toInt ≠ (BitVec.intMax 64).toInt := fun same => below (BitVec.toInt_inj.mp same)
    have bound := @BitVec.toInt_lt 64 value
    omega
  · exact busy_millisecond_stuck 0 (by decide) (by decide) fun position _ near => if_pos near

end IdWorker
end YzFramework.Id

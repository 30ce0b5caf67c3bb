import YzFramework.Generator.Stamp
import YzFramework.Library.Clocked

/-! `IdBuilder`: the older identifier generator with one ten-bit worker field.
Unlike `SnowFlake` it settles the sequence before it looks for a clock that moved
backwards, so a refused call has already cleared the sequence. -/
namespace YzFramework.Unique
open Library.Word Library.Clocked Generator

namespace IdBuilder

def snsEpoch : Long := 1330328109047
def workerIdBits : Nat := 10
def maxWorkerId : Long := -1 ^^^ (-1 <<< workerIdBits)
def sequenceBits : Nat := 12
def workerIdShift : Nat := sequenceBits
def timestampLeftShift : Nat := sequenceBits + workerIdBits
def sequenceMask : Long := -1 ^^^ (-1 <<< sequenceBits)

end IdBuilder

structure IdBuilder where
  workerId : Long
  sequence : Long := 0
  lastTimestamp : Long := -1
deriving DecidableEq

namespace IdBuilder

def new (workerId : Long) : Except String IdBuilder :=
  if maxWorkerId.slt workerId || workerId.slt 0 then
    .error ("worker Id can't be greater than " ++ toString maxWorkerId.toInt ++ " or less than 0")
  else .ok {workerId}

def tilNextMillis (lastTimestamp : Long) (clock : List Long) : Option (Long × List Long) :=
  readUntil (fun timestamp => !timestamp.sle lastTimestamp) clock

def pack (timestamp workerId sequence : Long) : Long :=
  (timestamp - snsEpoch) <<< timestampLeftShift ||| workerId <<< workerIdShift ||| sequence

def nextId (builder : IdBuilder) : List Long → Option (Except String Long × IdBuilder × List Long)
  | [] => none
  | timestamp::rest => do
    let (sequence,timestamp,rest) ←
      if builder.lastTimestamp == timestamp then
        let sequence := (builder.sequence + 1) &&& sequenceMask
        if sequence == 0 then
          (tilNextMillis builder.lastTimestamp rest).map fun (timestamp,rest) =>
            (sequence,timestamp,rest)
        else some (sequence,timestamp,rest)
      else some (0,timestamp,rest)
    -- From here on the field `sequence` is written, also when the call throws.
    if timestamp.slt builder.lastTimestamp then
      some (.error ("Clock moved backwards.Refusing to generate id for " ++
        toString (builder.lastTimestamp - timestamp).toInt ++ " milliseconds"),
        {builder with sequence},rest)
    else
      some (.ok (pack timestamp builder.workerId sequence),
        {builder with sequence,lastTimestamp := timestamp},rest)

def run (n : Nat) (builder : IdBuilder) (clock : List Long) :
    List (Call IdBuilder Long String Long) := calls nextId n builder clock

structure Sound (builder : IdBuilder) (clock : List Long) : Prop where
  worker : builder.workerId.toNat < 2^10
  sequence : builder.sequence.toNat < 2^12
  last : builder.lastTimestamp = -1 ∨ InRange snsEpoch builder.lastTimestamp
  clock : ∀ reading ∈ clock, InRange snsEpoch reading

def lastMark (builder : IdBuilder) : ℤ :=
  mark (builder.lastTimestamp.toInt - snsEpoch.toInt) builder.workerId.toNat builder.sequence.toNat

/-- A clock behind the last identifier is met with the sequence already at zero. -/
def Settled (call : Call IdBuilder Long String Long) : Prop :=
  ∀ reading ∈ call.clock.head?,
    reading.toInt < call.before.lastTimestamp.toInt → call.before.sequence = 0

instance : DecidablePred Settled := fun call => Option.decidableForallMem call.clock.head?

theorem new_sound {workerId : Long} {builder : IdBuilder} {clock : List Long}
    (accepted : new workerId = .ok builder)
    (inRange : ∀ reading ∈ clock, InRange snsEpoch reading) : Sound builder clock := by
  unfold new at accepted
  split at accepted
  next => contradiction
  next workerOk =>
    cases Except.ok.inj accepted
    rw [Bool.or_eq_true,not_or,not_slt,not_slt] at workerOk
    have bound := workerId.isLt
    have high : maxWorkerId.toInt = 1023 := by decide
    have zero : (0 : Long).toInt = 0 := by decide
    refine ⟨?_,by simp,.inl rfl,inRange⟩
    rw [high,zero,BitVec.toInt_eq_toNat_cond] at workerOk
    dsimp only
    split at workerOk <;> omega

theorem tilNextMillis_spec {lastTimestamp timestamp : Long} {clock rest : List Long}
    (found : tilNextMillis lastTimestamp clock = some (timestamp,rest)) :
    lastTimestamp.toInt < timestamp.toInt ∧ ∃ skipped, clock = skipped++timestamp::rest := by
  obtain ⟨passed,split⟩ := readUntil_some found
  refine ⟨?_,split⟩
  have above : ¬ timestamp.sle lastTimestamp = true := by simpa using passed
  simpa only [BitVec.sle_iff_toInt_le,not_le] using above

/-- The two outcomes of a completed call: a refusal that leaves the sequence
cleared, or an identifier built from a later reading or the next sequence. -/
inductive Step (builder : IdBuilder) (clock : List Long) :
    Except String Long → IdBuilder → List Long → Prop
  | refused (timestamp : Long) (rest : List Long) (message : String)
      (read : clock = timestamp::rest) (behind : timestamp.toInt < builder.lastTimestamp.toInt) :
      Step builder clock (.error message) {builder with sequence := 0} rest
  | built (skipped : List Long) (timestamp sequence : Long) (rest : List Long)
      (read : clock = skipped++timestamp::rest)
      (ahead : ∀ reading, clock.head? = some reading →
        builder.lastTimestamp.toInt ≤ reading.toInt)
      (fresh : builder.lastTimestamp.toInt < timestamp.toInt ∧ sequence = 0 ∨
        builder.lastTimestamp = timestamp ∧ sequence.toNat = builder.sequence.toNat + 1 ∧
          sequence.toNat < 2^12) :
      Step builder clock (.ok (pack timestamp builder.workerId sequence))
        {builder with sequence,lastTimestamp := timestamp} rest

theorem nextSequence (sequence : Long) :
    ((sequence + 1) &&& sequenceMask).toNat = (sequence.toNat + 1) % 2^12 :=
  counted_masked sequence (by decide)

theorem nextId_step {builder after : IdBuilder} {clock rest : List Long}
    {reply : Except String Long} (small : builder.sequence.toNat < 2^12)
    (done : nextId builder clock = some (reply,after,rest)) :
    Step builder clock reply after rest := by
  cases clock with
  | nil => simp [nextId] at done
  | cons timestamp later =>
    simp only [nextId] at done
    split at done
    next same =>
      have same : builder.lastTimestamp = timestamp := by simpa using same
      subst same
      split at done
      next exhausted =>
        cases found : tilNextMillis builder.lastTimestamp later with
        | none => simp [found] at done
        | some result =>
          obtain ⟨timestamp,unread⟩ := result
          obtain ⟨passed,skipped,split⟩ := tilNextMillis_spec found
          have wrapped : (builder.sequence + 1) &&& sequenceMask = 0 := by simpa using exhausted
          have ahead : ¬ timestamp.slt builder.lastTimestamp = true := not_slt.mpr passed.le
          simp only [found,wrapped,Option.map_some,Option.bind_eq_bind,Option.bind_some,ahead,
            if_false,Bool.false_eq_true] at done
          cases done
          exact .built (builder.lastTimestamp::skipped) timestamp 0 _ (by rw [split]; rfl)
            (by simp) (.inl ⟨passed,rfl⟩)
      next more =>
        have still : ¬ builder.lastTimestamp.slt builder.lastTimestamp = true := not_slt.mpr le_rfl
        simp only [Option.bind_eq_bind,Option.bind_some,still,if_false,Bool.false_eq_true] at done
        cases done
        have next := nextSequence builder.sequence
        have nonzero : ((builder.sequence + 1) &&& sequenceMask).toNat ≠ 0 := by
          intro zero
          exact more (by simpa using BitVec.eq_of_toNat_eq zero)
        exact .built [] builder.lastTimestamp ((builder.sequence + 1) &&& sequenceMask) _ rfl
          (by simp) (.inr ⟨rfl,by omega,by omega⟩)
    next different =>
      have distinct : builder.lastTimestamp ≠ timestamp := by simpa using different
      have moved : builder.lastTimestamp.toInt ≠ timestamp.toInt := fun equal =>
        distinct (BitVec.toInt_inj.mp equal)
      simp only [Option.bind_eq_bind,Option.bind_some] at done
      split at done
      next behind =>
        cases done
        exact .refused timestamp _ _ rfl (BitVec.slt_iff_toInt_lt.mp behind)
      next notBehind =>
        cases done
        have ahead := not_slt.mp notBehind
        exact .built [] timestamp 0 _ rfl (by simpa using ahead)
          (.inl ⟨lt_of_le_of_ne ahead moved,rfl⟩)

theorem pack_toNat {builder : IdBuilder} {clock : List Long} {timestamp sequence : Long}
    (sound : Sound builder clock) (inRange : InRange snsEpoch timestamp)
    (sequenceFits : sequence.toNat < 2^12) :
    (pack timestamp builder.workerId sequence).toNat =
      (timestamp - snsEpoch).toNat * 2^22 + builder.workerId.toNat * 2^12 + sequence.toNat := by
  have workerFits := sound.worker
  have worker : (builder.workerId <<< workerIdShift).toNat = builder.workerId.toNat * 2^12 :=
    shifted_toNat builder.workerId 12 (by omega)
  have layout := fields_toNat (builder.workerId <<< workerIdShift) inRange
    (by rw [worker]; omega) (by rw [worker]; exact Nat.dvd_mul_left _ _) sequenceFits
  rw [worker] at layout
  exact layout

/-- A refused call keeps the fields exactly when the sequence was already zero;
a settled call of either kind raises the mark. -/
theorem step_raises {builder after : IdBuilder} {clock rest : List Long}
    {reply : Except String Long} (sound : Sound builder clock)
    (step : Step builder clock reply after rest) :
    Sound after rest ∧ (Settled ⟨builder,clock,reply,after⟩ →
      Raises lastMark BitVec.toInt ⟨builder,clock,reply,after⟩) := by
  cases step with
  | refused timestamp rest message read behind =>
    subst read
    refine ⟨⟨sound.worker,by simp,sound.last,fun reading member => sound.clock reading (by simp [member])⟩,?_⟩
    intro settled
    have zero : builder.sequence = 0 := settled timestamp rfl behind
    simp [Raises,lastMark,zero]
  | built skipped timestamp sequence rest read ahead fresh =>
    subst read
    have inRange : InRange snsEpoch timestamp := sound.clock timestamp (by simp)
    have sequenceFits : sequence.toNat < 2^12 := by
      rcases fresh with ⟨_,rfl⟩ | ⟨_,_,small⟩
      · simp
      · exact small
    have value := toInt_of_fields inRange sound.worker sequenceFits
      (pack_toNat sound inRange sequenceFits)
    refine ⟨⟨sound.worker,sequenceFits,.inr inRange,fun reading member => sound.clock reading (by simp [member])⟩,?_⟩
    intro _
    refine ⟨?_,value.symm⟩
    dsimp only
    rw [value]
    rcases fresh with ⟨later,rfl⟩ | ⟨same,next,_⟩
    · exact mark_later builder.workerId.toNat _ sound.sequence (by omega)
    · rw [← same]
      exact mark_next _ builder.workerId.toNat (by omega)

def Unchanged (call : Call IdBuilder Long String Long) : Prop :=
  ∀ message, call.reply = .error message →
    call.after.sequence = call.before.sequence ∧
      call.after.lastTimestamp = call.before.lastTimestamp

private theorem unchanged_iff {builder after : IdBuilder} {clock rest : List Long}
    {reply : Except String Long} (step : Step builder clock reply after rest) :
    Unchanged ⟨builder,clock,reply,after⟩ ↔ Settled ⟨builder,clock,reply,after⟩ := by
  cases step with
  | refused timestamp rest message read behind =>
    subst read
    constructor
    · intro unchanged reading first _
      exact (unchanged message rfl).1.symm
    · intro settled fault _
      exact ⟨(settled timestamp rfl behind).symm,rfl⟩
  | built skipped timestamp sequence rest read ahead fresh =>
    constructor
    · intro _ reading first behind
      exact absurd behind (not_lt.mpr (ahead reading first))
    · intro _ message failed
      contradiction

theorem run_unchanged_iff {workerId : Long} {builder : IdBuilder}
    (accepted : new workerId = .ok builder) {clock : List Long}
    (inRange : ∀ reading ∈ clock, InRange snsEpoch reading) (n : ℕ) :
    ∀ call ∈ run n builder clock, (Unchanged call ↔ Settled call) ∧
      (Settled call → Raises lastMark BitVec.toInt call) := by
  refine calls_all nextId Sound (fun _ => True) _ ?_ n builder clock
    (new_sound accepted inRange) (by simp)
  intro builder clock reply after rest sound done _
  have step := nextId_step sound.sequence done
  obtain ⟨next,raises⟩ := step_raises sound step
  exact ⟨⟨unchanged_iff step,raises⟩,next⟩

/-- Identifiers are distinct and increasing and refused calls change nothing
exactly in the runs whose clock moves backwards only at sequence zero. -/
theorem run_identifiers_iff (workerId : Long) (builder : IdBuilder)
    (accepted : new workerId = .ok builder) (clock : List Long)
    (inRange : ∀ reading ∈ clock, InRange snsEpoch reading) (n : ℕ) :
    ((issued (run n builder clock)).Nodup ∧
      (issued (run n builder clock)).Pairwise (fun first second => first.slt second = true) ∧
      ∀ call ∈ run n builder clock, Unchanged call) ↔
    ∀ call ∈ run n builder clock, Settled call := by
  have each := run_unchanged_iff accepted inRange n
  constructor
  · intro kept call made
    obtain ⟨_,_,unchanged⟩ := kept
    exact (each call made).1.mp (unchanged call made)
  · intro settled
    have increasing := (issued_increasing nextId lastMark BitVec.toInt n builder clock
      fun call made => (each call made).2 (settled call made)).2
    refine ⟨?_,increasing.imp fun less => BitVec.slt_iff_toInt_lt.mpr less,?_⟩
    · exact increasing.imp fun less same => by simp [same] at less
    · exact fun call made => (each call made).1.mpr (settled call made)

theorem run_identifiers_iff_seven :
    let made := run 3 {workerId := 7} [1330328109050,1330328109050,1330328109051]
    (issued made).Nodup ∧
      (issued made).Pairwise (fun first second => first.slt second = true) ∧
      ∀ call ∈ made, Unchanged call :=
  (run_identifiers_iff 7 {workerId := 7} (by decide)
    [1330328109050,1330328109050,1330328109051] (by simp [InRange,snsEpoch]) 3).mpr
    (by decide +kernel)

/-- Two identifiers in one millisecond, a reading behind it and the same
millisecond again: the second identifier is handed out twice. -/
theorem run_repeats :
    let clock : List Long := [1330328109050,1330328109050,1330328109049,1330328109050]
    ¬ ((issued (run 4 {workerId := 7} clock)).Nodup ∧
      (issued (run 4 {workerId := 7} clock)).Pairwise
        (fun first second => first.slt second = true) ∧
      ∀ call ∈ run 4 {workerId := 7} clock, Unchanged call) := by
  have handed : issued (run 4 {workerId := 7}
      [1330328109050,1330328109050,1330328109049,1330328109050]) =
      [12611584,12611585,12611585] := by decide +kernel
  intro clock held
  rw [show clock = _ from rfl,handed] at held
  exact absurd held.1 (by decide)

end IdBuilder
end YzFramework.Unique

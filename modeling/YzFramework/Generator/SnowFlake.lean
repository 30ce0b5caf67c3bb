import YzFramework.Generator.Stamp
import YzFramework.Library.Clocked

/-! `SnowFlake`: 64-bit identifiers from a clock, two node fields and a sequence.
Words are Java longs; the clock is the list of `currentTimeMillis` readings. -/
namespace YzFramework.Generator
open Library.Word Library.Clocked

namespace SnowFlake

def startStmp : Long := 1480166465631
def sequenceBit : Nat := 12
def machineBit : Nat := 5
def datacenterBit : Nat := 5
def maxDatacenterNum : Long := -1 ^^^ (-1 <<< datacenterBit)
def maxMachineNum : Long := -1 ^^^ (-1 <<< machineBit)
def maxSequence : Long := -1 ^^^ (-1 <<< sequenceBit)
def machineLeft : Nat := sequenceBit
def datacenterLeft : Nat := sequenceBit + machineBit
def timestmpLeft : Nat := datacenterLeft + datacenterBit

end SnowFlake

structure SnowFlake where
  datacenterId : Long
  machineId : Long
  sequence : Long := 0
  lastStmp : Long := -1
deriving DecidableEq

namespace SnowFlake

def new (datacenterId machineId : Long) : Except String SnowFlake :=
  if maxDatacenterNum.slt datacenterId || datacenterId.slt 0 then
    .error "datacenterId can't be greater than MAX_DATACENTER_NUM or less than 0"
  else if maxMachineNum.slt machineId || machineId.slt 0 then
    .error "machineId can't be greater than MAX_MACHINE_NUM or less than 0"
  else .ok {datacenterId,machineId}

/-- `getNextMill`: read on while the clock has not passed `lastStmp`. -/
def getNextMill (lastStmp : Long) (clock : List Long) : Option (Long × List Long) :=
  readUntil (fun mill => !mill.sle lastStmp) clock

def pack (currStmp datacenterId machineId sequence : Long) : Long :=
  (currStmp - startStmp) <<< timestmpLeft ||| datacenterId <<< datacenterLeft |||
    machineId <<< machineLeft ||| sequence

def nextId (flake : SnowFlake) : List Long → Option (Except String Long × SnowFlake × List Long)
  | [] => none
  | currStmp::rest =>
    if currStmp.slt flake.lastStmp then
      some (.error "Clock moved backwards.  Refusing to generate id",flake,rest)
    else do
      let (sequence,currStmp,rest) ←
        if currStmp == flake.lastStmp then
          let sequence := (flake.sequence + 1) &&& maxSequence
          if sequence == 0 then
            (getNextMill flake.lastStmp rest).map fun (mill,rest) => (sequence,mill,rest)
          else some (sequence,currStmp,rest)
        else some (0,currStmp,rest)
      some (.ok (pack currStmp flake.datacenterId flake.machineId sequence),
        {flake with sequence,lastStmp := currStmp},rest)

def run (n : Nat) (flake : SnowFlake) (clock : List Long) : List (Call SnowFlake Long String Long) :=
  calls nextId n flake clock

structure Decodes (flake : SnowFlake) (id : Long) : Prop where
  timestamp : (id >>> timestmpLeft) + startStmp = flake.lastStmp
  datacenter : (id >>> datacenterLeft) &&& maxDatacenterNum = flake.datacenterId
  machine : (id >>> machineLeft) &&& maxMachineNum = flake.machineId
  sequence : id &&& maxSequence = flake.sequence

/-- The invariant of an instance; `lastStmp` is -1 before the first identifier. -/
structure Sound (flake : SnowFlake) (clock : List Long) : Prop where
  datacenter : flake.datacenterId.toNat < 2^5
  machine : flake.machineId.toNat < 2^5
  sequence : flake.sequence.toNat < 2^12
  last : flake.lastStmp = -1 ∨ InRange startStmp flake.lastStmp
  clock : ∀ reading ∈ clock, InRange startStmp reading

def node (flake : SnowFlake) : ℕ := flake.datacenterId.toNat * 2^5 + flake.machineId.toNat

def lastMark (flake : SnowFlake) : ℤ :=
  mark (flake.lastStmp.toInt - startStmp.toInt) flake.node flake.sequence.toNat

theorem new_sound {datacenterId machineId : Long} {flake : SnowFlake} {clock : List Long}
    (accepted : new datacenterId machineId = .ok flake)
    (inRange : ∀ reading ∈ clock, InRange startStmp reading) :
    Sound flake clock ∧ flake = {datacenterId,machineId} := by
  unfold new at accepted
  split at accepted
  next => contradiction
  next datacenterOk =>
    split at accepted
    next => contradiction
    next machineOk =>
      cases Except.ok.inj accepted
      exact ⟨⟨five_bits datacenterOk,five_bits machineOk,by simp,.inl rfl,inRange⟩,rfl⟩

theorem getNextMill_spec {lastStmp mill : Long} {clock rest : List Long}
    (found : getNextMill lastStmp clock = some (mill,rest)) :
    lastStmp.toInt < mill.toInt ∧ ∃ skipped, clock = skipped++mill::rest := by
  obtain ⟨passed,split⟩ := readUntil_some found
  refine ⟨?_,split⟩
  have above : ¬ mill.sle lastStmp = true := by simpa using passed
  simpa only [BitVec.sle_iff_toInt_le,not_le] using above

/-- The two outcomes of a completed call: a refusal that changes nothing, or an
identifier built from a later reading or from the next sequence number. -/
inductive Step (flake : SnowFlake) (clock : List Long) :
    Except String Long → SnowFlake → List Long → Prop
  | refused (currStmp : Long) (rest : List Long) (message : String)
      (read : clock = currStmp::rest) (behind : currStmp.toInt < flake.lastStmp.toInt) :
      Step flake clock (.error message) flake rest
  | built (skipped : List Long) (currStmp sequence : Long) (rest : List Long)
      (read : clock = skipped++currStmp::rest)
      (fresh : flake.lastStmp.toInt < currStmp.toInt ∧ sequence = 0 ∨
        flake.lastStmp = currStmp ∧ sequence.toNat = flake.sequence.toNat + 1 ∧
          sequence.toNat < 2^12) :
      Step flake clock (.ok (pack currStmp flake.datacenterId flake.machineId sequence))
        {flake with sequence,lastStmp := currStmp} rest

theorem nextSequence (sequence : Long) :
    ((sequence + 1) &&& maxSequence).toNat = (sequence.toNat + 1) % 2^12 := by
  rw [masked_toNat _ _ 12 (by decide),BitVec.toNat_add]
  simp only [show (1 : Long).toNat = 1 by decide]
  omega

theorem nextId_step {flake after : SnowFlake} {clock rest : List Long}
    {reply : Except String Long} (small : flake.sequence.toNat < 2^12)
    (done : nextId flake clock = some (reply,after,rest)) :
    Step flake clock reply after rest := by
  cases clock with
  | nil => simp [nextId] at done
  | cons currStmp later =>
    simp only [nextId] at done
    split at done
    next behind =>
      cases Option.some.inj done
      exact .refused currStmp _ _ rfl (BitVec.slt_iff_toInt_lt.mp behind)
    next notBehind =>
      rw [not_slt] at notBehind
      split at done
      next same =>
        have same : currStmp = flake.lastStmp := by simpa using same
        split at done
        next exhausted =>
          cases found : getNextMill flake.lastStmp later with
          | none => simp [found] at done
          | some result =>
            obtain ⟨mill,unread⟩ := result
            obtain ⟨passed,skipped,split⟩ := getNextMill_spec found
            -- The sequence has wrapped to zero in a later millisecond.
            have wrapped : (flake.sequence + 1) &&& maxSequence = 0 := by simpa using exhausted
            rw [found,wrapped] at done
            cases Option.some.inj done
            exact .built (currStmp::skipped) mill 0 unread (by rw [split]; rfl) (.inl ⟨passed,rfl⟩)
        next more =>
          cases done
          have next := nextSequence flake.sequence
          have nonzero : ((flake.sequence + 1) &&& maxSequence).toNat ≠ 0 := by
            intro zero
            exact more (by simpa using BitVec.eq_of_toNat_eq zero)
          exact .built [] currStmp ((flake.sequence + 1) &&& maxSequence) _ rfl
            (.inr ⟨same.symm,by omega,by omega⟩)
      next different =>
        cases done
        have distinct : currStmp ≠ flake.lastStmp := by simpa using different
        have moved : flake.lastStmp.toInt ≠ currStmp.toInt := fun equal =>
          distinct (BitVec.toInt_inj.mp equal).symm
        exact .built [] currStmp 0 _ rfl (.inl ⟨lt_of_le_of_ne notBehind moved,rfl⟩)

private theorem datacenter_field {flake : SnowFlake} (small : flake.datacenterId.toNat < 2^5) :
    (flake.datacenterId <<< datacenterLeft).toNat = flake.datacenterId.toNat * 2^17 :=
  shifted_toNat flake.datacenterId 17 (by omega)

private theorem machine_field {flake : SnowFlake} (small : flake.machineId.toNat < 2^5) :
    (flake.machineId <<< machineLeft).toNat = flake.machineId.toNat * 2^12 :=
  shifted_toNat flake.machineId 12 (by omega)

theorem pack_toNat {flake : SnowFlake} {clock : List Long} {currStmp sequence : Long}
    (sound : Sound flake clock) (inRange : InRange startStmp currStmp)
    (sequenceFits : sequence.toNat < 2^12) :
    (pack currStmp flake.datacenterId flake.machineId sequence).toNat =
      (currStmp - startStmp).toNat * 2^22 + flake.node * 2^12 + sequence.toNat := by
  have datacenter := datacenter_field sound.datacenter
  have machine := machine_field sound.machine
  have datacenterFits := sound.datacenter
  have machineFits := sound.machine
  have nodes : (flake.datacenterId <<< datacenterLeft ||| flake.machineId <<< machineLeft).toNat =
      flake.datacenterId.toNat * 2^17 + flake.machineId.toNat * 2^12 := by
    rw [or_aligned_toNat _ _ 17 (by rw [datacenter]; exact Nat.dvd_mul_left _ _)
      (by rw [machine]; omega),datacenter,machine]
  have layout := fields_toNat (flake.datacenterId <<< datacenterLeft |||
    flake.machineId <<< machineLeft) inRange (by rw [nodes]; omega) (by rw [nodes]; omega)
    sequenceFits
  rw [nodes] at layout
  unfold pack node
  rw [BitVec.or_assoc ((currStmp - startStmp) <<< timestmpLeft)]
  exact layout.trans (by ring)

theorem pack_decodes {flake : SnowFlake} {clock : List Long} {currStmp sequence : Long}
    (sound : Sound flake clock) (inRange : InRange startStmp currStmp)
    (sequenceFits : sequence.toNat < 2^12) :
    Decodes {flake with sequence,lastStmp := currStmp}
      (pack currStmp flake.datacenterId flake.machineId sequence) := by
  have layout := pack_toNat sound inRange sequenceFits
  have datacenterFits := sound.datacenter
  have machineFits := sound.machine
  unfold node at layout
  refine ⟨?_,?_,?_,?_⟩
  · have elapsed : pack currStmp flake.datacenterId flake.machineId sequence >>> timestmpLeft =
        currStmp - startStmp := by
      apply BitVec.eq_of_toNat_eq
      rw [shifted_right_toNat,layout,show timestmpLeft = 22 from rfl]
      omega
    rw [elapsed,BitVec.sub_add_cancel]
  · apply BitVec.eq_of_toNat_eq
    rw [masked_toNat _ _ 5 (by decide),shifted_right_toNat,layout,
      show datacenterLeft = 17 from rfl]
    dsimp only
    omega
  · apply BitVec.eq_of_toNat_eq
    rw [masked_toNat _ _ 5 (by decide),shifted_right_toNat,layout,show machineLeft = 12 from rfl]
    dsimp only
    omega
  · apply BitVec.eq_of_toNat_eq
    rw [masked_toNat _ _ 12 (by decide),layout]
    dsimp only
    omega

structure Kept (call : Call SnowFlake Long String Long) : Prop where
  raises : Raises lastMark BitVec.toInt call
  decodes : ∀ id, call.reply = .ok id → Decodes call.after id ∧ call.after.lastStmp ∈ call.clock
  refused : ∀ message, call.reply = .error message → call.after = call.before
  node : call.after.datacenterId = call.before.datacenterId ∧
    call.after.machineId = call.before.machineId

theorem step_kept {flake after : SnowFlake} {clock rest : List Long} {reply : Except String Long}
    (sound : Sound flake clock) (step : Step flake clock reply after rest) :
    Kept ⟨flake,clock,reply,after⟩ ∧ Sound after rest := by
  cases step with
  | refused currStmp rest message read behind =>
    subst read
    refine ⟨⟨rfl,by simp,by simp,rfl,rfl⟩,sound.datacenter,sound.machine,sound.sequence,sound.last,?_⟩
    exact fun reading member => sound.clock reading (by simp [member])
  | built skipped currStmp sequence rest read fresh =>
    subst read
    have inRange : InRange startStmp currStmp := sound.clock currStmp (by simp)
    have sequenceFits : sequence.toNat < 2^12 := by
      rcases fresh with ⟨_,rfl⟩ | ⟨_,_,small⟩
      · simp
      · exact small
    have nodeFits : flake.node < 2^10 := by
      have := sound.datacenter
      have := sound.machine
      unfold node
      omega
    have value := toInt_of_fields inRange nodeFits sequenceFits
      (pack_toNat sound inRange sequenceFits)
    refine ⟨⟨⟨?_,value.symm⟩,?_,by simp,rfl,rfl⟩,
      sound.datacenter,sound.machine,sequenceFits,.inr inRange,?_⟩
    · dsimp only
      rw [value]
      rcases fresh with ⟨later,rfl⟩ | ⟨same,next,_⟩
      · exact mark_later flake.node _ sound.sequence (by omega)
      · rw [← same]
        exact mark_next _ flake.node (by omega)
    · intro id same
      cases Except.ok.inj same
      exact ⟨pack_decodes sound inRange sequenceFits,by simp⟩
    · exact fun reading member => sound.clock reading (by simp [member])

theorem run_kept {datacenterId machineId : Long} {flake : SnowFlake}
    (accepted : new datacenterId machineId = .ok flake) {clock : List Long}
    (inRange : ∀ reading ∈ clock, InRange startStmp reading) (n : ℕ) :
    ∀ call ∈ run n flake clock, Kept call ∧
      call.after.datacenterId = datacenterId ∧ call.after.machineId = machineId := by
  obtain ⟨sound,fresh⟩ := new_sound accepted inRange
  refine calls_all nextId (fun flake clock => Sound flake clock ∧
    flake.datacenterId = datacenterId ∧ flake.machineId = machineId) (fun _ => True) _ ?_ n flake
    clock ⟨sound,by rw [fresh],by rw [fresh]⟩ (by simp)
  intro flake clock reply after rest held done _
  obtain ⟨sound,datacenter,machine⟩ := held
  obtain ⟨kept,next⟩ := step_kept sound (nextId_step sound.sequence done)
  have same := kept.node
  rw [datacenter,machine] at same
  exact ⟨⟨kept,same⟩,next,same⟩

theorem issued_node {datacenterId machineId : Long} {flake : SnowFlake}
    (accepted : new datacenterId machineId = .ok flake) {clock : List Long}
    (inRange : ∀ reading ∈ clock, InRange startStmp reading) {n : ℕ} {id : Long}
    (member : id ∈ issued (run n flake clock)) :
    (id >>> datacenterLeft) &&& maxDatacenterNum = datacenterId ∧
      (id >>> machineLeft) &&& maxMachineNum = machineId := by
  obtain ⟨call,made,reply⟩ := mem_issued.mp member
  obtain ⟨kept,datacenter,machine⟩ := run_kept accepted inRange n call made
  obtain ⟨decoded,_⟩ := kept.decodes id reply
  exact ⟨decoded.datacenter.trans datacenter,decoded.machine.trans machine⟩

/-- Identifiers increase in call order whatever the clock does, read back as
their fields, are not affected by refused calls and never meet those of an
instance with another node. -/
theorem run_identifiers (datacenterId machineId : Long) (flake : SnowFlake)
    (accepted : new datacenterId machineId = .ok flake) (clock : List Long)
    (inRange : ∀ reading ∈ clock, InRange startStmp reading) (n : ℕ) :
    (issued (run n flake clock)).Pairwise (fun first second => first.slt second = true) ∧
    (∀ call ∈ run n flake clock, ∀ id, call.reply = .ok id →
      Decodes call.after id ∧ call.after.lastStmp ∈ call.clock ∧
        call.after.datacenterId = datacenterId ∧ call.after.machineId = machineId) ∧
    (∀ call ∈ run n flake clock, ∀ message, call.reply = .error message →
      call.after = call.before) ∧
    ∀ (otherDatacenter otherMachine : Long) (other : SnowFlake),
      new otherDatacenter otherMachine = .ok other →
      (otherDatacenter,otherMachine) ≠ (datacenterId,machineId) →
      ∀ otherClock : List Long, (∀ reading ∈ otherClock, InRange startStmp reading) →
      ∀ m : ℕ, ∀ id ∈ issued (run n flake clock), ∀ otherId ∈ issued (run m other otherClock),
        id ≠ otherId := by
  have kept := run_kept accepted inRange n
  refine ⟨?_,?_,?_,?_⟩
  · have increasing := (issued_increasing nextId lastMark BitVec.toInt n flake clock
      fun call made => (kept call made).1.raises).2
    exact increasing.imp fun less => BitVec.slt_iff_toInt_lt.mpr less
  · intro call made id reply
    obtain ⟨decoded,stamped⟩ := (kept call made).1.decodes id reply
    exact ⟨decoded,stamped,(kept call made).2⟩
  · exact fun call made message reply => (kept call made).1.refused message reply
  · intro otherDatacenter otherMachine other otherAccepted different otherClock otherInRange m id member
      otherId otherMember same
    subst same
    obtain ⟨datacenter,machine⟩ := issued_node accepted inRange member
    obtain ⟨otherDatacenterSame,otherMachineSame⟩ := issued_node otherAccepted otherInRange otherMember
    exact different (by rw [← datacenter,← machine,otherDatacenterSame,otherMachineSame])

theorem run_identifiers_two_three :
    let clock : List Long := [1480166465700,1480166465700,1480166465699,1480166465701]
    (issued (run 4 {datacenterId := 2,machineId := 3} clock)).length = 3 ∧
    (issued (run 4 {datacenterId := 2,machineId := 3} clock)).Pairwise
      (fun first second => first.slt second = true) :=
  ⟨by decide +kernel,(run_identifiers 2 3 {datacenterId := 2,machineId := 3} (by decide)
    [1480166465700,1480166465700,1480166465699,1480166465701]
    (by simp [InRange,startStmp]) 4).1⟩

end SnowFlake
end YzFramework.Generator

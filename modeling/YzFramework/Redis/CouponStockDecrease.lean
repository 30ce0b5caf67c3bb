import YzFramework.Redis.Commands

/-! `atomicDecreaseForCoupon` and coupon_stock_decrease.lua: the stock of a channel
and what each person may still take. An error after the first write leaves the
stock without what nobody was granted. -/
namespace YzFramework.Redis
open Library Library.Store Library.Script

/-- `redis.call('SET', key, perPersonLimit - increment, 'EX', ttl, 'NX')` -/
def setRemaining (engine : Engine) (key : String) (perPersonLimit increment ttl : Option Number) :
    Script Database Bool := do
  let remaining ← minus perPersonLimit increment
  let value ← argument engine (some remaining)
  let seconds ← argument engine ttl
  setExNx engine key value seconds

def couponStockDecrease (engine : Engine) (stock counter increment perPersonLimit ttl : String) :
    Script Database String := do
  let currentChannelStock ← get stock
  let personRemainingcount ← get counter
  match currentChannelStock with
  | none => return "NOKEY"
  | some currentChannelStock =>
    let currentStockNum := engine.tonumber currentChannelStock
    let increment := engine.tonumber increment
    let perPersonLimit := engine.tonumber perPersonLimit
    let ttl := engine.tonumber ttl
    match personRemainingcount with
    | some personRemainingcount =>
      let personRemainingcount := engine.tonumber personRemainingcount
      if ← enough personRemainingcount increment then
        if ← enough currentStockNum increment then
          let _ ← decrease engine stock increment
          let _ ← decrease engine counter increment
          return "OK"
        else return "NO"
      else return "LIMIT"
    | none =>
      if ← enough currentStockNum increment then
        let _ ← decrease engine stock increment
        let _ ← setRemaining engine counter perPersonLimit increment ttl
        return "OK"
      else return "NO"

/-- `Integer.parseInt` with its `NumberFormatException`. -/
def parsed (parseInt : String → Option ℤ) (text : String) : Except String ℤ :=
  match parseInt text with
  | some n => .ok n
  | none => .error ("For input string: \""++text++"\"")

def atomicDecreaseForCoupon (engine : Engine) (parseInt : String → Option ℤ) (keys : List String)
    (increment perPersonLimit ttl : String) : Script Database (Option String) := do
  let taken ← parsed parseInt increment
  let limit ← parsed parseInt perPersonLimit
  if taken > limit then return none
  else
    match keys with
    | [stock,counter] => do
      let result ← couponStockDecrease engine stock counter increment perPersonLimit ttl
      return some result
    | _ => return none

namespace CouponStockDecrease

def Lasts (engine : Engine) (ttl : Option Number) : Prop :=
  ∃ number, ttl = some number ∧ ∃ seconds, readInteger (engine.tostring number) = some seconds ∧
    0 < seconds ∧ engine.expires seconds = true

/-- The write after the decrement of the stock by `delta` raises an error. -/
def SecondFails (engine : Engine) (store : Database) (stock counter increment perPersonLimit ttl : String)
    (delta : ℤ) : Prop :=
  match store counter with
  | none => engine.tonumber perPersonLimit = none ∨ ¬ Lasts engine (engine.tonumber ttl)
  | some (.string person) =>
    enough (engine.tonumber person.value) (engine.tonumber increment) = .ok true ∧
      ∀ remaining, readInteger person.value = some remaining →
        ¬ InRange (remaining+if counter = stock then delta+delta else delta)
  | some .collection => False

def Leaks (engine : Engine) (store : Database) (stock counter increment perPersonLimit ttl : String) : Prop :=
  ∃ entry delta n, store stock = some (.string entry) ∧ Sells engine entry.value increment delta ∧
    readInteger entry.value = some n ∧ InRange (n+delta) ∧ delta ≠ 0 ∧
      SecondFails engine store stock counter increment perPersonLimit ttl delta

/-- Without success the keys are as they were. -/
def Atomic {Reply : Type} (success : Reply) (keys : List String) (script : Script Database Reply)
    (store : Database) : Prop :=
  (script store).1 ≠ .ok success → ∀ key ∈ keys, (script store).2 key = store key

variable {engine : Engine} {store : Database} {stock counter increment perPersonLimit ttl : String}
  {entry person : Entry} {delta n : ℤ}

theorem setExNx_sets {value seconds : String} {lasting : ℤ} (read : readInteger seconds = some lasting)
    (positive : 0 < lasting) (expires : engine.expires lasting = true) (absent : store counter = none) :
    setExNx engine counter value seconds store =
      (.ok true,put store counter (.string ⟨value,some (1000*lasting)⟩)) := by
  simp [setExNx,read,not_le.mpr positive,expires,absent]

theorem setExNx_refuses {value seconds : String} (unfit : ∀ lasting, readInteger seconds = some lasting →
      0 < lasting → engine.expires lasting = false) :
    ∃ fault, setExNx engine counter value seconds store = (.error fault,store) := by
  unfold setExNx
  split
  next => exact ⟨_,rfl⟩
  next lasting read =>
    have refused : lasting ≤ 0 ∨ engine.expires lasting = false := by
      rcases le_or_gt lasting 0 with none | positive
      · exact .inl none
      · exact .inr (unfit lasting read positive)
    exact ⟨_,if_pos refused⟩

theorem first_purchase (found : store stock = some (.string entry)) (absent : store counter = none) :
    couponStockDecrease engine stock counter increment perPersonLimit ttl store =
      sell engine stock (engine.tonumber entry.value) (engine.tonumber increment)
        (setRemaining engine counter (engine.tonumber perPersonLimit) (engine.tonumber increment)
          (engine.tonumber ttl)) store :=
  (bind_ok _ (get_string found)).trans (bind_ok _ (get_none absent))

theorem later_purchase (found : store stock = some (.string entry))
    (known : store counter = some (.string person))
    (covered : enough (engine.tonumber person.value) (engine.tonumber increment) = .ok true) :
    couponStockDecrease engine stock counter increment perPersonLimit ttl store =
      sell engine stock (engine.tonumber entry.value) (engine.tonumber increment)
        (decrease engine counter (engine.tonumber increment)) store := by
  refine (bind_ok _ (get_string found)).trans ((bind_ok _ (get_string known)).trans ?_)
  dsimp only
  rw [covered]
  exact bind_lift_ok _

theorem setRemaining_sets (limit taken : Number) {ttl : Option Number} (lasts : Lasts engine ttl)
    (absent : store counter = none) : ∃ px,
    setRemaining engine counter (some limit) (some taken) ttl store =
      (.ok true,put store counter (.string ⟨engine.tostring (limit.sub taken),px⟩)) := by
  obtain ⟨number,rfl,seconds,read,positive,expires⟩ := lasts
  exact ⟨_,setExNx_sets read positive expires absent⟩

theorem setRemaining_refuses (store : Database) (counter : String) (limit taken : Option Number)
    {ttl : Option Number} (unfit : limit = none ∨ ¬ Lasts engine ttl) :
    ∃ fault, setRemaining engine counter limit taken ttl store = (.error fault,store) := by
  cases limit with
  | none => exact ⟨_,rfl⟩
  | some limit =>
    cases taken with
    | none => exact ⟨_,rfl⟩
    | some taken =>
      cases ttl with
      | none => exact ⟨_,rfl⟩
      | some number =>
        apply setExNx_refuses
        intro seconds read positive
        have refused := unfit.resolve_left (by simp)
        apply eq_false_of_ne_true
        intro expires
        exact refused ⟨number,rfl,seconds,read,positive,expires⟩

theorem put_same {n : ℤ} (found : store stock = some (.string entry))
    (read : readInteger entry.value = some n) :
    put store stock (.string ⟨toString n,entry.px⟩) = store := by
  rw [put,← (readInteger_eq read).1]
  exact Function.update_eq_self_iff.mpr found.symm

theorem put_moved (found : store stock = some (.string entry))
    (read : readInteger entry.value = some n) (moves : delta ≠ 0) :
    put store stock (.string ⟨toString (n+delta),entry.px⟩) stock ≠ store stock := by
  rw [put_apply,if_pos rfl,found]
  intro same
  simp only [Option.some.injEq,Held.string.injEq] at same
  have text : toString (n+delta) = toString n := by
    rw [← (readInteger_eq read).1]
    exact congrArg Entry.value same
  have := Int.repr_injective text
  omega

theorem sell_atomic_iff {Reply : Type} {next : Script Database Reply} {fails : ℤ → Prop}
    (found : store stock = some (.string entry))
    (failing : ∀ delta n, readInteger entry.value = some n → InRange (n+delta) →
      Sells engine entry.value increment delta → fails delta → ∃ fault,
        next (put store stock (.string ⟨toString (n+delta),entry.px⟩)) =
          (.error fault,put store stock (.string ⟨toString (n+delta),entry.px⟩)))
    (passing : ∀ delta n, readInteger entry.value = some n → InRange (n+delta) →
      Sells engine entry.value increment delta → ¬ fails delta → ∃ reply after,
        next (put store stock (.string ⟨toString (n+delta),entry.px⟩)) = (.ok reply,after)) :
    Atomic "OK" [stock,counter]
        (sell engine stock (engine.tonumber entry.value) (engine.tonumber increment) next) store ↔
    ¬ ∃ delta n, Sells engine entry.value increment delta ∧ readInteger entry.value = some n ∧
      InRange (n+delta) ∧ delta ≠ 0 ∧ fails delta := by
  by_cases sold : ∃ delta n, Sells engine entry.value increment delta ∧
      readInteger entry.value = some n ∧ InRange (n+delta)
  · obtain ⟨delta,n,sells,read,fits⟩ := sold
    by_cases failed : fails delta
    · obtain ⟨fault,raised⟩ := failing delta n read fits sells failed
      rw [Atomic,sell_sells _ found sells read fits raised]
      simp only [Except.map]
      constructor
      · intro kept leak
        obtain ⟨other,m,sells',read',_,moves,_⟩ := leak
        cases Option.some.inj (sells'.2.symm.trans sells.2)
        exact put_moved found read moves (kept (by simp) stock (by simp))
      · intro sound _ key _
        have still : delta = 0 := by
          by_contra moves
          exact sound ⟨delta,n,sells,read,fits,moves,failed⟩
        subst still
        rw [add_zero,put_same found read]
    · obtain ⟨reply,after,ran⟩ := passing delta n read fits sells failed
      rw [Atomic,sell_sells _ found sells read fits ran]
      apply iff_of_true fun unsuccessful => absurd rfl unsuccessful
      intro leak
      obtain ⟨other,m,sells',_,_,_,fails'⟩ := leak
      cases Option.some.inj (sells'.2.symm.trans sells.2)
      exact failed fails'
  · obtain ⟨answer,_,ran⟩ := sell_refuses next found fun delta n sells read fits =>
      sold ⟨delta,n,sells,read,fits⟩
    rw [Atomic,ran]
    apply iff_of_true fun _ _ _ => rfl
    intro leak
    obtain ⟨delta,n,sells,read,fits,_⟩ := leak
    exact sold ⟨delta,n,sells,read,fits⟩

private theorem leaks_iff (found : store stock = some (.string entry)) :
    Leaks engine store stock counter increment perPersonLimit ttl ↔
      ∃ delta n, Sells engine entry.value increment delta ∧ readInteger entry.value = some n ∧
        InRange (n+delta) ∧ delta ≠ 0 ∧
          SecondFails engine store stock counter increment perPersonLimit ttl delta := by
  constructor
  · intro leak
    obtain ⟨other,rest⟩ := leak
    obtain ⟨delta,n,same,moved⟩ := rest
    cases found.symm.trans same
    exact ⟨delta,n,moved⟩
  · intro leak
    obtain ⟨delta,n,moved⟩ := leak
    exact ⟨entry,delta,n,found,moved⟩

private theorem first_atomic_iff (found : store stock = some (.string entry)) (absent : store counter = none) :
    Atomic "OK" [stock,counter]
      (couponStockDecrease engine stock counter increment perPersonLimit ttl) store ↔
    ¬ Leaks engine store stock counter increment perPersonLimit ttl := by
  have fails : ∀ delta, SecondFails engine store stock counter increment perPersonLimit ttl delta ↔
      engine.tonumber perPersonLimit = none ∨ ¬ Lasts engine (engine.tonumber ttl) := fun delta => by
    simp only [SecondFails,absent]
  have different : counter ≠ stock := fun same => by
    rw [same,found] at absent
    cases absent
  rw [Atomic,first_purchase found absent,leaks_iff found]
  apply sell_atomic_iff found
  · intro delta n _ _ _ failed
    exact setRemaining_refuses _ _ _ _ ((fails delta).mp failed)
  · intro delta n _ _ sells passed
    rw [fails,not_or,not_not] at passed
    obtain ⟨taken,read,_⟩ := Option.bind_eq_some_iff.mp sells.2
    obtain ⟨limit,known⟩ := Option.ne_none_iff_exists'.mp passed.1
    rw [read,known]
    have unmoved : put store stock (.string ⟨toString (n+delta),entry.px⟩) counter = none := by
      rw [put_apply,if_neg different,absent]
    obtain ⟨px,set⟩ := setRemaining_sets limit taken passed.2 unmoved
    exact ⟨_,_,set⟩

/-- With one key for both, the second decrement finds what the first one wrote. -/
theorem counted_second (found : store stock = some (.string entry))
    (known : store counter = some (.string person)) {delta n m : ℤ}
    (read : readInteger entry.value = some n) (fits : InRange (n+delta)) :
    counted (put store stock (.string ⟨toString (n+delta),entry.px⟩)) counter = .ok m ↔
      ∃ remaining, readInteger person.value = some remaining ∧
        m = remaining+if counter = stock then delta else 0 := by
  by_cases same : counter = stock
  · subst same
    cases found.symm.trans known
    rw [counted_string (by rw [put_apply,if_pos rfl]),readInteger_toString fits,read]
    simp [eq_comm]
  · have unmoved : put store stock (.string ⟨toString (n+delta),entry.px⟩) counter =
        some (.string person) := by rw [put_apply,if_neg same,known]
    rw [counted_string unmoved]
    simp [same]

private theorem later_atomic_iff (found : store stock = some (.string entry))
    (known : store counter = some (.string person))
    (covered : enough (engine.tonumber person.value) (engine.tonumber increment) = .ok true) :
    Atomic "OK" [stock,counter]
      (couponStockDecrease engine stock counter increment perPersonLimit ttl) store ↔
    ¬ Leaks engine store stock counter increment perPersonLimit ttl := by
  have fails : ∀ delta, SecondFails engine store stock counter increment perPersonLimit ttl delta ↔
      ∀ remaining, readInteger person.value = some remaining →
        ¬ InRange (remaining+if counter = stock then delta+delta else delta) := fun delta => by
    simp only [SecondFails,known,covered,true_and]
  rw [Atomic,later_purchase found known covered,leaks_iff found]
  apply sell_atomic_iff found
  · intro delta n read fits sells failed
    apply decrease_refuses
    intro change m moved present
    cases Option.some.inj (moved.symm.trans sells.2)
    obtain ⟨remaining,text,rfl⟩ := (counted_second found known read fits).mp present
    have outside := (fails delta).mp failed remaining text
    split at outside
    · rwa [if_pos ‹_›,add_assoc]
    · rwa [if_neg ‹_›,add_zero]
  · intro delta n read fits sells passed
    rw [fails] at passed
    push Not at passed
    obtain ⟨remaining,text,inside⟩ := passed
    have present := (counted_second found known read fits).mpr ⟨remaining,text,rfl⟩
    refine ⟨_,_,decrease_adds sells.2 present ?_⟩
    split at inside
    · rwa [if_pos ‹_›,add_assoc]
    · rwa [if_neg ‹_›,add_zero]

private theorem atomic_of_unchanged {Reply : Type} {success : Reply} {keys : List String}
    {script : Script Database Reply} {answer : Except String Reply} (ran : script store = (answer,store)) :
    Atomic success keys script store := by
  intro _ key _
  rw [ran]

theorem couponStockDecrease_idle (perPersonLimit ttl : String) (idle : ∀ entry, store stock = some (.string entry) →
      store counter ≠ none ∧ ∀ person, store counter = some (.string person) →
        enough (engine.tonumber person.value) (engine.tonumber increment) ≠ .ok true) :
    ∃ answer, answer ≠ .ok "OK" ∧
      couponStockDecrease engine stock counter increment perPersonLimit ttl store = (answer,store) := by
  cases shelf : store stock with
  | none =>
    have unread := get_none shelf
    cases holding : store counter with
    | none => exact ⟨.ok "NOKEY",by simp,(bind_ok _ unread).trans (bind_ok _ (get_none holding))⟩
    | some held =>
      cases held with
      | collection =>
        obtain ⟨fault,wrong⟩ := get_collection holding
        exact ⟨.error fault,by simp,(bind_ok _ unread).trans (bind_error _ wrong)⟩
      | string person =>
        exact ⟨.ok "NOKEY",by simp,(bind_ok _ unread).trans (bind_ok _ (get_string holding))⟩
  | some held =>
    cases held with
    | collection =>
      obtain ⟨fault,wrong⟩ := get_collection shelf
      exact ⟨.error fault,by simp,bind_error _ wrong⟩
    | string entry =>
      have read := get_string shelf
      obtain ⟨present,limited⟩ := idle entry shelf
      cases holding : store counter with
      | none => exact absurd holding present
      | some held =>
        cases held with
        | collection =>
          obtain ⟨fault,wrong⟩ := get_collection holding
          exact ⟨.error fault,by simp,(bind_ok _ read).trans (bind_error _ wrong)⟩
        | string person =>
          rw [couponStockDecrease,bind_ok _ read,bind_ok _ (get_string holding)]
          dsimp only
          cases guard : enough (engine.tonumber person.value) (engine.tonumber increment) with
          | error fault => exact ⟨.error fault,by simp,bind_lift_error _ _⟩
          | ok covered =>
            cases covered with
            | true => exact absurd guard (limited person holding)
            | false => exact ⟨.ok "LIMIT",by simp,bind_lift_ok _⟩

theorem couponStockDecrease_atomic_iff :
    Atomic "OK" [stock,counter]
      (couponStockDecrease engine stock counter increment perPersonLimit ttl) store ↔
    ¬ Leaks engine store stock counter increment perPersonLimit ttl := by
  by_cases idle : ∀ entry, store stock = some (.string entry) →
      store counter ≠ none ∧ ∀ person, store counter = some (.string person) →
        enough (engine.tonumber person.value) (engine.tonumber increment) ≠ .ok true
  · obtain ⟨answer,_,ran⟩ := couponStockDecrease_idle perPersonLimit ttl idle
    apply iff_of_true (atomic_of_unchanged ran)
    intro leak
    obtain ⟨entry,delta,n,found,_,_,_,_,second⟩ := leak
    obtain ⟨present,limited⟩ := idle entry found
    unfold SecondFails at second
    split at second
    next absent => exact present absent
    next person holding => exact limited person holding second.1
    next => exact second
  · push Not at idle
    obtain ⟨entry,found,bought⟩ := idle
    cases holding : store counter with
    | none => exact first_atomic_iff found holding
    | some held =>
      obtain ⟨person,known,covered⟩ := bought (by simp [holding])
      exact later_atomic_iff found known covered

/-- Both arguments are numbers to Java and not out of order. -/
def Passes (parseInt : String → Option ℤ) (increment perPersonLimit : String) : Prop :=
  ∃ taken limit, parseInt increment = some taken ∧ parseInt perPersonLimit = some limit ∧ taken ≤ limit

theorem atomicDecreaseForCoupon_passes (engine : Engine) (store : Database) (stock counter ttl : String)
    {parseInt : String → Option ℤ} (passes : Passes parseInt increment perPersonLimit) :
    atomicDecreaseForCoupon engine parseInt [stock,counter] increment perPersonLimit ttl store =
      (couponStockDecrease engine stock counter increment perPersonLimit ttl >>= fun result =>
        pure (some result)) store := by
  obtain ⟨taken,limit,first,second,ordered⟩ := passes
  simp only [atomicDecreaseForCoupon,parsed,first,second,bind_lift_ok,if_neg (not_lt.mpr ordered)]

theorem atomicDecreaseForCoupon_refuses (engine : Engine) (store : Database) (ttl : String)
    {parseInt : String → Option ℤ} {keys : List String}
    (refused : ¬ ((∃ stock counter, keys = [stock,counter]) ∧ Passes parseInt increment perPersonLimit)) :
    ∃ answer, answer ≠ .ok (some "OK") ∧
      atomicDecreaseForCoupon engine parseInt keys increment perPersonLimit ttl store =
        (answer,store) := by
  unfold atomicDecreaseForCoupon
  cases first : parseInt increment with
  | none => exact ⟨.error _,by simp,by simp only [parsed,first]; rfl⟩
  | some taken =>
    cases second : parseInt perPersonLimit with
    | none => exact ⟨.error _,by simp,by simp only [parsed,first,second]; rfl⟩
    | some limit =>
      simp only [parsed,first,second,bind_lift_ok]
      split
      next => exact ⟨.ok none,by simp,rfl⟩
      next ordered =>
        split
        next stock counter =>
          exact absurd ⟨⟨stock,counter,rfl⟩,taken,limit,first,second,not_lt.mp ordered⟩ refused
        next => exact ⟨.ok none,by simp,rfl⟩

private theorem atomic_map {keys : List String} {script : Script Database String} :
    Atomic (some "OK") keys (script >>= fun result => pure (some result)) store ↔
      Atomic "OK" keys script store := by
  rcases ran : script store with ⟨answer,after⟩
  rw [Atomic,Atomic,bind_map some ran,ran,Ne,map_some_eq]

/-- In every other case a call without success leaves both keys as they were. -/
theorem atomicDecreaseForCoupon_atomic_iff (engine : Engine) (parseInt : String → Option ℤ)
    (keys : List String) (increment perPersonLimit ttl : String) (store : Database) :
    Atomic (some "OK") keys
      (atomicDecreaseForCoupon engine parseInt keys increment perPersonLimit ttl) store ↔
    ¬ ∃ stock counter, keys = [stock,counter] ∧ Passes parseInt increment perPersonLimit ∧
      Leaks engine store stock counter increment perPersonLimit ttl := by
  by_cases runs : (∃ stock counter, keys = [stock,counter]) ∧ Passes parseInt increment perPersonLimit
  · obtain ⟨⟨stock,counter,rfl⟩,passes⟩ := runs
    have same := atomicDecreaseForCoupon_passes engine store stock counter ttl passes
    rw [Atomic,same]
    refine atomic_map.trans (couponStockDecrease_atomic_iff.trans (not_congr ?_))
    constructor
    · intro leak
      exact ⟨stock,counter,rfl,passes,leak⟩
    · intro leak
      obtain ⟨_,_,keys,_,leaks⟩ := leak
      cases keys
      exact leaks
  · obtain ⟨answer,_,ran⟩ := atomicDecreaseForCoupon_refuses engine store ttl runs
    apply iff_of_true (atomic_of_unchanged ran)
    intro leak
    obtain ⟨stock,counter,keys,passes,_⟩ := leak
    exact runs ⟨⟨stock,counter,keys⟩,passes⟩

theorem ttl_zero_leaks :
    ¬ Atomic (some "OK") ["stock","counter"]
      (atomicDecreaseForCoupon decimal String.toInt? ["stock","counter"] "1" "2" "0")
      (shelf "stock" 10) := by
  rw [atomicDecreaseForCoupon_atomic_iff,not_not]
  have inRange : InRange 10 := by decide
  have sells : Sells decimal (toString (10 : ℤ)) (toString (1 : ℤ)) (-1) :=
    decimal_lawful.sells_int inRange (by decide) (by decide) (by decide)
  have text : decimal.tonumber "0" = some (.finite 0) :=
    decimal_lawful.tonumber_small (n := 0) (by decide)
  have zero : decimal.tostring (.finite 0) = toString (0 : ℤ) := decimal_tostring (n := 0) (by decide)
  have short : ¬ Lasts decimal (decimal.tonumber "0") := by
    intro lasts
    obtain ⟨number,same,seconds,read,positive,_⟩ := lasts
    cases text.symm.trans same
    rw [zero,readInteger_toString (by decide)] at read
    cases read
    exact absurd positive (by decide)
  have one : String.toInt? "1" = some 1 := Int.toInt?_repr 1
  have two : String.toInt? "2" = some 2 := Int.toInt?_repr 2
  exact ⟨_,_,rfl,⟨1,2,one,two,by decide⟩,_,-1,10,rfl,sells,readInteger_toString inRange,by decide,
    by decide,.inr short⟩

end CouponStockDecrease
end YzFramework.Redis

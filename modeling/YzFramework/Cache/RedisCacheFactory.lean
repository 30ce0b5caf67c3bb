import YzFramework.Redis.RateLimiting

/-! `RedisCacheFactory` on one key. JSON is a codec, and which times to live Redis
takes is a parameter; calls come at times in milliseconds. -/
namespace YzFramework.Cache.RedisCacheFactory
open Library.Run
open Redis.RateLimiting (Timed current)

variable {Data : Type} (toJSONString : Data → String) (parseObject : String → Option Data)
  (expires : ℤ → Bool)

def wrapped (difference : ℤ) : ℤ := difference.bmod (2^64)

def set (now : ℤ) (value : String) (timeout : ℤ) (held : Option Timed) :
    Except String Bool × Option Timed :=
  if expires timeout then (.ok true,some ⟨value,some (now+timeout)⟩)
  else (.error "ERR invalid expire time in 'psetex' command",held)

/-- What has expired on arrival is not written. -/
def add (now : ℤ) (cacheData : Option Data) (expiredAt relateExpiredTimeMs : Option ℤ)
    (held : Option Timed) : Except String Bool × Option Timed :=
  match cacheData with
  | none => (.ok true,none)
  | some data =>
    match expiredAt,relateExpiredTimeMs with
    | some date,_ =>
      let expireTimeInMs := wrapped (date-now)
      if 0 < expireTimeInMs then set expires now (toJSONString data) expireTimeInMs held
      else (.ok true,held)
    | none,some relative =>
      if 0 < relative then set expires now (toJSONString data) relative held else (.ok true,held)
    | none,none => (.ok true,some ⟨toJSONString data,none⟩)

def getObject (now : ℤ) (held : Option Timed) : Option Data :=
  (current now held).bind fun entry => parseObject entry.value

inductive Event (Data : Type)
  | add (now : ℤ) (cacheData : Option Data) (expiredAt relateExpiredTimeMs : Option ℤ)
  | remove

def step (held : Option Timed) : Event Data → Option Timed
  | .add now cacheData expiredAt relateExpiredTimeMs =>
    (add toJSONString expires now cacheData expiredAt relateExpiredTimeMs held).2
  | .remove => none

/-- After an add that returned true, reads find its data or nothing. -/
def Fresh (held : Option Timed) (event : Event Data) : Prop :=
  match event with
  | .add now cacheData expiredAt relateExpiredTimeMs =>
    (add toJSONString expires now cacheData expiredAt relateExpiredTimeMs held).1 = .ok true →
      ∀ later, now ≤ later →
        getObject parseObject later (step toJSONString expires held event) = none ∨
        getObject parseObject later (step toJSONString expires held event) = cacheData
  | .remove => True

def Late (now : ℤ) : Option ℤ → Option ℤ → Prop
  | some date,_ => wrapped (date-now) ≤ 0
  | none,some relative => relative ≤ 0
  | none,none => False

/-- Data that arrive late find no entry alive, or one with the same data. -/
def Fit (held : Option Timed) : Event Data → Prop
  | .add now (some data) expiredAt relateExpiredTimeMs =>
    Late now expiredAt relateExpiredTimeMs → ∀ entry, current now held = some entry →
      parseObject entry.value = none ∨ parseObject entry.value = some data
  | _ => True

theorem current_later {now later : ℤ} {held : Option Timed} {entry : Timed} (ordered : now ≤ later)
    (alive : current later held = some entry) : current now held = some entry := by
  obtain ⟨rfl,inTime⟩ := Option.filter_eq_some_iff.mp alive
  refine Option.filter_eq_some_iff.mpr ⟨rfl,?_⟩
  cases deadline : entry.deadline with
  | none => rfl
  | some deadline =>
    rw [deadline,Option.all_some,decide_eq_true_eq] at inTime
    rw [Option.all_some,decide_eq_true_eq]
    exact ordered.trans inTime

/-- An add of data leaves the key as it is when they are late, else writes them or throws. -/
theorem add_cases (now : ℤ) (data : Data) (expiredAt relateExpiredTimeMs : Option ℤ)
    (held : Option Timed) :
    (Late now expiredAt relateExpiredTimeMs ∧
      add toJSONString expires now (some data) expiredAt relateExpiredTimeMs held =
        (.ok true,held)) ∨
    (¬ Late now expiredAt relateExpiredTimeMs ∧
      ((∃ deadline, add toJSONString expires now (some data) expiredAt relateExpiredTimeMs held =
        (.ok true,some ⟨toJSONString data,deadline⟩)) ∨
      ∃ fault, add toJSONString expires now (some data) expiredAt relateExpiredTimeMs held =
        (.error fault,held))) := by
  have written : ∀ timeout, 0 < timeout →
      (∃ deadline, set expires now (toJSONString data) timeout held =
        (.ok true,some ⟨toJSONString data,deadline⟩)) ∨
      ∃ fault, set expires now (toJSONString data) timeout held = (.error fault,held) := by
    intro timeout positive
    unfold set
    split
    · exact .inl ⟨_,rfl⟩
    · exact .inr ⟨_,rfl⟩
  cases expiredAt with
  | some date =>
    by_cases positive : 0 < wrapped (date-now)
    · refine .inr ⟨not_le.mpr positive,?_⟩
      simp only [add,if_pos positive]
      exact written _ positive
    · exact .inl ⟨not_lt.mp positive,by simp only [add,if_neg positive]⟩
  | none =>
    cases relateExpiredTimeMs with
    | some relative =>
      by_cases positive : 0 < relative
      · refine .inr ⟨not_le.mpr positive,?_⟩
        simp only [add,if_pos positive]
        exact written _ positive
      · exact .inl ⟨not_lt.mp positive,by simp only [add,if_neg positive]⟩
    | none => exact .inr ⟨id,.inl ⟨_,rfl⟩⟩

variable {toJSONString parseObject}

theorem getObject_written (faithful : ∀ data, parseObject (toJSONString data) = some data) (data : Data)
    (deadline : Option ℤ) (later : ℤ) :
    getObject parseObject later (some ⟨toJSONString data,deadline⟩) = none ∨
      getObject parseObject later (some ⟨toJSONString data,deadline⟩) = some data := by
  cases alive : current later (some (⟨toJSONString data,deadline⟩ : Timed)) with
  | none => exact .inl (by rw [getObject,alive]; rfl)
  | some entry =>
    obtain ⟨same,_⟩ := Option.filter_eq_some_iff.mp alive
    cases same
    refine .inr ?_
    rw [getObject,alive]
    exact faithful data

theorem getObject_kept_iff (now : ℤ) (data : Data) (held : Option Timed) :
    (∀ later, now ≤ later → getObject parseObject later held = none ∨
        getObject parseObject later held = some data) ↔
      ∀ entry, current now held = some entry →
        parseObject entry.value = none ∨ parseObject entry.value = some data := by
  constructor
  · intro fresh entry alive
    have read : getObject parseObject now held = parseObject entry.value := by
      rw [getObject,alive]
      rfl
    rw [← read]
    exact fresh now le_rfl
  · intro fit later ordered
    cases alive : current later held with
    | none => exact .inl (by rw [getObject,alive]; rfl)
    | some entry =>
      rw [getObject,alive]
      exact fit entry (current_later ordered alive)

theorem fresh_iff (faithful : ∀ data, parseObject (toJSONString data) = some data)
    (held : Option Timed) (event : Event Data) :
    Fresh toJSONString parseObject expires held event ↔ Fit parseObject held event := by
  cases event with
  | remove => exact Iff.rfl
  | add now cacheData expiredAt relateExpiredTimeMs =>
    cases cacheData with
    | none => exact iff_of_true (fun _ _ _ => .inl rfl) trivial
    | some data =>
      simp only [Fresh,Fit,step]
      rcases add_cases toJSONString expires now data expiredAt relateExpiredTimeMs held with
        ⟨late,kept⟩ | ⟨early,⟨deadline,written⟩ | ⟨fault,failed⟩⟩
      · rw [kept,forall_prop_of_true rfl,forall_prop_of_true late]
        exact getObject_kept_iff now data held
      · rw [written]
        refine iff_of_true (fun _ later _ => ?_) fun late => absurd late early
        exact getObject_written faithful data deadline later
      · rw [failed]
        exact iff_of_true (fun answered => by cases answered) fun late => absurd late early

/-- Reads after an add are fresh exactly in the runs whose late data find no other data alive. -/
theorem run_fresh_iff (faithful : ∀ data, parseObject (toJSONString data) = some data)
    (held : Option Timed) (events : List (Event Data)) :
    Along (step toJSONString expires) (Fresh toJSONString parseObject expires) held events ↔
      Along (step toJSONString expires) (Fit parseObject) held events :=
  @along_iff _ _ _ _ _ (fun _ => True) (fun held event _ => fresh_iff expires faithful held event)
    (fun _ _ _ _ => trivial) held events trivial

theorem number_faithful (data : ℤ) : String.toInt? (toString data) = some data := Int.toInt?_repr data

theorem run_fresh_iff_removed :
    Along (step (toString : ℤ → String) fun _ => true)
      (Fresh toString String.toInt? fun _ => true) none
      [.add 0 (some 1) none (some 5),.remove,.add 10 (some 2) (some 7) none] := by
  apply (run_fresh_iff (fun _ => true) number_faithful none _).mpr
  refine ⟨fun late => absurd late (show ¬ (5 : ℤ) ≤ 0 by decide),trivial,fun _ entry alive => ?_,trivial⟩
  cases alive

theorem late_add_keeps_old :
    ¬ Along (step (toString : ℤ → String) fun _ => true)
      (Fresh toString String.toInt? fun _ => true) none
      [.add 0 (some 1) none none,.add 10 (some 2) (some 7) none] := by
  intro fresh
  have read : getObject String.toInt? 10 (some ⟨toString (1 : ℤ),none⟩) = some (1 : ℤ) :=
    number_faithful 1
  rcases fresh.2.1 rfl 10 le_rfl with gone | new
  · exact absurd (read.symm.trans gone) (by decide)
  · exact absurd (read.symm.trans new) (by decide)

end YzFramework.Cache.RedisCacheFactory

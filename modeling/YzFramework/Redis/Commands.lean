import YzFramework.Redis.StringRedisTemplateEX
import YzFramework.Library.Number
import YzFramework.Library.Script
import Mathlib

/-! What the scripts that count use of Lua and of Redis. A script runs atomically,
and an error does not undo what it wrote before. -/
namespace YzFramework.Redis
open Library Library.Store Library.Script

/-- What differs between versions of Redis and of the C library: how Lua reads a
number, how `redis.call` writes one, and which times to live are too long. -/
structure Engine where
  tonumber : String → Option Number
  tostring : Number → String
  expires : ℤ → Bool

def InRange (n : ℤ) : Prop := -2^63 ≤ n ∧ n < 2^63

instance (n : ℤ) : Decidable (InRange n) := inferInstanceAs (Decidable (_ ∧ _))

/-- The integers of Redis: signed, of 64 bits, in their only decimal form. -/
def readInteger (text : String) : Option ℤ :=
  text.toInt?.filter fun n => toString n = text ∧ InRange n

structure Engine.Lawful (engine : Engine) : Prop where
  tonumber_int : ∀ n, InRange n → engine.tonumber (toString n) = some (.ofInt n)
  tostring_int : ∀ n : ℤ, |n| ≤ 2^53 → engine.tostring (.finite n) = toString n
  tostring_zero : engine.tostring .negativeZero = "-0" ∨ engine.tostring .negativeZero = "0"

/-- For decimal integers, written with `%.17g`; every other number gets one text that is
not an integer. An expiry is kept in signed milliseconds. -/
def decimal : Engine where
  tonumber text := text.toInt?.map Number.ofInt
  tostring
    | .finite value =>
      if value.den = 1 ∧ value.num.natAbs < 10^17 then toString value.num else "1e+17"
    | .negativeZero => "-0"
    | .infinity negative => if negative then "-inf" else "inf"
    | .nan => "nan"
  expires seconds := seconds ≤ (2^63-1)/1000

theorem readInteger_eq {text : String} {n : ℤ} (read : readInteger text = some n) :
    text = toString n ∧ InRange n := by
  obtain ⟨_,same⟩ := Option.filter_eq_some_iff.mp read
  simp only [decide_eq_true_eq] at same
  exact ⟨same.1.symm,same.2⟩

theorem readInteger_toString {n : ℤ} (fits : InRange n) : readInteger (toString n) = some n := by
  refine Option.filter_eq_some_iff.mpr ⟨Int.toInt?_repr n,?_⟩
  simpa using fits

theorem decimal_tonumber (n : ℤ) : decimal.tonumber (toString n) = some (.ofInt n) :=
  congrArg (Option.map Number.ofInt) (Int.toInt?_repr n)

theorem decimal_tostring {n : ℤ} (short : n.natAbs < 10^17) :
    decimal.tostring (.finite n) = toString n :=
  if_pos ⟨Rat.den_intCast n,short⟩

theorem decimal_lawful : decimal.Lawful where
  tonumber_int n _ := decimal_tonumber n
  tostring_int n small := decimal_tostring (by have := abs_le.mp small; omega)
  tostring_zero := .inl rfl

theorem Engine.Lawful.written_zero {engine : Engine} (lawful : engine.Lawful) {n : ℤ}
    (read : readInteger (engine.tostring .negativeZero) = some n) : n = 0 := by
  have text := (readInteger_eq read).1
  have parsed : (toString n).toInt? = some n := Int.toInt?_repr n
  rw [← text] at parsed
  rcases lawful.tostring_zero with signed | plain
  · have minus : ("-"++Nat.repr 0).toInt? = some 0 := by simp
    rw [signed] at parsed
    exact (Option.some.inj (parsed.symm.trans minus))
  · have zero : (Nat.repr 0).toInt? = some 0 := by simp
    rw [plain] at parsed
    exact Option.some.inj (parsed.symm.trans zero)

/-- A key holds a string or a value of another type, which no script here changes. -/
inductive Held
  | string (entry : Entry)
  | collection
deriving DecidableEq

abbrev Database := Store String Held

def get (key : String) : Script Database (Option String) := fun store =>
  match store key with
  | none => (.ok none,store)
  | some (.string entry) => (.ok (some entry.value),store)
  | some .collection =>
    (.error "WRONGTYPE Operation against a key holding the wrong kind of value",store)

def counted (store : Database) (key : String) : Except String ℤ :=
  match store key with
  | none => .ok 0
  | some (.string entry) =>
    match readInteger entry.value with
    | some n => .ok n
    | none => .error "ERR value is not an integer or out of range"
  | some .collection =>
    .error "WRONGTYPE Operation against a key holding the wrong kind of value"

def px (store : Database) (key : String) : Option ℤ :=
  match store key with
  | some (.string entry) => entry.px
  | _ => none

def incrBy (key increment : String) : Script Database ℤ := fun store =>
  match readInteger increment with
  | none => (.error "ERR value is not an integer or out of range",store)
  | some delta =>
    match counted store key with
    | .error fault => (.error fault,store)
    | .ok n =>
      if InRange (n+delta) then
        (.ok (n+delta),put store key (.string ⟨toString (n+delta),px store key⟩))
      else (.error "ERR increment or decrement would overflow",store)

def setExNx (engine : Engine) (key value seconds : String) : Script Database Bool := fun store =>
  match readInteger seconds with
  | none => (.error "ERR value is not an integer or out of range",store)
  | some n =>
    if n ≤ 0 ∨ engine.expires n = false then (.error "ERR invalid expire time in 'set' command",store)
    else if (store key).isSome then (.ok false,store)
    else (.ok true,put store key (.string ⟨value,some (1000*n)⟩))

/-- A number, or nil, as an argument of `redis.call`. -/
def argument (engine : Engine) : Option Number → Except String String
  | some number => .ok (engine.tostring number)
  | none => .error "Lua redis() command arguments must be strings or integers"

def minus : Option Number → Option Number → Except String Number
  | some first,some second => .ok (first.sub second)
  | _,_ => .error "attempt to perform arithmetic on a nil value"

def unaryMinus : Option Number → Except String Number
  | some number => .ok number.neg
  | none => .error "attempt to perform arithmetic on a nil value"

/-- `redis.call('INCRBY', key, -(increment))` -/
def decrease (engine : Engine) (key : String) (increment : Option Number) : Script Database ℤ := do
  let number ← unaryMinus increment
  let text ← argument engine (some number)
  incrBy key text

/-- `current > 0 and (current - increment) >= 0` -/
def enough (current increment : Option Number) : Except String Bool :=
  match current with
  | none => .error "attempt to compare number with nil"
  | some number =>
    if Number.lt (.finite 0) number then (minus current increment).map (Number.le (.finite 0))
    else .ok false

/-- What `INCRBY` adds when it accepts the negated increment. -/
def Engine.delta (engine : Engine) (increment : Option Number) : Option ℤ :=
  increment.bind fun number => readInteger (engine.tostring number.neg)

def Stocked (store : Database) (key : String) (stock : ℤ) : Prop :=
  InRange stock ∧ ∃ px, store key = some (.string ⟨toString stock,px⟩)

/-- The guard lets the increment through and `INCRBY` would add `delta`. -/
def Sells (engine : Engine) (stock increment : String) (delta : ℤ) : Prop :=
  enough (engine.tonumber stock) (engine.tonumber increment) = .ok true ∧
    engine.delta (engine.tonumber increment) = some delta

/-- The end the scripts share, with what follows the decrement. -/
def sell {Reply : Type} (engine : Engine) (key : String) (current increment : Option Number)
    (next : Script Database Reply) : Script Database String := do
  if ← enough current increment then
    let _ ← decrease engine key increment
    let _ ← next
    return "OK"
  else return "NO"

section Spec

variable {Reply : Type} {store after : Database}

theorem incrBy_adds {key increment : String} {delta n : ℤ} (read : readInteger increment = some delta)
    (found : counted store key = .ok n) (fits : InRange (n+delta)) : incrBy key increment store =
      (.ok (n+delta),put store key (.string ⟨toString (n+delta),px store key⟩)) := by
  simp only [incrBy,read,found,fits,if_true]

theorem incrBy_refuses {key increment : String} (unfit : ∀ delta n, readInteger increment = some delta →
    counted store key = .ok n → ¬ InRange (n+delta)) :
    ∃ fault, incrBy key increment store = (.error fault,store) := by
  unfold incrBy
  split
  next => exact ⟨_,rfl⟩
  next delta read =>
    split
    next => exact ⟨_,rfl⟩
    next n found => exact ⟨_,if_neg (unfit delta n read found)⟩

theorem decrease_adds {engine : Engine} {key : String} {increment : Option Number} {delta n : ℤ}
    (read : engine.delta increment = some delta) (found : counted store key = .ok n)
    (fits : InRange (n+delta)) : decrease engine key increment store =
      (.ok (n+delta),put store key (.string ⟨toString (n+delta),px store key⟩)) := by
  obtain ⟨number,rfl,text⟩ := Option.bind_eq_some_iff.mp read
  exact incrBy_adds text found fits

theorem decrease_refuses (engine : Engine) (key : String) (increment : Option Number)
    (unfit : ∀ delta n, engine.delta increment = some delta → counted store key = .ok n →
      ¬ InRange (n+delta)) :
    ∃ fault, decrease engine key increment store = (.error fault,store) := by
  cases increment with
  | none => exact ⟨_,rfl⟩
  | some number => exact incrBy_refuses unfit

theorem counted_string {key : String} {entry : Entry} (found : store key = some (.string entry))
    {n : ℤ} : counted store key = .ok n ↔ readInteger entry.value = some n := by
  simp only [counted,found]
  split
  next m read => simp [read]
  next read => simp [read]

theorem px_string {key : String} {entry : Entry} (found : store key = some (.string entry)) :
    px store key = entry.px := by simp only [px,found]

theorem get_none {key : String} (absent : store key = none) : get key store = (.ok none,store) := by
  simp only [get,absent]

theorem get_string {key : String} {entry : Entry} (found : store key = some (.string entry)) :
    get key store = (.ok (some entry.value),store) := by simp only [get,found]

theorem get_collection {key : String} (found : store key = some .collection) :
    ∃ fault, get key store = (.error fault,store) := by
  simp only [get,found]
  exact ⟨_,rfl⟩

theorem stocked_unique {key : String} {first second : ℤ} (one : Stocked store key first)
    (two : Stocked store key second) : first = second := by
  obtain ⟨_,px,found⟩ := one
  obtain ⟨_,other,same⟩ := two
  rw [found,Option.some.injEq,Held.string.injEq,Entry.mk.injEq] at same
  exact Int.repr_injective same.1

theorem stocked_put {key : String} {n : ℤ} (fits : InRange n) (px : Option ℤ) :
    Stocked (put store key (.string ⟨toString n,px⟩)) key n :=
  ⟨fits,px,by rw [put_apply,if_pos rfl]⟩

variable {engine : Engine} {key increment : String} {entry : Entry} {delta n : ℤ}

theorem sell_sells (next : Script Database Reply) {answer : Except String Reply}
    (found : store key = some (.string entry)) (sells : Sells engine entry.value increment delta)
    (read : readInteger entry.value = some n) (fits : InRange (n+delta))
    (ran : next (put store key (.string ⟨toString (n+delta),entry.px⟩)) = (answer,after)) :
    sell engine key (engine.tonumber entry.value) (engine.tonumber increment) next store =
      (answer.map fun _ => "OK",after) := by
  have added := decrease_adds sells.2 ((counted_string found).mpr read) fits
  rw [px_string found] at added
  rw [sell,sells.1,bind_lift_ok]
  exact (bind_ok _ added).trans (bind_map _ ran)

theorem sell_refuses (next : Script Database Reply) (found : store key = some (.string entry))
    (refused : ∀ delta n, Sells engine entry.value increment delta →
      readInteger entry.value = some n → ¬ InRange (n+delta)) :
    ∃ answer, answer ≠ .ok "OK" ∧
      sell engine key (engine.tonumber entry.value) (engine.tonumber increment) next store =
        (answer,store) := by
  cases guard : enough (engine.tonumber entry.value) (engine.tonumber increment) with
  | error fault =>
    rw [sell,guard]
    exact ⟨.error fault,by simp,bind_lift_error _ _⟩
  | ok covered =>
    cases covered with
    | false =>
      rw [sell,guard]
      exact ⟨.ok "NO",by simp,bind_lift_ok _⟩
    | true =>
      obtain ⟨fault,failed⟩ := decrease_refuses engine key (engine.tonumber increment)
        fun delta n read present => refused delta n ⟨guard,read⟩ ((counted_string found).mp present)
      rw [sell,guard]
      exact ⟨.error fault,by simp,(bind_lift_ok _).trans (bind_error _ failed)⟩

end Spec

theorem enough_int (stock : ℤ) {n : ℤ} (nonneg : 0 ≤ n) (small : n ≤ 2^53) :
    enough (some (.ofInt stock)) (some (.finite n)) = .ok (decide (0 < stock ∧ n ≤ stock)) := by
  have compared : Number.le (.finite 0) ((Number.ofInt stock).sub (.finite n)) = decide (n ≤ stock) := by
    rw [Number.ofInt,Number.le_sub]
    exact decide_eq_decide.mpr (Number.le_double_int nonneg small)
  by_cases some : 0 < stock
  · simp [enough,minus,Except.map,Number.lt_zero_ofInt,some,compared]
  · simp [enough,Number.lt_zero_ofInt,some]

def shelf (key : String) (stock : ℤ) : Database := put (fun _ => none) key (.string ⟨toString stock,none⟩)

theorem shelf_stocked (key : String) {stock : ℤ} (fits : InRange stock) :
    Stocked (shelf key stock) key stock := stocked_put fits none

namespace Engine.Lawful

variable {engine : Engine} (lawful : engine.Lawful) {n : ℤ}
include lawful

theorem tonumber_small (small : |n| ≤ 2^53) : engine.tonumber (toString n) = some (.finite n) := by
  have bounds := abs_le.mp small
  rw [lawful.tonumber_int n ⟨by omega,by omega⟩,Number.ofInt_small n small]

theorem enough_int (stock : ℤ) (fits : InRange stock) (nonneg : 0 ≤ n) (small : n ≤ 2^53) :
    enough (engine.tonumber (toString stock)) (engine.tonumber (toString n)) =
      .ok (decide (0 < stock ∧ n ≤ stock)) := by
  rw [lawful.tonumber_int stock fits,lawful.tonumber_small (abs_le.mpr ⟨by omega,small⟩)]
  exact Redis.enough_int stock nonneg small

theorem delta_int (positive : 0 < n) (small : n ≤ 2^53) :
    engine.delta (engine.tonumber (toString n)) = some (-n) := by
  have exact : |n| ≤ 2^53 := abs_le.mpr ⟨by omega,small⟩
  rw [lawful.tonumber_small exact]
  change readInteger (engine.tostring (Number.neg (.finite n))) = some (-n)
  rw [Number.neg_int positive.ne',lawful.tostring_int _ (by rwa [abs_neg])]
  exact readInteger_toString ⟨by omega,by omega⟩

theorem sells_int {stock : ℤ} (fits : InRange stock) (positive : 0 < n) (small : n ≤ 2^53)
    (covered : n ≤ stock) : Sells engine (toString stock) (toString n) (-n) := by
  refine ⟨?_,lawful.delta_int positive small⟩
  rw [lawful.enough_int stock fits positive.le small]
  simp [covered,positive.trans_le covered]

theorem not_sells {stock delta : ℤ} (fits : InRange stock) (nonneg : 0 ≤ n) (small : n ≤ 2^53)
    (short : stock < n) : ¬ Sells engine (toString stock) (toString n) delta := by
  intro sells
  have guard := sells.1
  rw [lawful.enough_int stock fits nonneg small] at guard
  have covered : 0 < stock ∧ n ≤ stock := by simpa using guard
  omega

end Engine.Lawful

end YzFramework.Redis

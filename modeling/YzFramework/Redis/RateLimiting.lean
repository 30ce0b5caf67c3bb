import YzFramework.Redis.Commands
import YzFramework.Library.FixedWindow
import YzFramework.Library.Run

/-! rate_limiting.lua on one key, called at times in milliseconds. A script sees one
time; a key is gone from the millisecond after its deadline on. -/
namespace YzFramework.Redis.RateLimiting
open Library Library.Script Library.Run Library.FixedWindow

structure Timed where
  value : String
  deadline : Option ℤ
deriving DecidableEq

def current (now : ℤ) (held : Option Timed) : Option Timed :=
  held.filter fun entry => entry.deadline.all (now ≤ ·)

def incr : Script (Option Timed) ℤ := fun held =>
  match held with
  | none => (.ok 1,some ⟨"1",none⟩)
  | some entry =>
    match readInteger entry.value with
    | none => (.error "ERR value is not an integer or out of range",held)
    | some n =>
      if InRange (n+1) then (.ok (n+1),some {entry with value := toString (n+1)})
      else (.error "ERR increment or decrement would overflow",held)

def expire (engine : Engine) (now : ℤ) (seconds : String) : Script (Option Timed) Bool := fun held =>
  match readInteger seconds with
  | none => (.error "ERR value is not an integer or out of range",held)
  | some n =>
    if engine.expires n = false then (.error "ERR invalid expire time in 'expire' command",held)
    else
      match held with
      | none => (.ok false,none)
      | some entry =>
        if n ≤ 0 then (.ok true,none)
        else (.ok true,some {entry with deadline := some (now+1000*n)})

def greater (times : ℤ) : Option Number → Except String Bool
  | some limit => .ok (limit.lt (.ofInt times))
  | none => .error "attempt to compare nil with number"

def rateLimiting (engine : Engine) (now : ℤ) (seconds limit : String) : Script (Option Timed) ℤ := do
  let times ← incr
  if Number.ofInt times = .finite 1 then
    let _ ← expire engine now seconds
  if ← greater times (engine.tonumber limit) then
    return 0
  return 1

variable (engine : Engine) (seconds limit : String)

def visit (held : Option Timed) (now : ℤ) : Except String ℤ × Option Timed :=
  rateLimiting engine now seconds limit (current now held)

def step (held : Option Timed) (now : ℤ) : Option Timed := (visit engine seconds limit held now).2

/-- The calls at the given times, which of them created the key and which were
permitted. -/
def calls : Option Timed → List ℤ → List Call
  | _,[] => []
  | held,now::later =>
    ⟨now,(current now held).isNone,(visit engine seconds limit held now).1 = .ok 1⟩::
      calls (step engine seconds limit held now) later

/-- The first calls of each lifetime of the key are permitted, an interval no longer
than the window meets at most two lifetimes, and the key always has a deadline. -/
structure Limited (window : ℤ) (limit : ℕ) (times : List ℤ) : Prop where
  lifetimes : ∀ earlier life later,
    calls engine (toString window) (toString (limit : ℤ)) none times = earlier++life++later →
      Lifetime life → life.map Call.permitted =
        List.replicate (min life.length limit) true++List.replicate (life.length-limit) false
  intervals : ∀ start stop, stop-start ≤ 1000*window →
    permittedIn start stop (calls engine (toString window) (toString (limit : ℤ)) none times) ≤ 2*limit
  timed : ∀ before, before <+: times → before ≠ [] → ∃ entry,
    final (step engine (toString window) (toString (limit : ℤ))) none before = some entry ∧
      entry.deadline ≠ none

theorem ofInt_eq_one (n : ℤ) : Number.ofInt n = .finite 1 ↔ n = 1 := by
  constructor
  · intro same
    have exact : Double.double (n : ℚ) = 1 := by simpa [Number.ofInt] using same
    have one : 1 ≤ n := (Number.le_double_int (by decide) (by decide)).mp (by rw [exact]; simp)
    have two : ¬ 2 ≤ n := fun above => by
      have := (Number.le_double_int (m := n) (n := 2) (by decide) (by decide)).mpr above
      rw [exact] at this
      norm_num at this
    omega
  · rintro rfl
    exact Number.ofInt_small 1 (by decide)

def reply (limit times : ℤ) : ℤ := if Number.lt (.ofInt limit) (.ofInt times) then 0 else 1

theorem reply_eq_one {limit : ℕ} (sharp : Number.ofInt limit ≠ Number.ofInt (limit+1)) (times : ℤ) :
    reply limit times = 1 ↔ times ≤ limit := by
  have below : Double.double ((limit : ℤ) : ℚ) < Double.double ((limit+1 : ℤ) : ℚ) := by
    apply lt_of_le_of_ne (Double.double_mono (Int.cast_le.mpr (by omega)))
    intro same
    exact sharp (congrArg Number.finite same)
  have judged : Number.lt (.ofInt limit) (.ofInt times) =
      decide (Double.double ((limit : ℤ) : ℚ) < Double.double (times : ℚ)) := rfl
  rw [reply,judged]
  rcases le_or_gt times limit with within | beyond
  · have mono : Double.double (times : ℚ) ≤ Double.double ((limit : ℤ) : ℚ) :=
      Double.double_mono (Int.cast_le.mpr within)
    rw [decide_eq_false (not_lt.mpr mono)]
    simp [within]
  · have mono : Double.double ((limit+1 : ℤ) : ℚ) ≤ Double.double (times : ℚ) :=
      Double.double_mono (Int.cast_le.mpr (by omega))
    rw [decide_eq_true (below.trans_le mono)]
    simp [not_le.mpr beyond]

section Spec

variable {engine seconds} {limit window times now : ℤ} {held after : Option Timed}
  (reads : engine.tonumber (toString limit) = some (.ofInt limit))
include reads

theorem rateLimiting_counts (counted : incr held = (.ok times,after)) (later : times ≠ 1) :
    rateLimiting engine now seconds (toString limit) held = (.ok (reply limit times),after) := by
  rw [rateLimiting,bind_ok _ counted,if_neg (mt (ofInt_eq_one times).mp later),reads]
  apply (bind_lift_ok _).trans
  rw [reply]
  split <;> rfl

theorem rateLimiting_opens (counted : incr held = (.ok 1,after)) {opened : Option Timed}
    (timed : expire engine now seconds after = (.ok true,opened)) :
    rateLimiting engine now seconds (toString limit) held = (.ok (reply limit 1),opened) := by
  rw [rateLimiting,bind_ok _ counted,if_pos ((ofInt_eq_one 1).mpr rfl),reads,bind_ok _ timed]
  apply (bind_lift_ok _).trans
  rw [reply]
  split <;> rfl

end Spec

theorem expire_sets {window : ℤ} (positive : 1 ≤ window) (fits : InRange window)
    (expires : engine.expires window = true) (now : ℤ) (entry : Timed) :
    expire engine now (toString window) (some entry) =
      (.ok true,some {entry with deadline := some (now+1000*window)}) := by
  have timed : ¬ window ≤ 0 := by omega
  simp only [expire,readInteger_toString fits,expires,timed]
  simp

theorem incr_counts {n : ℤ} (fits : InRange n) (deadline : Option ℤ) :
    incr (some ⟨toString n,deadline⟩) =
      if InRange (n+1) then (.ok (n+1),some ⟨toString (n+1),deadline⟩)
      else (.error "ERR increment or decrement would overflow",some ⟨toString n,deadline⟩) := by
  simp only [incr,readInteger_toString fits]

def top : ℤ := 2^63-1

/-- The key holds the calls of its window and ends with it. -/
def Holds (window : ℤ) (held : Option Timed) : Option Window → Prop
  | none => held = none
  | some life => 1 ≤ life.calls ∧
    held = some ⟨toString (min (life.calls : ℤ) top),some (life.opened+1000*window)⟩

theorem holds_none (window : ℤ) : Holds window none none := rfl

theorem holds_isNone {window : ℤ} {held : Option Timed} {life : Option Window}
    (holds : Holds window held life) : held.isNone = life.isNone := by
  cases life with
  | none => exact congrArg Option.isNone holds
  | some life => exact congrArg Option.isNone holds.2

theorem current_holds {window : ℤ} {held : Option Timed} {life : Option Window} (now : ℤ)
    (holds : Holds window held life) :
    Holds window (current now held) (life.filter fun life => Open (1000*window) life now) := by
  cases life with
  | none =>
    rw [show held = none from holds]
    rfl
  | some life =>
    obtain ⟨counted,rfl⟩ := holds
    by_cases inside : Open (1000*window) life now
    · have kept : (some life).filter (fun life => Open (1000*window) life now) = some life := by
        simp [Option.filter,inside]
      rw [kept]
      refine ⟨counted,?_⟩
      have before : now ≤ life.opened+1000*window := inside
      simp [current,Option.filter,before]
    · have dropped : (some life).filter (fun life => Open (1000*window) life now) = none := by
        simp [Option.filter,inside]
      rw [dropped]
      have after : ¬ now ≤ life.opened+1000*window := inside
      simp [Holds,current,Option.filter,after]

/-- A window that `EXPIRE` takes and a limit that Lua tells from the next number. -/
structure Settings (engine : Engine) (window : ℤ) (limit : ℕ) : Prop where
  positive : 1 ≤ window
  fits : InRange window
  expires : engine.expires window = true
  least : 1 ≤ limit
  bounded : (limit : ℤ) < 2^63
  sharp : Number.ofInt limit ≠ Number.ofInt (limit+1)

section Window

variable (lawful : engine.Lawful) {window : ℤ} {limit : ℕ} (settings : Settings engine window limit)
include lawful settings

theorem visit_opens {held : Option Timed} {now : ℤ} (gone : current now held = none) :
    visit engine (toString window) (toString (limit : ℤ)) held now =
      (.ok (reply limit 1),some ⟨"1",some (now+1000*window)⟩) := by
  have reads := lawful.tonumber_int limit ⟨by omega,settings.bounded⟩
  have counted : incr none = (.ok 1,some ⟨"1",none⟩) := rfl
  have timed := expire_sets engine settings.positive settings.fits settings.expires now ⟨"1",none⟩
  rw [visit,gone]
  exact rateLimiting_opens reads counted timed

theorem visit_counts {held : Option Timed} {now n : ℤ} {deadline : Option ℤ} (positive : 1 ≤ n)
    (small : n ≤ top) (found : current now held = some ⟨toString n,deadline⟩) :
    visit engine (toString window) (toString (limit : ℤ)) held now =
      if n < top then (.ok (reply limit (n+1)),some ⟨toString (n+1),deadline⟩)
      else (.error "ERR increment or decrement would overflow",some ⟨toString n,deadline⟩) := by
  have reads := lawful.tonumber_int limit ⟨by omega,settings.bounded⟩
  have counts := incr_counts (n := n) ⟨by omega,by simp only [top] at small; omega⟩ deadline
  rw [visit,found]
  split
  next below =>
    rw [if_pos ⟨by omega,by simp only [top] at below; omega⟩] at counts
    exact rateLimiting_counts reads counts (by omega)
  next full =>
    rw [if_neg fun fits => full (by have := fits.2; simp only [top]; omega)] at counts
    rw [rateLimiting,bind_error _ counts]

theorem visit_refines {held : Option Timed} {life : Option Window} (now : ℤ)
    (holds : Holds window held life) :
    ((visit engine (toString window) (toString (limit : ℤ)) held now).1 = .ok 1 ↔
      (arrive (1000*window) life now).calls ≤ limit) ∧
    Holds window (step engine (toString window) (toString (limit : ℤ)) held now)
      (some (arrive (1000*window) life now)) := by
  have found := current_holds now holds
  cases state : life.filter fun life => Open (1000*window) life now with
  | none =>
    rw [state] at found
    rw [step,visit_opens engine lawful settings found,arrive_shut state,Except.ok.injEq,
      reply_eq_one settings.sharp]
    have first : min ((1 : ℕ) : ℤ) top = 1 := by decide
    refine ⟨Nat.cast_le,le_rfl,?_⟩
    dsimp only
    rw [first]
    rfl
  | some running =>
    obtain ⟨rfl,inside⟩ := Option.filter_eq_some_iff.mp state
    rw [state] at found
    obtain ⟨counted,same⟩ := found
    have positive : 1 ≤ min (running.calls : ℤ) top := le_min (by omega) (by decide)
    rw [step,visit_counts engine lawful settings positive (min_le_right _ _) same,
      arrive_open (of_decide_eq_true inside)]
    split
    next below =>
      have exact : min (running.calls : ℤ) top = running.calls := min_eq_left (by omega)
      rw [exact] at below ⊢
      have next : min ((running.calls+1 : ℕ) : ℤ) top = running.calls+1 := by
        rw [min_eq_left (by omega)]
        push_cast
        rfl
      refine ⟨?_,Nat.le_add_left _ _,?_⟩
      · rw [Except.ok.injEq,reply_eq_one settings.sharp]
        exact_mod_cast Iff.rfl
      · rw [next]
    next full =>
      have bounded := settings.bounded
      have beyond : top ≤ running.calls := by omega
      have next : min ((running.calls+1 : ℕ) : ℤ) top = top := min_eq_right (by omega)
      refine ⟨iff_of_false (by simp) fun within => ?_,Nat.le_add_left _ _,?_⟩
      · simp only [top] at beyond
        dsimp only at within
        omega
      · rw [next,min_eq_right beyond]

theorem calls_refine {held : Option Timed} {life : Option Window} (times : List ℤ)
    (holds : Holds window held life) :
    calls engine (toString window) (toString (limit : ℤ)) held times =
      FixedWindow.calls (1000*window) limit life times := by
  induction times generalizing held life with
  | nil => rfl
  | cons now later ih =>
    obtain ⟨permitted,next⟩ := visit_refines engine lawful settings now holds
    rw [calls,FixedWindow.calls,ih next]
    have opens := holds_isNone (current_holds now holds)
    rw [call,opens,decide_eq_decide.mpr permitted]

theorem final_holds (before : List ℤ) {held : Option Timed} {life : Window}
    (holds : Holds window held (some life)) : ∃ after : Window, Holds window
      (final (step engine (toString window) (toString (limit : ℤ))) held before) (some after) := by
  induction before generalizing held life with
  | nil => exact ⟨life,holds⟩
  | cons now later ih =>
    exact ih (visit_refines engine lawful settings now holds).2

theorem limited (times : List ℤ) (sorted : times.Pairwise (· ≤ ·)) :
    Limited engine window limit times where
  lifetimes earlier life later := by
    rw [calls_refine engine lawful settings times (holds_none window)]
    exact permitted_lifetime
  intervals start stop short := by
    rw [calls_refine engine lawful settings times (holds_none window)]
    exact permittedIn_le none times sorted short
  timed before _ some := by
    obtain ⟨now,later,rfl⟩ := List.exists_cons_of_ne_nil some
    have opened := (visit_refines engine lawful settings
      now (holds_none window)).2
    obtain ⟨after,_,held⟩ := final_holds engine lawful settings
      later opened
    exact ⟨_,held,by simp⟩

end Window

theorem minute_settings : Settings decimal 60 2 :=
  ⟨by decide,by decide,by decide,by decide,by decide,by decide +kernel⟩

theorem limited_minute : Limited decimal 60 2 [0,10,20,60000,60001,70000] :=
  limited decimal decimal_lawful minute_settings _ (by decide)

theorem visit_congr {first second : String} (same : engine.tonumber first = engine.tonumber second)
    (held : Option Timed) (now : ℤ) :
    visit engine seconds first held now = visit engine seconds second held now := by
  simp only [visit,rateLimiting,same]

theorem calls_congr {first second : String} (same : engine.tonumber first = engine.tonumber second)
    (held : Option Timed) (times : List ℤ) :
    calls engine seconds first held times = calls engine seconds second held times := by
  induction times generalizing held with
  | nil => rfl
  | cons now later ih => simp only [calls,step,visit_congr engine seconds same,ih]

private theorem not_limited_blunt {window : ℤ} {limit : ℕ} {times : List ℤ}
    (blunt : engine.tonumber (toString (limit : ℤ)) = engine.tonumber (toString ((limit+1 : ℕ) : ℤ)))
    (wider : Limited engine window (limit+1) times) (more : times.length = limit+1)
    (life : Lifetime (calls engine (toString window) (toString ((limit+1 : ℕ) : ℤ)) none times))
    (counted : (calls engine (toString window) (toString ((limit+1 : ℕ) : ℤ)) none times).length =
      times.length) : ¬ Limited engine window limit times := by
  intro claimed
  have same := calls_congr engine (toString window) blunt none times
  have refused := claimed.lifetimes [] _ [] (by rw [List.nil_append,List.append_nil]) (same ▸ life)
  have permitted := wider.lifetimes [] _ [] (by rw [List.nil_append,List.append_nil]) life
  rw [same,permitted,counted,more] at refused
  have last : false ∈ List.replicate (min (limit+1) limit) true++
      List.replicate (limit+1-limit) false := by simp
  rw [← refused] at last
  simp at last

/-- The count that reaches 2^53+1 is still permitted, and a window that `EXPIRE`
refuses leaves the key without a deadline. -/
theorem blunt_limit_or_long_window :
    ¬ Limited decimal 1 (2^53) (List.replicate (2^53+1) 0) ∧
    ¬ Limited decimal 9223372036854776 1 [0] := by
  constructor
  · have blunt : decimal.tonumber (toString ((2^53 : ℕ) : ℤ)) =
        decimal.tonumber (toString ((2^53+1 : ℕ) : ℤ)) := by
      rw [decimal_tonumber,decimal_tonumber]
      decide +kernel
    have settings : Settings decimal 1 (2^53+1) :=
      ⟨by decide,by decide,by decide,by decide,by decide,by decide +kernel⟩
    have wider : Limited decimal 1 (2^53+1) (List.replicate (2^53+1) 0) :=
      limited decimal decimal_lawful settings _ (List.pairwise_replicate.mpr (.inr le_rfl))
    have traced : calls decimal (toString (1 : ℤ)) (toString ((2^53+1 : ℕ) : ℤ)) none
          (List.replicate (2^53+1) 0) =
        FixedWindow.calls (1000*1) (2^53+1) none (List.replicate (2^53+1) 0) :=
      calls_refine decimal decimal_lawful settings _ (holds_none 1)
    refine not_limited_blunt decimal blunt wider List.length_replicate ?_ ?_
    · rw [traced,List.replicate_succ]
      exact lifetime_calls fun now member => by
        rw [List.eq_of_mem_replicate member]
        decide
    · rw [traced,calls_length]
  · intro claimed
    obtain ⟨entry,held,timed⟩ := claimed.timed [0] List.prefix_rfl (by simp)
    have counted : incr none = (.ok 1,some ⟨"1",none⟩) := rfl
    have refused : expire decimal 0 (toString (9223372036854776 : ℤ)) (some ⟨"1",none⟩) =
        (.error "ERR invalid expire time in 'expire' command",some ⟨"1",none⟩) := by
      rw [expire,readInteger_toString (by decide)]
      rfl
    have ran : rateLimiting decimal 0 (toString (9223372036854776 : ℤ)) (toString ((1 : ℕ) : ℤ)) none =
        (.error "ERR invalid expire time in 'expire' command",some ⟨"1",none⟩) := by
      rw [rateLimiting,bind_ok _ counted,if_pos ((ofInt_eq_one 1).mpr rfl)]
      exact bind_error _ refused
    have after : step decimal (toString (9223372036854776 : ℤ)) (toString ((1 : ℕ) : ℤ)) none 0 =
        some ⟨"1",none⟩ := congrArg Prod.snd ran
    rw [final_cons,final_nil,after] at held
    cases held
    exact timed rfl

end YzFramework.Redis.RateLimiting

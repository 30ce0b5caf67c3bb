import Mathlib.Data.List.Basic
import Mathlib.Data.List.Pairwise
import Mathlib.Algebra.Order.Ring.Int

/-! Fixed-window limiters: the first call opens a window of a fixed length, which
permits a fixed number of calls; the first call after its end opens the next one. -/
namespace YzFramework.Library.FixedWindow

structure Window where
  opened : ℤ
  calls : ℕ

structure Call where
  now : ℤ
  opens : Bool
  permitted : Bool
deriving DecidableEq

variable (length : ℤ) (limit : ℕ)

def Open (window : Window) (now : ℤ) : Prop := now ≤ window.opened+length

instance (window : Window) (now : ℤ) : Decidable (Open length window now) :=
  inferInstanceAs (Decidable (_ ≤ _))

def arrive (window : Option Window) (now : ℤ) : Window :=
  match window.filter fun window => Open length window now with
  | some window => {window with calls := window.calls+1}
  | none => ⟨now,1⟩

def call (window : Option Window) (now : ℤ) : Call :=
  ⟨now,(window.filter fun window => Open length window now).isNone,
    (arrive length window now).calls ≤ limit⟩

def calls : Option Window → List ℤ → List Call
  | _,[] => []
  | window,now::later => call length limit window now::calls (some (arrive length window now)) later

/-- A call that opens a window and some of the calls in it, in order. -/
def Lifetime (life : List Call) : Prop :=
  ∃ first rest, life = first::rest ∧ first.opens = true ∧ ∀ call ∈ rest, call.opens = false

def permittedIn (start stop : ℤ) (made : List Call) : ℕ :=
  made.countP fun call => call.permitted && (start ≤ call.now && call.now ≤ stop)

variable {length limit}

theorem arrive_open {window : Window} {now : ℤ} (inside : Open length window now) :
    arrive length (some window) now = {window with calls := window.calls+1} := by
  have kept : (some window).filter (fun window => Open length window now) = some window := by
    simp [Option.filter,inside]
  rw [arrive,kept]

theorem arrive_shut {window : Option Window} {now : ℤ}
    (shut : (window.filter fun window => Open length window now) = none) :
    arrive length window now = ⟨now,1⟩ := by
  rw [arrive,shut]

theorem calls_suffix {window : Option Window} {times : List ℤ} {earlier rest : List Call}
    (split : calls length limit window times = earlier++rest) :
    ∃ after later, rest = calls length limit after later := by
  induction earlier generalizing window times with
  | nil => exact ⟨window,times,split.symm⟩
  | cons first others ih =>
    cases times with
    | nil => simp [calls] at split
    | cons now later =>
      rw [calls,List.cons_append,List.cons.injEq] at split
      exact ih split.2

theorem counted_cons (count more limit : ℕ) : decide (count+1 ≤ limit) ::
    (List.replicate (min more (limit-(count+1))) true++List.replicate (more-(limit-(count+1))) false) =
      List.replicate (min (more+1) (limit-count)) true++
        List.replicate (more+1-(limit-count)) false := by
  by_cases below : count+1 ≤ limit
  · have left : limit-count = limit-(count+1)+1 := by omega
    rw [left,Nat.add_min_add_right,Nat.add_sub_add_right,List.replicate_succ,decide_eq_true below]
    rfl
  · have spent : limit-count = 0 := by omega
    have spent' : limit-(count+1) = 0 := by omega
    rw [spent,spent',Nat.min_zero,Nat.min_zero,Nat.sub_zero,Nat.sub_zero,decide_eq_false below,
      List.replicate_succ]
    rfl

theorem permitted_counted {window : Window} {times : List ℤ} {life later : List Call}
    (split : calls length limit (some window) times = life++later)
    (inside : ∀ call ∈ life, call.opens = false) :
    life.map Call.permitted =
      List.replicate (min life.length (limit-window.calls)) true++
        List.replicate (life.length-(limit-window.calls)) false := by
  induction life generalizing window times with
  | nil => simp
  | cons first rest ih =>
    cases times with
    | nil => simp [calls] at split
    | cons now others =>
      rw [calls,List.cons_append,List.cons.injEq] at split
      obtain ⟨rfl,split⟩ := split
      have opened : Open length window now := by
        have := inside _ List.mem_cons_self
        by_contra shut
        simp [call,shut] at this
      rw [arrive_open opened] at split
      rw [List.map_cons,ih split fun call member => inside call (List.mem_cons_of_mem _ member)]
      have flag : (call length limit (some window) now).permitted = decide (window.calls+1 ≤ limit) := by
        rw [call,arrive_open opened]
      rw [flag,List.length_cons]
      exact counted_cons window.calls rest.length limit

/-- A lifetime permits its first calls, up to the limit, and refuses all others. -/
theorem permitted_lifetime {times : List ℤ} {earlier life later : List Call}
    (split : calls length limit none times = earlier++life++later) (lifetime : Lifetime life) :
    life.map Call.permitted =
      List.replicate (min life.length limit) true++List.replicate (life.length-limit) false := by
  obtain ⟨first,rest,rfl,opens,inside⟩ := lifetime
  rw [List.append_assoc] at split
  obtain ⟨window,times,found⟩ := calls_suffix split
  cases times with
  | nil => simp [calls] at found
  | cons now others =>
    rw [calls,List.cons_append,List.cons.injEq] at found
    obtain ⟨rfl,found⟩ := found
    have shut : (window.filter fun window => Open length window now) = none := by
      simpa only [call,Option.isNone_iff_eq_none] using opens
    rw [arrive_shut shut] at found
    have counted := permitted_counted found.symm inside
    have flag : (call length limit window now).permitted = decide (1 ≤ limit) := by
      rw [call,arrive_shut shut]
    rw [List.map_cons,counted,flag,List.length_cons]
    exact counted_cons 0 rest.length limit

theorem calls_length (window : Option Window) (times : List ℤ) :
    (calls length limit window times).length = times.length := by
  induction times generalizing window with
  | nil => rfl
  | cons now later ih => rw [calls,List.length_cons,ih,List.length_cons]

theorem opens_inside {window : Window} {times : List ℤ}
    (inside : ∀ now ∈ times, Open length window now) :
    ∀ call ∈ calls length limit (some window) times, call.opens = false := by
  induction times generalizing window with
  | nil => simp [calls]
  | cons now later ih =>
    have opened := inside now List.mem_cons_self
    rw [calls,List.forall_mem_cons,arrive_open opened]
    refine ⟨by simp [call,opened],ih fun other member => ?_⟩
    exact inside other (List.mem_cons_of_mem _ member)

theorem lifetime_calls {first : ℤ} {later : List ℤ} (inside : ∀ now ∈ later, now ≤ first+length) :
    Lifetime (calls length limit none (first::later)) :=
  ⟨_,_,rfl,rfl,opens_inside inside⟩

section Intervals

variable {start stop : ℤ}

theorem permittedIn_cons (window : Option Window) (now : ℤ) (later : List ℤ) :
    permittedIn start stop (calls length limit window (now::later)) =
      permittedIn start stop (calls length limit (some (arrive length window now)) later)+
        if (arrive length window now).calls ≤ limit ∧ start ≤ now ∧ now ≤ stop then 1 else 0 := by
  simp only [permittedIn,calls,call,List.countP_cons,Bool.and_eq_true,decide_eq_true_eq]

theorem permittedIn_past (window : Option Window) (times : List ℤ) (past : ∀ now ∈ times, stop < now) :
    permittedIn start stop (calls length limit window times) = 0 := by
  induction times generalizing window with
  | nil => rfl
  | cons now later ih =>
    have after := past now List.mem_cons_self
    rw [permittedIn_cons,ih _ fun other member => past other (List.mem_cons_of_mem _ member),
      if_neg fun both => absurd both.2.2 (not_le.mpr after)]

theorem permittedIn_window (window : Window) (times : List ℤ) (sorted : times.Pairwise (· ≤ ·))
    (inside : stop ≤ window.opened+length) :
    permittedIn start stop (calls length limit (some window) times) ≤ limit-window.calls := by
  induction times generalizing window with
  | nil => exact Nat.zero_le _
  | cons now later ih =>
    rw [List.pairwise_cons] at sorted
    rw [permittedIn_cons]
    rcases le_or_gt now stop with before | after
    · have opened : Open length window now := before.trans inside
      have rest := ih {window with calls := window.calls+1} sorted.2 inside
      rw [arrive_open opened]
      split <;> dsimp only at * <;> omega
    · rw [permittedIn_past _ later fun other member => after.trans_le (sorted.1 other member),
        if_neg fun both => absurd both.2.2 (not_le.mpr after)]
      exact Nat.zero_le _

def left (limit : ℕ) : Option Window → ℕ
  | some window => limit-window.calls
  | none => 0

/-- From the start of the interval: what is left of an open window, and one more. -/
theorem permittedIn_started (window : Option Window) (times : List ℤ) (sorted : times.Pairwise (· ≤ ·))
    (started : ∀ now ∈ times, start ≤ now) (short : stop-start ≤ length) :
    permittedIn start stop (calls length limit window times) ≤ left limit window+limit := by
  induction times generalizing window with
  | nil => exact Nat.zero_le _
  | cons now later ih =>
    rw [List.pairwise_cons] at sorted
    have begun := started now List.mem_cons_self
    have tail := fun other member => started other (List.mem_cons_of_mem _ member)
    rw [permittedIn_cons]
    cases state : window.filter fun window => Open length window now with
    | none =>
      have rest : permittedIn start stop (calls length limit (some ⟨now,1⟩) later) ≤ limit-1 :=
        permittedIn_window _ later sorted.2 (by dsimp only; omega)
      rw [arrive_shut state]
      split <;> dsimp only at * <;> omega
    | some current =>
      obtain ⟨rfl,opened⟩ := Option.filter_eq_some_iff.mp state
      have rest := ih (some {current with calls := current.calls+1}) sorted.2 tail
      rw [arrive_open (of_decide_eq_true opened)]
      simp only [left] at rest ⊢
      split <;> omega

/-- An interval no longer than a window meets at most two of them. -/
theorem permittedIn_le (window : Option Window) (times : List ℤ) (sorted : times.Pairwise (· ≤ ·))
    (short : stop-start ≤ length) :
    permittedIn start stop (calls length limit window times) ≤ 2*limit := by
  induction times generalizing window with
  | nil => exact Nat.zero_le _
  | cons now later ih =>
    rcases lt_or_ge now start with before | begun
    · rw [permittedIn_cons,if_neg fun both => absurd both.2.1 (not_le.mpr before)]
      exact ih _ (List.pairwise_cons.mp sorted).2
    · have started : ∀ other ∈ now::later, start ≤ other := by
        intro other member
        rcases List.mem_cons.mp member with rfl | member
        · exact begun
        · exact begun.trans ((List.pairwise_cons.mp sorted).1 other member)
      have bound : permittedIn start stop (calls length limit window (now::later)) ≤
          left limit window+limit := permittedIn_started window _ sorted started short
      have spare : left limit window ≤ limit := by
        cases window with
        | none => exact Nat.zero_le _
        | some window => exact Nat.sub_le _ _
      omega

end Intervals

end YzFramework.Library.FixedWindow

import YzFramework.Redis.Commands
import YzFramework.Library.Run

/-! `atomicDecrease` and stock_decrease.lua on one stock key.
The amounts are texts of the callers; what was sold is the sum of the amounts of
the calls that reported success. -/
namespace YzFramework.Redis
open Library Library.Store Library.Script Library.Run

def stockDecrease (engine : Engine) (key increment : String) : Script Database String := do
  let currentStock ← get key
  match currentStock with
  | none => return "NOKEY"
  | some currentStock =>
    let currentStockNum := engine.tonumber currentStock
    let increment := engine.tonumber increment
    if ← enough currentStockNum increment then
      let _ ← decrease engine key increment
      return "OK"
    else return "NO"

def atomicDecrease (engine : Engine) (keys : List String) (increment : String) :
    Script Database (Option String) :=
  match keys with
  | [key] => do
    let result ← stockDecrease engine key increment
    return some result
  | _ => return none

namespace StockDecrease

variable (engine : Engine) (key : String)

/-- An integer amount as written, another one as Lua reads it. -/
def amount (increment : String) : ℚ :=
  match increment.toInt? with
  | some n => n
  | none => ((engine.tonumber increment).map Number.value).getD 0

structure Sale where
  store : Database
  sold : ℚ := 0

structure Call where
  keys : List String
  increment : String

def step (sale : Sale) (call : Call) : Sale :=
  match atomicDecrease engine call.keys call.increment sale.store with
  | (.ok (some "OK"),store) =>
    {store := store,sold := sale.sold+if call.keys = [key] then amount engine call.increment else 0}
  | (_,store) => {sale with store := store}

def Conserves (initial : ℤ) (sale : Sale) (call : Call) : Prop :=
  ∃ before after, Stocked sale.store key before ∧ Stocked (step engine key sale call).store key after ∧
    0 ≤ after ∧ after ≤ before ∧ (initial-after : ℚ) = (step engine key sale call).sold

/-- The amount is a whole number up to the stock, and `INCRBY` is given its negation. -/
def Whole (increment : String) (stock delta : ℤ) : Prop :=
  ∃ n : ℤ, amount engine increment = n ∧ 0 ≤ n ∧ n ≤ stock ∧ delta = -n

/-- Every amount that is let through and that `INCRBY` accepts is whole. -/
def Fit (sale : Sale) (call : Call) : Prop :=
  call.keys = [key] → ∀ stock delta, Stocked sale.store key stock →
    Sells engine (toString stock) call.increment delta → InRange (stock+delta) →
      Whole engine call.increment stock delta

variable {engine key}

theorem stockDecrease_sells {store : Database} {entry : Entry} {increment : String} {delta n : ℤ}
    (found : store key = some (.string entry)) (sells : Sells engine entry.value increment delta)
    (read : readInteger entry.value = some n) (fits : InRange (n+delta)) :
    stockDecrease engine key increment store =
      (.ok "OK",put store key (.string ⟨toString (n+delta),entry.px⟩)) :=
  (bind_ok _ (get_string found)).trans (sell_sells (pure ()) found sells read fits rfl)

theorem stockDecrease_refuses (engine : Engine) {store : Database} (increment : String)
    (refused : ∀ entry delta n, store key = some (.string entry) →
      Sells engine entry.value increment delta → readInteger entry.value = some n →
        ¬ InRange (n+delta)) :
    ∃ answer, answer ≠ .ok "OK" ∧ stockDecrease engine key increment store = (answer,store) := by
  cases present : store key with
  | none => exact ⟨.ok "NOKEY",by simp,bind_ok _ (get_none present)⟩
  | some held =>
    cases held with
    | collection =>
      obtain ⟨fault,wrong⟩ := get_collection present
      exact ⟨.error fault,by simp,bind_error _ wrong⟩
    | string entry =>
      obtain ⟨answer,unsold,ran⟩ := sell_refuses (pure ()) present fun delta n sells read =>
        refused entry delta n present sells read
      exact ⟨answer,unsold,(bind_ok _ (get_string present)).trans ran⟩

theorem stockDecrease_cases (engine : Engine) (key : String) (store : Database) (increment : String) :
    (∃ entry delta n, store key = some (.string entry) ∧ Sells engine entry.value increment delta ∧
      readInteger entry.value = some n ∧ InRange (n+delta)) ∨
    ∃ answer, answer ≠ .ok "OK" ∧ stockDecrease engine key increment store = (answer,store) := by
  by_cases sold : ∃ entry delta n, store key = some (.string entry) ∧
      Sells engine entry.value increment delta ∧ readInteger entry.value = some n ∧ InRange (n+delta)
  · exact .inl sold
  · exact .inr (stockDecrease_refuses engine increment fun entry delta n found sells read fits =>
      sold ⟨entry,delta,n,found,sells,read,fits⟩)

theorem step_sells (key : String) {sale : Sale} {place increment : String} {after : Database}
    (ran : stockDecrease engine place increment sale.store = (.ok "OK",after)) :
    step engine key sale ⟨[place],increment⟩ =
      ⟨after,sale.sold+if place = key then amount engine increment else 0⟩ := by
  have reply : atomicDecrease engine [place] increment sale.store = (.ok (some "OK"),after) :=
    bind_map some ran
  simp only [step,reply,List.cons.injEq,and_true]

theorem step_refuses {sale : Sale} {place increment : String} {answer : Except String String}
    (refused : answer ≠ .ok "OK")
    (ran : stockDecrease engine place increment sale.store = (answer,sale.store)) :
    step engine key sale ⟨[place],increment⟩ = sale := by
  have reply : atomicDecrease engine [place] increment sale.store = (answer.map some,sale.store) :=
    bind_map some ran
  simp only [step,reply]
  split
  next same => exact absurd (congrArg Prod.fst same) (mt map_some_eq.mp refused)
  next same =>
    cases (Prod.mk.inj same).2
    rfl

theorem step_other (engine : Engine) (sale : Sale) {call : Call} (other : call.keys ≠ [key]) :
    (step engine key sale call).store key = sale.store key ∧
      (step engine key sale call).sold = sale.sold := by
  obtain ⟨keys,increment⟩ := call
  match keys with
  | [] => exact ⟨rfl,rfl⟩
  | first::second::rest => exact ⟨rfl,rfl⟩
  | [place] =>
    have different : key ≠ place := fun same => other (by rw [same])
    rcases stockDecrease_cases engine place sale.store increment with
      ⟨entry,delta,n,found,sells,read,fits⟩ | ⟨answer,refused,ran⟩
    · rw [step_sells key (stockDecrease_sells found sells read fits)]
      simp [put_apply,different,different.symm]
    · rw [step_refuses refused ran]
      exact ⟨rfl,rfl⟩

/-- The stock and what was sold of it. -/
structure Balanced (key : String) (initial : ℤ) (sale : Sale) (stock : ℤ) : Prop where
  stocked : Stocked sale.store key stock
  nonneg : 0 ≤ stock
  balance : (initial-stock : ℚ) = sale.sold

theorem Balanced.kept {initial stock : ℤ} {sale : Sale} {call : Call}
    (balanced : Balanced key initial sale stock)
    (same : (step engine key sale call).store key = sale.store key)
    (sold : (step engine key sale call).sold = sale.sold) :
    Balanced key initial (step engine key sale call) stock where
  stocked := ⟨balanced.stocked.1,same ▸ balanced.stocked.2⟩
  nonneg := balanced.nonneg
  balance := sold ▸ balanced.balance

theorem Balanced.conserves {initial stock after : ℤ} {sale : Sale} {call : Call}
    (balanced : Balanced key initial sale stock) (sank : after ≤ stock)
    (reached : Balanced key initial (step engine key sale call) after) :
    Conserves engine key initial sale call :=
  ⟨stock,after,balanced.stocked,reached.stocked,reached.nonneg,sank,reached.balance⟩

private theorem sells_iff_whole {initial stock delta : ℤ} {sale : Sale} {increment : String}
    (balanced : Balanced key initial sale stock) (sells : Sells engine (toString stock) increment delta)
    (fits : InRange (stock+delta)) :
    (Conserves engine key initial sale ⟨[key],increment⟩ → Whole engine increment stock delta) ∧
    (Whole engine increment stock delta →
      Balanced key initial (step engine key sale ⟨[key],increment⟩) (stock+delta)) := by
  obtain ⟨stocked,nonneg,balance⟩ := balanced
  obtain ⟨inRange,px,found⟩ := stocked
  have stepped := step_sells key (stockDecrease_sells found sells (readInteger_toString inRange) fits)
  rw [if_pos rfl] at stepped
  have moved : Stocked (step engine key sale ⟨[key],increment⟩).store key (stock+delta) := by
    rw [stepped]
    exact stocked_put fits px
  constructor
  · intro conserves
    obtain ⟨before,after,stocked,reached,above,below,left⟩ := conserves
    cases stocked_unique stocked ⟨inRange,px,found⟩
    cases stocked_unique reached moved
    rw [stepped] at left
    push_cast at left
    refine ⟨-delta,?_,by omega,by omega,by omega⟩
    push_cast
    linarith
  · intro fit
    obtain ⟨n,exact,_,below,rfl⟩ := fit
    refine ⟨moved,by omega,?_⟩
    rw [stepped]
    push_cast
    linarith

theorem step_agrees {initial stock : ℤ} {sale : Sale} (call : Call)
    (balanced : Balanced key initial sale stock) :
    (Conserves engine key initial sale call ↔ Fit engine key sale call) ∧
      (Fit engine key sale call → ∃ after, Balanced key initial (step engine key sale call) after) := by
  by_cases sold : call.keys = [key] ∧ ∃ delta, Sells engine (toString stock) call.increment delta ∧
      InRange (stock+delta)
  · obtain ⟨keys,increment⟩ := call
    obtain ⟨rfl,delta,sells,fits⟩ := sold
    obtain ⟨needed,enough⟩ := sells_iff_whole balanced sells fits
    have fit_iff : Fit engine key sale ⟨[key],increment⟩ ↔ Whole engine increment stock delta := by
      constructor
      · intro fit
        exact fit rfl stock delta balanced.stocked sells fits
      · intro whole _ other change stocked sells' _
        cases stocked_unique stocked balanced.stocked
        cases Option.some.inj (sells'.2.symm.trans sells.2)
        exact whole
    refine ⟨⟨fun conserves => fit_iff.mpr (needed conserves),fun fit => ?_⟩,
      fun fit => ⟨_,enough (fit_iff.mp fit)⟩⟩
    obtain ⟨n,exact,nonneg,below,rfl⟩ := fit_iff.mp fit
    exact balanced.conserves (by omega) (enough ⟨n,exact,nonneg,below,rfl⟩)
  · have fit : Fit engine key sale call := fun keys other delta stocked sells fits => by
      cases stocked_unique stocked balanced.stocked
      exact absurd ⟨keys,delta,sells,fits⟩ sold
    have kept : Balanced key initial (step engine key sale call) stock := by
      by_cases ours : call.keys = [key]
      · obtain ⟨keys,increment⟩ := call
        cases ours
        obtain ⟨inRange,px,found⟩ := balanced.stocked
        obtain ⟨answer,refused,ran⟩ := stockDecrease_refuses engine increment
          fun entry delta n present sells read fits => by
            cases found.symm.trans present
            cases Option.some.inj ((readInteger_toString inRange).symm.trans read)
            exact sold ⟨rfl,delta,sells,fits⟩
        rw [step_refuses refused ran]
        exact balanced
      · obtain ⟨same,unsold⟩ := step_other engine sale ours
        exact balanced.kept same unsold
    exact ⟨iff_of_true (balanced.conserves le_rfl kept) fit,fun _ => ⟨stock,kept⟩⟩

theorem run_sold_iff (initial : ℤ) (store : Database) (nonneg : 0 ≤ initial)
    (stocked : Stocked store key initial) (calls : List Call) :
    Along (step engine key) (Conserves engine key initial) {store := store} calls ↔
      Along (step engine key) (Fit engine key) {store := store} calls := by
  have agree : ∀ sale call, (∃ stock, Balanced key initial sale stock) →
      (Conserves engine key initial sale call ↔ Fit engine key sale call) := by
    intro sale call reached
    obtain ⟨_,balanced⟩ := reached
    exact (step_agrees call balanced).1
  have preserved : ∀ sale call, (∃ stock, Balanced key initial sale stock) →
      Fit engine key sale call → ∃ stock, Balanced key initial (step engine key sale call) stock := by
    intro sale call reached
    obtain ⟨_,balanced⟩ := reached
    exact (step_agrees call balanced).2
  exact along_iff agree preserved _ calls ⟨initial,stocked,nonneg,by simp⟩

private theorem fit_counted (lawful : engine.Lawful) (sale : Sale) (keys : List String) {n : ℤ} (nonneg : 0 ≤ n)
    (small : n ≤ 2^53) : Fit engine key sale ⟨keys,toString n⟩ := by
  intro _ stock delta stocked sells _
  obtain ⟨guard,moved⟩ := sells
  dsimp only at guard moved
  rw [lawful.enough_int stock stocked.1 nonneg small] at guard
  have amount_eq : amount engine (toString n) = n := by
    have parsed : (toString n).toInt? = some n := Int.toInt?_repr n
    simp only [amount,parsed]
  have taken : delta = -n := by
    rcases nonneg.eq_or_lt with rfl | positive
    · rw [lawful.tonumber_small (by decide)] at moved
      exact lawful.written_zero moved
    · rw [lawful.delta_int positive small] at moved
      exact (Option.some.inj moved).symm
  subst taken
  have covered : 0 < stock ∧ n ≤ stock := by simpa using guard
  exact ⟨n,amount_eq,nonneg,covered.2,rfl⟩

theorem run_sold_iff_two_calls :
    Along (step decimal "stock") (Conserves decimal "stock" 10) {store := shelf "stock" 10}
      [⟨["stock"],"3"⟩,⟨["stock"],"9"⟩] :=
  (run_sold_iff 10 (shelf "stock" 10) (by decide) (shelf_stocked _ (by decide)) _).mpr
    ⟨fit_counted (n := 3) decimal_lawful _ _ (by decide) (by decide),
      fit_counted (n := 9) decimal_lawful _ _ (by decide) (by decide),trivial⟩

theorem negative_amount_restocks :
    Stocked (step decimal "stock" {store := shelf "stock" 10} ⟨["stock"],"-5"⟩).store "stock" 15 ∧
    ¬ Along (step decimal "stock") (Conserves decimal "stock" 10) {store := shelf "stock" 10}
      [⟨["stock"],"-5"⟩] := by
  have inRange : InRange 10 := by decide
  have guard : enough (some (.ofInt 10)) (some (.ofInt (-5))) = .ok true := by decide +kernel
  have negated : decimal.tostring (Number.neg (.ofInt (-5))) = toString (5 : ℤ) := by
    rw [Number.ofInt_small (-5) (by decide),Number.neg_int (by decide)]
    exact decimal_tostring (by decide)
  have sells : Sells decimal (toString (10 : ℤ)) (toString (-5 : ℤ)) 5 := by
    rw [Sells,decimal_tonumber,decimal_tonumber]
    refine ⟨guard,?_⟩
    change readInteger (decimal.tostring (Number.neg (.ofInt (-5)))) = some 5
    rw [negated]
    exact readInteger_toString (by decide)
  constructor
  · have found : shelf "stock" 10 "stock" = some (.string ⟨toString (10 : ℤ),none⟩) := rfl
    have ran := stockDecrease_sells found sells (readInteger_toString inRange) (by decide)
    rw [show toString (-5 : ℤ) = "-5" by decide] at ran
    rw [step_sells "stock" ran]
    exact stocked_put (by decide) none
  · intro along
    have stocked := shelf_stocked "stock" inRange
    have fit := (run_sold_iff 10 _ (by decide) stocked _).mp along
    obtain ⟨n,_,nonneg,_,same⟩ := fit.1 rfl 10 5 stocked sells (by decide)
    omega

end StockDecrease
end YzFramework.Redis

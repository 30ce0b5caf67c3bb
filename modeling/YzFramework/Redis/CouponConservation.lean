import YzFramework.Redis.CouponStockDecrease
import YzFramework.Library.Run

/-! Runs of `atomicDecreaseForCoupon` by many users on one stock key, without expiry
of their counters. Every purchase takes at least one and at most what its user
may take in all, and gives a positive time to live. -/
namespace YzFramework.Redis.CouponConservation
open Library Library.Store Library.Script Library.Run CouponStockDecrease

variable {User : Type*} [DecidableEq User]

structure Purchase (engine : Engine) (perPersonLimit : User → ℤ) where
  user : User
  increment : ℤ
  ttl : String
  least : 1 ≤ increment
  most : increment ≤ perPersonLimit user
  lasting : ∃ number, engine.tonumber ttl = some number ∧ Number.lt (.finite 0) number = true

/-- The store, what the successful calls took and what each user was granted. -/
structure Sale (User : Type*) where
  store : Database
  sold : ℤ := 0
  granted : User → ℤ := fun _ => 0

/-- `Integer.parseInt` on what `String.valueOf` writes. -/
def ParsesInts (parseInt : String → Option ℤ) : Prop :=
  ∀ n : ℤ, parseInt (toString n) = if -2^31 ≤ n ∧ n < 2^31 then some n else none

variable (engine : Engine) (parseInt : String → Option ℤ) (stock : String) (counter : User → String)
  (perPersonLimit : User → ℤ)

def step (sale : Sale User) (purchase : Purchase engine perPersonLimit) : Sale User :=
  match atomicDecreaseForCoupon engine parseInt [stock,counter purchase.user]
      (toString purchase.increment) (toString (perPersonLimit purchase.user)) purchase.ttl sale.store with
  | (.ok (some "OK"),store) =>
    {store := store
     sold := sale.sold+purchase.increment
     granted := Function.update sale.granted purchase.user
       (sale.granted purchase.user+purchase.increment)}
  | (_,store) => {sale with store := store}

structure Conserved (initial : ℤ) (sale : Sale User) : Prop where
  stocked : ∃ left, Stocked sale.store stock left ∧ 0 ≤ left ∧ initial-left = sale.sold
  limited : ∀ user, sale.granted user ≤ perPersonLimit user
  remaining : ∀ user, sale.store (counter user) ≠ none →
    Stocked sale.store (counter user) (perPersonLimit user-sale.granted user)

def Conserves (initial : ℤ) (sale : Sale User) (purchase : Purchase engine perPersonLimit) : Prop :=
  Conserved stock counter perPersonLimit initial
    (step engine parseInt stock counter perPersonLimit sale purchase)

/-- A first purchase that the stock covers has a time to live that `SET` takes. -/
def Fit (sale : Sale User) (purchase : Purchase engine perPersonLimit) : Prop :=
  sale.store (counter purchase.user) = none → perPersonLimit purchase.user < 2^31 →
    ∀ left, Stocked sale.store stock left → purchase.increment ≤ left →
      Lasts engine (engine.tonumber purchase.ttl)

/-- `Conserved`, and only who was granted something has a counter. -/
structure Tracked (initial : ℤ) (sale : Sale User) : Prop where
  conserved : Conserved stock counter perPersonLimit initial sale
  nonneg : ∀ user, 0 ≤ sale.granted user
  fresh : ∀ user, sale.store (counter user) = none → sale.granted user = 0

/-- The call conserves exactly if it is fit, and a fit one leaves the state tracked. -/
def Agrees (initial : ℤ) (sale : Sale User) (purchase : Purchase engine perPersonLimit) : Prop :=
  (Conserves engine parseInt stock counter perPersonLimit initial sale purchase ↔
    Fit engine stock counter perPersonLimit sale purchase) ∧
  (Fit engine stock counter perPersonLimit sale purchase →
    Tracked stock counter perPersonLimit initial
      (step engine parseInt stock counter perPersonLimit sale purchase))

variable {engine parseInt stock counter perPersonLimit}

theorem step_sold {sale : Sale User} {purchase : Purchase engine perPersonLimit} {after : Database}
    (parses : Passes parseInt (toString purchase.increment) (toString (perPersonLimit purchase.user)))
    (ran : couponStockDecrease engine stock (counter purchase.user) (toString purchase.increment)
      (toString (perPersonLimit purchase.user)) purchase.ttl sale.store = (.ok "OK",after)) :
    step engine parseInt stock counter perPersonLimit sale purchase =
      ⟨after,sale.sold+purchase.increment,Function.update sale.granted purchase.user
        (sale.granted purchase.user+purchase.increment)⟩ := by
  have reply := (atomicDecreaseForCoupon_passes _ _ _ _ _ parses).trans (bind_map some ran)
  rw [step,reply]
  rfl

theorem step_failed {sale : Sale User} {purchase : Purchase engine perPersonLimit} {after : Database}
    {answer : Except String (Option String)} (failed : answer ≠ .ok (some "OK"))
    (ran : atomicDecreaseForCoupon engine parseInt [stock,counter purchase.user]
      (toString purchase.increment) (toString (perPersonLimit purchase.user)) purchase.ttl sale.store =
        (answer,after)) :
    step engine parseInt stock counter perPersonLimit sale purchase = {sale with store := after} := by
  rw [step,ran]
  split
  next same => exact absurd (congrArg Prod.fst same) failed
  next same =>
    cases (Prod.mk.inj same).2
    rfl

theorem step_unsold {sale : Sale User} {purchase : Purchase engine perPersonLimit} {after : Database}
    {answer : Except String String} (failed : answer ≠ .ok "OK")
    (parses : Passes parseInt (toString purchase.increment) (toString (perPersonLimit purchase.user)))
    (ran : couponStockDecrease engine stock (counter purchase.user) (toString purchase.increment)
      (toString (perPersonLimit purchase.user)) purchase.ttl sale.store = (answer,after)) :
    step engine parseInt stock counter perPersonLimit sale purchase = {sale with store := after} :=
  step_failed (mt map_some_eq.mp failed)
    ((atomicDecreaseForCoupon_passes _ _ _ _ _ parses).trans (bind_map some ran))

theorem step_refused {sale : Sale User} {purchase : Purchase engine perPersonLimit}
    (refused : ¬ Passes parseInt (toString purchase.increment)
      (toString (perPersonLimit purchase.user))) :
    step engine parseInt stock counter perPersonLimit sale purchase = sale := by
  have refuses : ¬ ((∃ first second, [stock,counter purchase.user] = [first,second]) ∧
      Passes parseInt (toString purchase.increment) (toString (perPersonLimit purchase.user))) :=
    fun both => refused both.2
  obtain ⟨answer,failed,ran⟩ := atomicDecreaseForCoupon_refuses engine sale.store purchase.ttl refuses
  exact step_failed failed ran

section Calls

variable (lawful : engine.Lawful) {store : Database} {person ttl : String} {increment limit left held : ℤ}
  (positive : 0 < increment) (small : increment ≤ 2^53)
include lawful positive small

private theorem refuses_short (person : String) (limit : ℤ) (ttl : String)
    (stocked : Stocked store stock left) (short : left < increment) :
    ∃ answer, answer ≠ .ok "OK" ∧ couponStockDecrease engine stock person (toString increment)
      (toString limit) ttl store = (answer,store) := by
  obtain ⟨fits,px,found⟩ := stocked
  have refused : ∀ delta n, Sells engine (toString left) (toString increment) delta →
      readInteger (toString left) = some n → ¬ InRange (n+delta) := fun _ _ sells _ =>
    absurd sells (lawful.not_sells fits positive.le small short)
  by_cases idle : ∀ entry, store stock = some (.string entry) →
      store person ≠ none ∧ ∀ owner, store person = some (.string owner) →
        enough (engine.tonumber owner.value) (engine.tonumber (toString increment)) ≠ .ok true
  · exact couponStockDecrease_idle _ _ idle
  · push Not at idle
    obtain ⟨entry,same,bought⟩ := idle
    cases found.symm.trans same
    cases holding : store person with
    | none =>
      rw [first_purchase found holding]
      exact sell_refuses _ found refused
    | some held =>
      obtain ⟨owner,known,covered⟩ := bought (by simp [holding])
      rw [later_purchase found known covered]
      exact sell_refuses _ found refused

private theorem first_sells (stocked : Stocked store stock left) (absent : store person = none)
    (covered : increment ≤ left) (most : increment ≤ limit) (bounded : limit ≤ 2^53)
    (lasts : Lasts engine (engine.tonumber ttl)) : ∃ px px',
    couponStockDecrease engine stock person (toString increment) (toString limit) ttl store =
      (.ok "OK",put (put store stock (.string ⟨toString (left-increment),px⟩)) person
        (.string ⟨toString (limit-increment),px'⟩)) := by
  obtain ⟨fits,px,found⟩ := stocked
  have different : person ≠ stock := fun same => by
    rw [same,found] at absent
    cases absent
  have sells := lawful.sells_int fits positive small covered
  have inRange : InRange (left+-increment) := ⟨by omega,by have := fits.2; omega⟩
  have exact : ∀ n : ℤ, 0 ≤ n → n ≤ limit → |n| ≤ 2^53 := fun n nonneg below =>
    abs_le.mpr ⟨by omega,by omega⟩
  have unmoved : put store stock (.string ⟨toString (left+-increment),px⟩) person = none := by
    rw [put_apply,if_neg different,absent]
  obtain ⟨px',set⟩ := setRemaining_sets (.finite limit) (.finite increment) lasts unmoved
  rw [Number.sub_int (exact _ (by omega) (by omega)),
    lawful.tostring_int _ (exact _ (by omega) (by omega)),
    ← lawful.tonumber_small (exact _ (by omega) le_rfl),
    ← lawful.tonumber_small (exact _ positive.le most)] at set
  rw [first_purchase found absent]
  exact ⟨px,px',sell_sells _ found sells (readInteger_toString fits) inRange set⟩

private theorem first_leaks (limit : ℤ) (stocked : Stocked store stock left) (absent : store person = none)
    (covered : increment ≤ left) (brief : ¬ Lasts engine (engine.tonumber ttl)) : ∃ px fault,
    couponStockDecrease engine stock person (toString increment) (toString limit) ttl store =
      (.error fault,put store stock (.string ⟨toString (left-increment),px⟩)) := by
  obtain ⟨fits,px,found⟩ := stocked
  have sells := lawful.sells_int fits positive small covered
  have inRange : InRange (left+-increment) := ⟨by omega,by have := fits.2; omega⟩
  obtain ⟨fault,failed⟩ := setRemaining_refuses
    (put store stock (.string ⟨toString (left+-increment),px⟩)) person
    (engine.tonumber (toString limit)) (engine.tonumber (toString increment)) (.inr brief)
  rw [first_purchase found absent]
  exact ⟨px,fault,sell_sells _ found sells (readInteger_toString fits) inRange failed⟩

private theorem later_sells (limit : ℤ) (ttl : String) (stocked : Stocked store stock left)
    (known : Stocked store person held)
    (different : person ≠ stock) (covered : increment ≤ left) (allowed : increment ≤ held) : ∃ px px',
    couponStockDecrease engine stock person (toString increment) (toString limit) ttl store =
      (.ok "OK",put (put store stock (.string ⟨toString (left-increment),px⟩)) person
        (.string ⟨toString (held-increment),px'⟩)) := by
  obtain ⟨fits,px,found⟩ := stocked
  obtain ⟨holds,px',present⟩ := known
  have sells := lawful.sells_int fits positive small covered
  have takes := lawful.sells_int holds positive small allowed
  have unmoved : put store stock (.string ⟨toString (left+-increment),px⟩) person =
      some (.string ⟨toString held,px'⟩) := by rw [put_apply,if_neg different,present]
  have second := decrease_adds takes.2 ((counted_string unmoved).mpr (readInteger_toString holds))
    ⟨by omega,by have := holds.2; omega⟩
  rw [px_string unmoved] at second
  rw [later_purchase found present takes.1]
  exact ⟨px,px',sell_sells _ found sells (readInteger_toString fits)
    ⟨by omega,by have := fits.2; omega⟩ second⟩

private theorem later_refuses (stock : String) (limit : ℤ) (ttl : String) (known : Stocked store person held)
    (exceeded : held < increment) :
    ∃ answer, answer ≠ .ok "OK" ∧ couponStockDecrease engine stock person (toString increment)
      (toString limit) ttl store = (answer,store) := by
  obtain ⟨holds,px,present⟩ := known
  apply couponStockDecrease_idle
  intro entry _
  refine ⟨by simp [present],fun person found => ?_⟩
  cases present.symm.trans found
  rw [lawful.enough_int held holds positive.le small]
  simp [exceeded]

end Calls

omit [DecidableEq User] in
private theorem passes_iff (parses : ParsesInts parseInt) (purchase : Purchase engine perPersonLimit) :
    Passes parseInt (toString purchase.increment) (toString (perPersonLimit purchase.user)) ↔
      perPersonLimit purchase.user < 2^31 := by
  have least := purchase.least
  have most := purchase.most
  constructor
  · intro passes
    obtain ⟨_,limit,_,read,_⟩ := passes
    rw [parses] at read
    by_contra large
    rw [if_neg (fun both => large both.2)] at read
    cases read
  · intro bounded
    refine ⟨_,_,?_,?_,most⟩
    · rw [parses,if_pos ⟨by omega,by omega⟩]
    · rw [parses,if_pos ⟨by omega,bounded⟩]

theorem agrees_of_fit {initial : ℤ} {sale : Sale User} {purchase : Purchase engine perPersonLimit}
    (fit : Fit engine stock counter perPersonLimit sale purchase)
    (tracked : Tracked stock counter perPersonLimit initial
      (step engine parseInt stock counter perPersonLimit sale purchase)) :
    Agrees engine parseInt stock counter perPersonLimit initial sale purchase :=
  ⟨iff_of_true tracked.conserved fit,fun _ => tracked⟩

section Runs

variable (distinct : ∀ user, counter user ≠ stock) (injective : Function.Injective counter)
include distinct injective

theorem Tracked.sold {initial left increment : ℤ} {sale : Sale User} (user : User)
    (tracked : Tracked stock counter perPersonLimit initial sale)
    (stocked : Stocked sale.store stock left) (covered : increment ≤ left) (positive : 0 < increment)
    (allowed : sale.granted user+increment ≤ perPersonLimit user) (fits : perPersonLimit user < 2^63)
    (px px' : Option ℤ) : Tracked stock counter perPersonLimit initial
      ⟨put (put sale.store stock (.string ⟨toString (left-increment),px⟩)) (counter user)
        (.string ⟨toString (perPersonLimit user-(sale.granted user+increment)),px'⟩),
        sale.sold+increment,
        Function.update sale.granted user (sale.granted user+increment)⟩ := by
  obtain ⟨⟨balanced,limited,remaining⟩,nonneg,fresh⟩ := tracked
  have before : initial-left = sale.sold := by
    obtain ⟨other,same,_,balance⟩ := balanced
    rw [stocked_unique stocked same,balance]
  have others : ∀ other, other ≠ user → put (put sale.store stock
      (.string ⟨toString (left-increment),px⟩)) (counter user)
        (.string ⟨toString (perPersonLimit user-(sale.granted user+increment)),px'⟩) (counter other) =
      sale.store (counter other) := by
    intro other apart
    rw [put_apply,if_neg (injective.ne apart),put_apply,if_neg (distinct other)]
  refine ⟨⟨⟨left-increment,?_,by omega,by dsimp only; omega⟩,?_,?_⟩,?_,?_⟩
  · refine ⟨⟨by omega,by have := stocked.1.2; omega⟩,px,?_⟩
    dsimp only
    rw [put_apply,if_neg (distinct user).symm,put_apply,if_pos rfl]
  · intro other
    rcases eq_or_ne other user with rfl | apart
    · simpa using allowed
    · simpa [apart] using limited other
  · intro other present
    rcases eq_or_ne other user with rfl | apart
    · have := nonneg other
      simp only [Function.update_self]
      exact stocked_put ⟨by omega,by omega⟩ px'
    · obtain ⟨inRange,found⟩ := remaining other (others other apart ▸ present)
      simp only [Function.update_of_ne apart]
      exact ⟨inRange,others other apart ▸ found⟩
  · intro other
    rcases eq_or_ne other user with rfl | apart
    · have := nonneg other
      simp only [Function.update_self]
      omega
    · simpa [apart] using nonneg other
  · intro other absent
    rcases eq_or_ne other user with rfl | apart
    · simp [put_apply] at absent
    · simpa [apart] using fresh other (others other apart ▸ absent)

variable (lawful : engine.Lawful) {initial left : ℤ} {sale : Sale User}
  {purchase : Purchase engine perPersonLimit}
  (tracked : Tracked stock counter perPersonLimit initial sale) (stocked : Stocked sale.store stock left)
  (bounded : perPersonLimit purchase.user < 2^31)
  (passes : Passes parseInt (toString purchase.increment) (toString (perPersonLimit purchase.user)))
  (covered : purchase.increment ≤ left)
include lawful tracked stocked bounded passes covered

private theorem first_agrees (absent : sale.store (counter purchase.user) = none) :
    Agrees engine parseInt stock counter perPersonLimit initial sale purchase := by
  have positive : 0 < purchase.increment := by have := purchase.least; omega
  have small : purchase.increment ≤ 2^53 := by have := purchase.most; omega
  have none : sale.granted purchase.user = 0 := tracked.fresh _ absent
  by_cases lasts : Lasts engine (engine.tonumber purchase.ttl)
  · obtain ⟨px,px',ran⟩ := first_sells lawful positive small stocked absent covered purchase.most
      (by omega) lasts
    apply agrees_of_fit fun _ _ _ _ _ => lasts
    rw [step_sold passes ran]
    have sold := tracked.sold distinct injective purchase.user stocked covered positive
      (by have := purchase.most; omega) (by omega) px px'
    rwa [none,zero_add] at sold ⊢
  · -- the stock is lowered, but nothing is sold
    obtain ⟨px,fault,ran⟩ := first_leaks lawful positive small
      (perPersonLimit purchase.user) stocked absent covered lasts
    have unfit : ¬ Fit engine stock counter perPersonLimit sale purchase := fun fit =>
      lasts (fit absent bounded left stocked covered)
    refine ⟨iff_of_false (fun conserved => ?_) unfit,fun fit => absurd fit unfit⟩
    obtain ⟨before,here,_,balance⟩ := tracked.conserved.stocked
    rw [Conserves,step_unsold (by simp) passes ran] at conserved
    obtain ⟨after,there,_,kept⟩ := conserved.stocked
    have same := stocked_unique here stocked
    have lowered := stocked_unique there (stocked_put ⟨by omega,by have := stocked.1.2; omega⟩ px)
    dsimp only at kept
    omega

private theorem later_agrees (present : sale.store (counter purchase.user) ≠ none) :
    Agrees engine parseInt stock counter perPersonLimit initial sale purchase := by
  have positive : 0 < purchase.increment := by have := purchase.least; omega
  have small : purchase.increment ≤ 2^53 := by have := purchase.most; omega
  have known := tracked.conserved.remaining purchase.user present
  have fit : Fit engine stock counter perPersonLimit sale purchase := fun absent =>
    absurd absent present
  by_cases allowed : purchase.increment ≤ perPersonLimit purchase.user-sale.granted purchase.user
  · obtain ⟨px,px',ran⟩ := later_sells lawful positive small (perPersonLimit purchase.user) purchase.ttl
      stocked known (distinct purchase.user) covered allowed
    rw [sub_sub] at ran
    apply agrees_of_fit fit
    rw [step_sold passes ran]
    exact tracked.sold distinct injective _ stocked covered positive (by omega) (by omega) px px'
  · obtain ⟨answer,failed,ran⟩ := later_refuses lawful positive small stock
      (perPersonLimit purchase.user) purchase.ttl known (not_le.mp allowed)
    apply agrees_of_fit fit
    rwa [step_unsold failed passes ran]

end Runs

section Steps

variable (distinct : ∀ user, counter user ≠ stock) (injective : Function.Injective counter)
  (lawful : engine.Lawful) (parses : ParsesInts parseInt)
include distinct injective lawful parses

theorem step_agrees {initial : ℤ} {sale : Sale User} (purchase : Purchase engine perPersonLimit)
    (tracked : Tracked stock counter perPersonLimit initial sale) :
    Agrees engine parseInt stock counter perPersonLimit initial sale purchase := by
  obtain ⟨left,stocked,_⟩ := tracked.conserved.stocked
  by_cases bounded : perPersonLimit purchase.user < 2^31
  · have passes := (passes_iff parses purchase).mpr bounded
    by_cases covered : purchase.increment ≤ left
    · by_cases absent : sale.store (counter purchase.user) = none
      · exact first_agrees distinct injective lawful tracked stocked bounded passes covered absent
      · exact later_agrees distinct injective lawful tracked stocked bounded passes covered absent
    · obtain ⟨answer,failed,ran⟩ := refuses_short lawful (by have := purchase.least; omega)
        (by have := purchase.most; omega) (counter purchase.user) (perPersonLimit purchase.user)
        purchase.ttl stocked (not_le.mp covered)
      have fit : Fit engine stock counter perPersonLimit sale purchase := fun _ _ other same enough => by
        rw [stocked_unique same stocked] at enough
        exact absurd enough covered
      apply agrees_of_fit fit
      rwa [step_unsold failed passes ran]
  · have refused := fun passes => bounded ((passes_iff parses purchase).mp passes)
    apply agrees_of_fit fun _ small => absurd small bounded
    rwa [step_refused refused]

theorem run_granted_iff (initial : ℤ) (store : Database) (nonneg : 0 ≤ initial)
    (stocked : Stocked store stock initial) (limits : ∀ user, 0 ≤ perPersonLimit user)
    (fresh : ∀ user, store (counter user) = none)
    (purchases : List (Purchase engine perPersonLimit)) :
    Along (step engine parseInt stock counter perPersonLimit)
        (Conserves engine parseInt stock counter perPersonLimit initial) {store := store} purchases ↔
      Along (step engine parseInt stock counter perPersonLimit)
        (Fit engine stock counter perPersonLimit) {store := store} purchases := by
  have start : Tracked stock counter perPersonLimit initial ({store := store} : Sale User) := by
    refine ⟨⟨⟨initial,stocked,nonneg,by simp⟩,limits,fun user present => ?_⟩,by simp,by simp⟩
    exact absurd (fresh user) present
  exact along_iff
    (fun _ purchase tracked => (step_agrees distinct injective lawful parses purchase tracked).1)
    (fun _ purchase tracked => (step_agrees distinct injective lawful parses purchase tracked).2)
    _ purchases start

end Steps

def int (text : String) : Option ℤ := text.toInt?.filter fun n => -2^31 ≤ n ∧ n < 2^31

theorem int_parses : ParsesInts int := by
  intro n
  have read : int (toString n) = (some n).filter fun n => -2^31 ≤ n ∧ n < 2^31 :=
    congrArg (Option.filter _) (Int.toInt?_repr n)
  rw [read]
  simp [Option.filter]

private theorem sixty_lasts : ∃ number, decimal.tonumber "60" = some number ∧
    Number.lt (.finite 0) number = true ∧ Lasts decimal (decimal.tonumber "60") := by
  have text : decimal.tonumber "60" = some (.finite 60) :=
    decimal_lawful.tonumber_small (n := 60) (by decide)
  have written : decimal.tostring (.finite 60) = toString (60 : ℤ) :=
    decimal_tostring (n := 60) (by decide)
  refine ⟨_,text,by decide,_,text,60,?_,by decide,by decide⟩
  rw [written]
  exact readInteger_toString (by decide)

def minute (user : Bool) (increment : ℤ) (least : 1 ≤ increment) (most : increment ≤ 2) :
    Purchase decimal fun _ : Bool => 2 where
  user := user
  increment := increment
  ttl := "60"
  least := least
  most := most
  lasting := by
    obtain ⟨number,text,positive,_⟩ := sixty_lasts
    exact ⟨number,text,positive⟩

theorem run_granted_iff_two_users :
    Along (step decimal int "stock" (fun user => if user then "first" else "second") fun _ => 2)
      (Conserves decimal int "stock" (fun user => if user then "first" else "second") (fun _ => 2) 3)
      {store := shelf "stock" 3}
      [minute true 1 (by decide) (by decide),minute false 2 (by decide) (by decide),
        minute true 1 (by decide) (by decide)] := by
  obtain ⟨_,_,_,lasts⟩ := sixty_lasts
  exact (run_granted_iff (by decide) (by decide) decimal_lawful int_parses 3 (shelf "stock" 3)
    (by decide) (shelf_stocked _ (by decide)) (by decide) (by decide) _).mpr
      ⟨fun _ _ _ _ _ => lasts,fun _ _ _ _ _ => lasts,fun _ _ _ _ _ => lasts,trivial⟩

theorem ages_tonumber : decimal.tonumber "9223372036854776" = some (.finite 9223372036854776) := by
  have exact : Library.Double.double ((9223372036854776 : ℤ) : ℚ) = (9223372036854776 : ℤ) := by
    decide +kernel
  apply (decimal_tonumber 9223372036854776).trans
  rw [Number.ofInt,exact]
  rfl

def ages : Purchase decimal fun _ : Unit => 2 where
  user := ()
  increment := 1
  ttl := "9223372036854776"
  least := by decide
  most := by decide
  lasting := ⟨_,ages_tonumber,by decide⟩

theorem long_ttl_leaks :
    ¬ Along (step decimal int "stock" (fun _ => "counter") fun _ => 2)
      (Conserves decimal int "stock" (fun _ => "counter") (fun _ => 2) 10) {store := shelf "stock" 10}
      [ages] := by
  have injective : Function.Injective fun _ : Unit => "counter" := fun _ _ _ => rfl
  have stocked : Stocked (shelf "stock" 10) "stock" 10 := shelf_stocked "stock" (by decide)
  rw [run_granted_iff (by decide) injective decimal_lawful int_parses 10 (shelf "stock" 10)
    (by decide) stocked (by decide) (by decide)]
  intro along
  obtain ⟨number,same,seconds,read,_,expires⟩ := along.1 rfl (by decide) 10 stocked (by decide)
  cases ages_tonumber.symm.trans same
  have written : decimal.tostring (.finite 9223372036854776) = toString (9223372036854776 : ℤ) :=
    decimal_tostring (n := 9223372036854776) (by decide)
  rw [written,readInteger_toString (by decide)] at read
  cases read
  exact absurd expires (by decide)

end YzFramework.Redis.CouponConservation

import YzFramework.Library.Store
import YzFramework.Library.Run

/-! `ngx_lua_redis.lua`: the messages of a channel stand on a list, and what is published
on the channel wakes the subscribers that take from the list. A publisher publishes first
and puts the message on the list then. Every request has two connections of its own, and
a call that fails has no effect. -/
namespace YzFramework.Redis.NgxLuaRedis
open Library Library.Run

/-- A request with `type=pub`: how often it went through its loop, and whether it has
published the message that it is about to put on the list. -/
structure Publisher where
  i : ℕ := 0
  published : Bool := false
deriving DecidableEq

def Publisher.str (publisher : Publisher) : String := "world_" ++ toString (publisher.i+1)

def Publisher.pending (publisher : Publisher) : ℕ := if publisher.published then 1 else 0

/-- A request with `type=sub`. `greet` follows a `llen` of zero, and `drain` one of `left`;
`waiting` reads replies, `woken` has read one and takes from the list next. -/
inductive Subscriber
  | start
  | greet
  | drain (left : ℕ)
  | waiting (unread : ℕ)
  | woken (unread : ℕ)
  | closed
  | deaf
  | gone
deriving DecidableEq

namespace Subscriber

/-- The replies for which the subscriber has not taken from the list yet. -/
def notices : Subscriber → ℕ
  | waiting unread => unread
  | woken unread => unread+1
  | _ => 0

def subscribed : Subscriber → Bool
  | waiting _ => true
  | woken _ => true
  | _ => false

def hear : Subscriber → Subscriber
  | waiting unread => waiting (unread+1)
  | woken unread => woken (unread+1)
  | subscriber => subscriber

end Subscriber

variable {Sub Pub : Type} [DecidableEq Sub] [Fintype Sub] [DecidableEq Pub] [Fintype Pub]

/-- `pushed` and `taken` are all that was ever put on the list and taken from it. `unheard`
counts the messages that are put on the list without a notice, and the notices that are lost. -/
structure State (Sub Pub : Type) where
  list : List String := []
  subscribers : Sub → Subscriber := fun _ => .start
  publishers : Pub → Publisher := fun _ => {}
  pushed : List String := []
  taken : List (Sub × String) := []
  unheard : ℕ := 0

/-- The next step of a request, with a call that reaches Redis or fails. `spy` is the
monitor's message, and `leave` the end of a subscriber's request. -/
inductive Event (Sub Pub : Type)
  | sub (sub : Sub) (reached : Bool)
  | pub (pub : Pub) (reached : Bool)
  | spy
  | leave (sub : Sub)

namespace State

variable (state : State Sub Pub) (sub : Sub)

def rpush (str : String) : State Sub Pub := {state with list := state.list++[str],pushed := state.pushed++[str]}

def lpop : State Sub Pub :=
  match state.list with
  | [] => state
  | str::rest => {state with list := rest,taken := state.taken++[(sub,str)]}

def miss (count : ℕ) : State Sub Pub := {state with unheard := state.unheard+count}

def move (subscriber : Subscriber) : State Sub Pub :=
  {state with subscribers := Function.update state.subscribers sub subscriber}

def hear : State Sub Pub := {state with subscribers := fun sub => (state.subscribers sub).hear}

/-- A message that nobody hears is on the list all the same. -/
def publish (reached : Bool) : State Sub Pub :=
  if reached ∧ ∃ sub, (state.subscribers sub).subscribed then state.hear else state.miss 1

/-- A failing `llen` or `subscribe` breaks the script, a failing `read_reply` the connection. -/
def subscribe (reached : Bool) : State Sub Pub :=
  match state.subscribers sub with
  | .start =>
    state.move sub (if reached then if state.list.length = 0 then .greet else .drain state.list.length else .gone)
  | .greet => (if reached then (state.rpush "hello").miss 1 else state).move sub (.drain 0)
  | .drain 0 => state.move sub (if reached then .waiting 0 else .gone)
  | .drain (left+1) => (if reached then state.lpop sub else state).move sub (.drain left)
  | .waiting unread =>
    if reached then
      match unread with
      | 0 => state
      | unread+1 => state.move sub (.woken unread)
    else (state.miss unread).move sub .closed
  | .woken unread => (if reached then state.lpop sub else state.miss 1).move sub (.waiting unread)
  | .closed => state.move sub (if reached then .woken 0 else .deaf)
  | .deaf => (if reached then state.lpop sub else state).move sub .closed
  | .gone => state

def put (pub : Pub) (publisher : Publisher) : State Sub Pub :=
  {state with publishers := Function.update state.publishers pub publisher}

def run (pub : Pub) (reached : Bool) : State Sub Pub :=
  let publisher := state.publishers pub
  if publisher.published then
    (if reached then state.rpush publisher.str else state).put pub {i := publisher.i+1}
  else if publisher.i < 1000 then (state.publish reached).put pub {publisher with published := true}
  else state

end State

def step (state : State Sub Pub) : Event Sub Pub → State Sub Pub
  | .sub sub reached => state.subscribe sub reached
  | .pub pub reached => state.run pub reached
  | .spy => state.hear
  | .leave sub => (state.miss (state.subscribers sub).notices).move sub .gone

variable {state base : State Sub Pub} {sub : Sub} {subscriber : Subscriber}

/-- The notices that are still to be worked off, over all subscribers. -/
def State.notices (state : State Sub Pub) : ℕ := ∑ sub, (state.subscribers sub).notices

/-- How many publishers stand between their two calls. -/
def State.pending (state : State Sub Pub) : ℕ := ∑ pub, (state.publishers pub).pending

theorem Subscriber.hear_notices (subscriber : Subscriber) :
    subscriber.hear.notices = subscriber.notices+if subscriber.subscribed then 1 else 0 := by
  cases subscriber <;> rfl

omit [DecidableEq Sub] [DecidableEq Pub] [Fintype Pub] in
theorem hear_notices (state : State Sub Pub) : state.notices ≤ state.hear.notices := by
  apply Finset.sum_le_sum
  intro sub _
  change (state.subscribers sub).notices ≤ (state.subscribers sub).hear.notices
  rw [Subscriber.hear_notices]
  exact Nat.le_add_right _ _

omit [DecidableEq Sub] [DecidableEq Pub] [Fintype Pub] in
/-- A message is a notice for someone, or counted as unheard. -/
theorem publish_notices (state : State Sub Pub) (reached : Bool) :
    state.unheard+state.notices+1 ≤ (state.publish reached).unheard+(state.publish reached).notices := by
  unfold State.publish
  split
  next heard =>
    obtain ⟨_,sub,subscribed⟩ := heard
    have more : state.notices < state.hear.notices := by
      apply Finset.sum_lt_sum
      · intro place _
        change (state.subscribers place).notices ≤ (state.subscribers place).hear.notices
        rw [Subscriber.hear_notices]
        exact Nat.le_add_right _ _
      · refine ⟨sub,Finset.mem_univ sub,?_⟩
        change (state.subscribers sub).notices < (state.subscribers sub).hear.notices
        rw [Subscriber.hear_notices,if_pos subscribed]
        exact Nat.lt_succ_self _
    change state.unheard+state.notices+1 ≤ state.unheard+state.hear.notices
    omega
  next =>
    change state.unheard+state.notices+1 ≤ state.unheard+1+state.notices
    omega

omit [DecidableEq Pub] [Fintype Pub] in
theorem move_notices (state : State Sub Pub) (sub : Sub) (subscriber : Subscriber) :
    (state.move sub subscriber).notices+(state.subscribers sub).notices = state.notices+subscriber.notices :=
  Parties.sum_update state.subscribers sub subscriber Subscriber.notices

omit [DecidableEq Sub] [Fintype Sub] [DecidableEq Pub] in
theorem pending_le (state : State Sub Pub) : state.pending ≤ Fintype.card Pub := by
  apply (Finset.sum_le_card_nsmul Finset.univ _ 1 _).trans
  · simp
  · intro pub _
    unfold Publisher.pending
    split <;> omega

/-- The list and what is about to be put on it, against the notices that will take from it. -/
def Bounded (bound : ℕ) (state : State Sub Pub) : Prop :=
  state.list.length+state.pending ≤ bound+state.unheard+state.notices

variable {bound : ℕ}

omit [DecidableEq Pub] in
theorem bounded_move (few : Fintype.card Pub ≤ bound) (bounded : Bounded bound state)
    (publishers : base.publishers = state.publishers) (subscribers : base.subscribers = state.subscribers)
    (paid : base.list.length+state.unheard+(state.subscribers sub).notices ≤
      state.list.length+base.unheard+subscriber.notices ∨ base.list = []) :
    Bounded bound (base.move sub subscriber) := by
  have sum := move_notices base sub subscriber
  have same : base.notices = state.notices := by simp only [State.notices,subscribers]
  have pending : (base.move sub subscriber).pending = state.pending := by
    simp only [State.pending,State.move,publishers]
  have before := pending_le state
  change base.list.length+(base.move sub subscriber).pending ≤
    bound+base.unheard+(base.move sub subscriber).notices
  rw [subscribers] at sum
  unfold Bounded at bounded
  rcases paid with paid | empty
  · omega
  · rw [empty,List.length_nil]
    omega

omit [DecidableEq Sub] [Fintype Sub] [DecidableEq Pub] [Fintype Pub] in
theorem lpop_list (state : State Sub Pub) (sub : Sub) : (state.lpop sub).list = state.list.tail := by
  unfold State.lpop
  split
  next empty => rw [empty,List.tail_nil]
  next cons => rw [cons,List.tail_cons]

omit [DecidableEq Sub] [Fintype Sub] [DecidableEq Pub] [Fintype Pub] in
theorem lpop_frame (state : State Sub Pub) (sub : Sub) : (state.lpop sub).subscribers = state.subscribers ∧
    (state.lpop sub).publishers = state.publishers ∧ (state.lpop sub).unheard = state.unheard := by
  unfold State.lpop
  split <;> exact ⟨rfl,rfl,rfl⟩

/-- What one step of a subscriber does to the list and to its notices. -/
inductive Acts (state : State Sub Pub) (sub : Sub) : State Sub Pub → Prop
  | stays : Acts state sub state
  | moves (subscriber : Subscriber) (kept : (state.subscribers sub).notices ≤ subscriber.notices) :
    Acts state sub (state.move sub subscriber)
  | greets (subscriber : Subscriber) (kept : (state.subscribers sub).notices ≤ subscriber.notices) :
    Acts state sub (((state.rpush "hello").miss 1).move sub subscriber)
  | takes (subscriber : Subscriber) (worked : (state.subscribers sub).notices ≤ subscriber.notices+1) :
    Acts state sub ((state.lpop sub).move sub subscriber)
  | misses (count : ℕ) (subscriber : Subscriber)
    (worked : (state.subscribers sub).notices ≤ subscriber.notices+count) :
    Acts state sub ((state.miss count).move sub subscriber)

omit [Fintype Sub] [DecidableEq Pub] [Fintype Pub] in
theorem subscribe_acts (state : State Sub Pub) (sub : Sub) (reached : Bool) :
    Acts state sub (state.subscribe sub reached) := by
  unfold State.subscribe
  cases subscriber : state.subscribers sub with
  | start => exact .moves _ (subscriber ▸ Nat.zero_le _)
  | greet =>
    cases reached
    · exact .moves _ (subscriber ▸ Nat.zero_le _)
    · exact .greets _ (subscriber ▸ Nat.zero_le _)
  | drain left =>
    cases left with
    | zero => exact .moves _ (subscriber ▸ Nat.zero_le _)
    | succ left =>
      cases reached
      · exact .moves _ (subscriber ▸ Nat.zero_le _)
      · exact .takes _ (subscriber ▸ Nat.zero_le _)
  | waiting unread =>
    cases reached
    · exact .misses unread _ (subscriber ▸ Nat.le_add_left _ _)
    · cases unread with
      | zero => exact .stays
      | succ unread => exact .moves _ (subscriber ▸ le_refl _)
  | woken unread =>
    cases reached
    · exact .misses 1 _ (subscriber ▸ le_refl _)
    · exact .takes _ (subscriber ▸ le_refl _)
  | closed => exact .moves _ (subscriber ▸ Nat.zero_le _)
  | deaf =>
    cases reached
    · exact .moves _ (subscriber ▸ Nat.zero_le _)
    · exact .takes _ (subscriber ▸ Nat.zero_le _)
  | gone => exact .stays

omit [DecidableEq Pub] in
private theorem bounded_acts {after : State Sub Pub} (few : Fintype.card Pub ≤ bound)
    (bounded : Bounded bound state)
    (acts : Acts state sub after) : Bounded bound after := by
  cases acts with
  | stays => exact bounded
  | moves subscriber kept =>
    apply bounded_move few bounded rfl rfl
    exact Or.inl (by omega)
  | greets subscriber kept =>
    apply bounded_move few bounded
    · rfl
    · rfl
    refine Or.inl ?_
    change (state.list++["hello"]).length+state.unheard+_ ≤ state.list.length+(state.unheard+1)+_
    rw [List.length_append,List.length_singleton]
    omega
  | takes subscriber worked =>
    obtain ⟨subscribers,publishers,unheard⟩ := lpop_frame state sub
    apply bounded_move few bounded publishers subscribers
    rw [lpop_list,unheard]
    cases state.list with
    | nil => exact Or.inr rfl
    | cons str rest =>
      apply Or.inl
      rw [List.tail_cons,List.length_cons]
      omega
  | misses count subscriber worked =>
    apply bounded_move few bounded
    · rfl
    · rfl
    refine Or.inl ?_
    change state.list.length+state.unheard+_ ≤ state.list.length+(state.unheard+count)+_
    omega

omit [DecidableEq Sub] [DecidableEq Pub] [Fintype Pub] in
theorem publish_frame (state : State Sub Pub) (reached : Bool) : (state.publish reached).list = state.list ∧
    (state.publish reached).publishers = state.publishers ∧ (state.publish reached).pushed = state.pushed ∧
    (state.publish reached).taken = state.taken := by
  unfold State.publish
  split <;> exact ⟨rfl,rfl,rfl,rfl⟩

omit [DecidableEq Sub] in
theorem bounded_put {pub : Pub} {publisher : Publisher} (bounded : Bounded bound state)
    (publishers : base.publishers = state.publishers)
    (paid : base.list.length+publisher.pending+state.unheard+state.notices ≤
      state.list.length+(state.publishers pub).pending+base.unheard+base.notices) :
    Bounded bound (base.put pub publisher) := by
  have sum : (base.put pub publisher).pending+_ = base.pending+publisher.pending :=
    Parties.sum_update base.publishers pub publisher Publisher.pending
  have same : base.pending = state.pending := by simp only [State.pending,publishers]
  change base.list.length+(base.put pub publisher).pending ≤ bound+base.unheard+base.notices
  rw [publishers] at sum
  unfold Bounded at bounded
  omega

omit [DecidableEq Sub] in
private theorem bounded_run (bounded : Bounded bound state) (pub : Pub) (reached : Bool) :
    Bounded bound (state.run pub reached) := by
  unfold State.run
  dsimp only
  split
  next published =>
    have before : (state.publishers pub).pending = 1 := if_pos published
    cases reached
    · apply bounded_put bounded
      · rfl
      change state.list.length+0+state.unheard+state.notices ≤ _
      rw [before]
      exact Nat.add_le_add_right (Nat.add_le_add_right (Nat.le_succ _) _) _
    · apply bounded_put bounded
      · rfl
      change (state.list++[(state.publishers pub).str]).length+0+state.unheard+state.notices ≤ _
      rw [List.length_append,List.length_singleton,before]
      exact le_refl _
  next unpublished =>
    have before : (state.publishers pub).pending = 0 := if_neg unpublished
    split
    next =>
      have told := publish_notices state reached
      obtain ⟨list,publishers,_⟩ := publish_frame state reached
      apply bounded_put bounded publishers
      change (state.publish reached).list.length+1+state.unheard+state.notices ≤ _
      rw [list,before]
      omega
    next => exact bounded

private theorem bounded_step (few : Fintype.card Pub ≤ bound) (state : State Sub Pub) (event : Event Sub Pub)
    (bounded : Bounded bound state) : Bounded bound (step state event) := by
  cases event with
  | sub sub reached => exact bounded_acts few bounded (subscribe_acts state sub reached)
  | pub pub reached => exact bounded_run bounded pub reached
  | spy =>
    apply bounded.trans
    have more := hear_notices state
    change bound+state.unheard+state.notices ≤ bound+state.unheard+state.hear.notices
    omega
  | leave sub =>
    exact bounded_acts few bounded (.misses _ _ (Nat.le_add_left _ _))

/-- However long publishers and subscribers run, the messages that wait on the list are
no more than there were at first or than there are publishers, but for the notices that are
still to be worked off and the messages that went unheard. -/
theorem backlog_bounded (list : List String) (events : List (Event Sub Pub)) :
    (final step {list := list} events).list.length+(final step {list := list} events).pending ≤
      max list.length (Fintype.card Pub)+(final step {list := list} events).unheard+
        (final step {list := list} events).notices := by
  have initial : Bounded (max list.length (Fintype.card Pub)) ({list := list} : State Sub Pub) := by
    simp [Bounded,State.pending,State.notices,Publisher.pending,Subscriber.notices]
  exact final_always (bounded_step (le_max_right _ _)) _ events initial

/-- Messages leave the list in the order in which they were put there, and once. -/
def Ordered (list : List String) (state : State Sub Pub) : Prop :=
  state.taken.map Prod.snd++state.list = list++state.pushed

variable {list : List String}

omit [DecidableEq Sub] [Fintype Sub] [DecidableEq Pub] [Fintype Pub] in
private theorem ordered_rpush (ordered : Ordered list state) (str : String) :
    Ordered list (state.rpush str) := by
  unfold Ordered State.rpush
  rw [← List.append_assoc,ordered,List.append_assoc]

omit [DecidableEq Sub] [Fintype Sub] [DecidableEq Pub] [Fintype Pub] in
private theorem ordered_lpop (ordered : Ordered list state) (sub : Sub) : Ordered list (state.lpop sub) := by
  unfold State.lpop
  split
  next => exact ordered
  next str rest found =>
    unfold Ordered at *
    rw [found] at ordered
    rw [← ordered,List.map_append,List.append_assoc]
    rfl

omit [Fintype Sub] [DecidableEq Pub] [Fintype Pub] in
private theorem ordered_acts {after : State Sub Pub} (ordered : Ordered list state)
    (acts : Acts state sub after) :
    Ordered list after := by
  cases acts with
  | stays => exact ordered
  | moves => exact ordered
  | greets => exact ordered_rpush ordered "hello"
  | takes => exact ordered_lpop ordered sub
  | misses => exact ordered

omit [Fintype Pub] in
private theorem ordered_step (state : State Sub Pub) (event : Event Sub Pub) (ordered : Ordered list state) :
    Ordered list (step state event) := by
  cases event with
  | sub sub reached => exact ordered_acts ordered (subscribe_acts state sub reached)
  | pub pub reached =>
    unfold step State.run
    dsimp only
    split
    next =>
      cases reached
      · exact ordered
      · exact ordered_rpush ordered _
    next =>
      split
      next =>
        obtain ⟨list,_,pushed,taken⟩ := publish_frame state reached
        change (state.publish reached).taken.map Prod.snd++(state.publish reached).list =
          _++(state.publish reached).pushed
        rw [list,pushed,taken]
        exact ordered
      next => exact ordered
  | spy => exact ordered
  | leave => exact ordered

/-- One subscriber that finds the list empty, and one publisher; every call succeeds, and
the subscriber is not woken by anything else. -/
def Fit (sub : Sub) (pub : Pub) (state : State Sub Pub) : Event Sub Pub → Prop
  | .sub party reached => party = sub ∧ reached = true ∧ (state.subscribers sub = .start → state.list = [])
  | .pub party reached => party = pub ∧ reached = true
  | _ => False

instance (sub : Sub) (pub : Pub) (state : State Sub Pub) : ∀ event, Decidable (Fit sub pub state event)
  | .sub _ _ => inferInstanceAs (Decidable (_ ∧ _ ∧ (_ → _)))
  | .pub _ _ => inferInstanceAs (Decidable (_ ∧ _))
  | .spy => inferInstanceAs (Decidable False)
  | .leave _ => inferInstanceAs (Decidable False)

/-- The subscriber is past its greeting. -/
def Subscriber.greeted : Subscriber → Bool
  | drain _ => true
  | waiting _ => true
  | woken _ => true
  | _ => false

/-- Where a subscriber can be in such a run. -/
def Subscriber.calm : Subscriber → Bool
  | drain (_+1) => false
  | closed => false
  | deaf => false
  | gone => false
  | _ => true

structure Greeted (sub : Sub) (pub : Pub) (state : State Sub Pub) : Prop where
  others : ∀ place, place ≠ sub → state.subscribers place = .start
  calm : (state.subscribers sub).calm = true
  greeted : (state.subscribers sub).greeted = true → 0 < state.unheard
  even : state.list.length+(state.publishers pub).pending = state.unheard+(state.subscribers sub).notices

variable {pub : Pub}

omit [Fintype Sub] [DecidableEq Pub] [Fintype Pub] in
theorem greeted_move (held : Greeted sub pub state) (subscribers : base.subscribers = state.subscribers)
    (publishers : base.publishers = state.publishers) (calm : subscriber.calm = true)
    (greeted : subscriber.greeted = true → 0 < base.unheard)
    (paid : base.list.length+state.unheard+(state.subscribers sub).notices =
      state.list.length+base.unheard+subscriber.notices) : Greeted sub pub (base.move sub subscriber) := by
  have here : (base.move sub subscriber).subscribers sub = subscriber := Function.update_self ..
  constructor
  · intro place other
    change Function.update base.subscribers sub subscriber place = .start
    rw [Function.update_of_ne other,subscribers]
    exact held.others place other
  · rw [here]
    exact calm
  · rw [here]
    exact greeted
  · rw [here]
    change base.list.length+(base.publishers pub).pending = base.unheard+subscriber.notices
    have even := held.even
    rw [publishers]
    omega

omit [DecidableEq Sub] [Fintype Sub] [DecidableEq Pub] [Fintype Pub] in
/-- The messages put on the list unheard keep a message there for every notice. -/
theorem greeted_list (held : Greeted sub pub state) {unread : ℕ} (woken : state.subscribers sub = .woken unread) :
    state.list ≠ [] := by
  have cushion := held.greeted (by rw [woken]; rfl)
  have even := held.even
  rw [woken] at even
  change _ = state.unheard+(unread+1) at even
  have few : (state.publishers pub).pending ≤ 1 := by
    unfold Publisher.pending
    split <;> omega
  apply List.ne_nil_of_length_pos
  omega

omit [Fintype Sub] [DecidableEq Pub] [Fintype Pub] in
theorem greeted_subscribe (held : Greeted sub pub state) (empty : state.subscribers sub = .start → state.list = []) :
    Greeted sub pub (state.subscribe sub true) := by
  unfold State.subscribe
  have calm := held.calm
  cases subscriber : state.subscribers sub with
  | start =>
    change Greeted sub pub (state.move sub (if state.list.length = 0 then .greet else .drain state.list.length))
    rw [if_pos (by rw [empty subscriber]; rfl)]
    apply greeted_move held rfl rfl rfl
    · rintro ⟨⟩
    · rw [subscriber]
      rfl
  | greet =>
    apply greeted_move held
    · rfl
    · rfl
    · rfl
    · exact fun _ => Nat.succ_pos _
    · rw [subscriber]
      change (state.list++["hello"]).length+state.unheard+0 = state.list.length+(state.unheard+1)+0
      rw [List.length_append,List.length_singleton]
      omega
  | drain left =>
    cases left with
    | zero =>
      apply greeted_move held rfl rfl rfl
      · exact fun _ => held.greeted (by rw [subscriber]; rfl)
      · rw [subscriber]
        rfl
    | succ left =>
      rw [subscriber] at calm
      cases calm
  | waiting unread =>
    cases unread with
    | zero => exact held
    | succ unread =>
      apply greeted_move held rfl rfl rfl
      · exact fun _ => held.greeted (by rw [subscriber]; rfl)
      · rw [subscriber]
        rfl
  | woken unread =>
    obtain ⟨subscribers,publishers,unheard⟩ := lpop_frame state sub
    have full := List.length_pos_of_ne_nil (greeted_list held subscriber)
    apply greeted_move held subscribers publishers rfl
    · rw [unheard]
      exact fun _ => held.greeted (by rw [subscriber]; rfl)
    · rw [lpop_list,unheard,subscriber,List.length_tail]
      change state.list.length-1+state.unheard+(unread+1) = state.list.length+state.unheard+unread
      omega
  | closed =>
    rw [subscriber] at calm
    cases calm
  | deaf =>
    rw [subscriber] at calm
    cases calm
  | gone => exact held

omit [DecidableEq Sub] [DecidableEq Pub] [Fintype Pub] in
/-- A message is one notice for the subscriber, or unheard. -/
theorem greeted_publish (held : Greeted sub pub state) : (∀ place, place ≠ sub →
    (state.publish true).subscribers place = .start) ∧ ((state.publish true).subscribers sub).calm = true ∧
    (((state.publish true).subscribers sub).greeted = true → 0 < (state.publish true).unheard) ∧
    (state.publish true).unheard+((state.publish true).subscribers sub).notices =
      state.unheard+(state.subscribers sub).notices+1 := by
  unfold State.publish
  split
  next heard =>
    obtain ⟨_,place,subscribed⟩ := heard
    have here : (state.subscribers sub).subscribed = true := by
      by_cases same : place = sub
      · exact same ▸ subscribed
      · rw [held.others place same] at subscribed
        cases subscribed
    refine ⟨?_,?_,?_,?_⟩
    · intro other differs
      change (state.subscribers other).hear = .start
      rw [held.others other differs]
      rfl
    · have calm := held.calm
      change (state.subscribers sub).hear.calm = true
      revert calm
      cases state.subscribers sub <;> exact id
    · have greeted := held.greeted
      change (state.subscribers sub).hear.greeted = true → 0 < state.unheard
      revert greeted
      cases state.subscribers sub <;> exact id
    · change state.unheard+(state.subscribers sub).hear.notices = _
      rw [Subscriber.hear_notices,if_pos here]
      omega
  next unheard =>
    refine ⟨held.others,held.calm,fun _ => Nat.succ_pos _,?_⟩
    change state.unheard+1+(state.subscribers sub).notices = _
    omega

omit [DecidableEq Sub] [Fintype Pub] in
theorem greeted_run (held : Greeted sub pub state) : Greeted sub pub (state.run pub true) := by
  have even := held.even
  unfold State.run
  dsimp only
  split
  next published =>
    have before : (state.publishers pub).pending = 1 := if_pos published
    refine ⟨held.others,held.calm,held.greeted,?_⟩
    change (state.list++[_]).length+(Function.update state.publishers pub _ pub).pending = _
    rw [Function.update_self,List.length_append,List.length_singleton]
    change state.list.length+1+0 = _
    rw [before] at even
    exact even
  next unpublished =>
    have before : (state.publishers pub).pending = 0 := if_neg unpublished
    split
    next =>
      obtain ⟨others,calm,greeted,told⟩ := greeted_publish held
      obtain ⟨list,publishers,_⟩ := publish_frame state true
      refine ⟨others,calm,greeted,?_⟩
      change (state.publish true).list.length+(Function.update (state.publish true).publishers pub _ pub).pending =
        (state.publish true).unheard+((state.publish true).subscribers sub).notices
      rw [Function.update_self,list,told]
      change state.list.length+1 = _
      omega
    next => exact held

omit [Fintype Pub] in
theorem greeted_step (state : State Sub Pub) (event : Event Sub Pub) (held : Greeted sub pub state)
    (fit : Fit sub pub state event) : Greeted sub pub (step state event) := by
  cases event with
  | sub party reached =>
    obtain ⟨rfl,rfl,empty⟩ := fit
    exact greeted_subscribe held empty
  | pub party reached =>
    obtain ⟨rfl,rfl⟩ := fit
    exact greeted_run held
  | spy => exact fit.elim
  | leave => exact fit.elim

omit [Fintype Pub] in
/-- A subscriber that has greeted never finds the list empty, though it is woken before the
message is there, and once it has read all it has taken every message in its order, but the
last ones: as many as went unheard, the greeting included. -/
theorem greeted_takes {sub : Sub} {pub : Pub} {events : List (Event Sub Pub)} {state : State Sub Pub}
    (admitted : Along step (Fit sub pub) {} events) (reached : final step {} events = state) :
    (∀ unread, state.subscribers sub = .woken unread → state.list ≠ []) ∧
    (state.subscribers sub = .waiting 0 → (state.publishers pub).published = false →
      state.taken.map Prod.snd = state.pushed.take (state.pushed.length-state.unheard)) := by
  have initial : Greeted sub pub ({} : State Sub Pub) := ⟨fun _ _ => rfl,rfl,(by rintro ⟨⟩),rfl⟩
  have held : Greeted sub pub state := reached ▸ final_invariant greeted_step _ events initial admitted
  have ordered : Ordered [] (final step ({} : State Sub Pub) events) := final_always ordered_step _ events rfl
  refine ⟨fun unread woken => greeted_list held woken,fun waiting unpublished => ?_⟩
  have even := held.even
  rw [waiting,Publisher.pending,unpublished] at even
  replace even : state.list.length = state.unheard := even
  rw [reached,Ordered,List.nil_append] at ordered
  rw [← ordered,List.length_append,even,Nat.add_sub_cancel,List.take_left']
  rfl

/-- The subscriber is woken before the first message is on the list, and takes the greeting. -/
def greetedRun : List (Event Unit Unit) :=
  [.sub () true,.sub () true,.sub () true,.pub () true,.sub () true,.sub () true,.pub () true]

theorem greeted_takes_first : (final step ({} : State Unit Unit) greetedRun).taken.map Prod.snd = ["hello"] :=
  (@greeted_takes _ _ _ _ _ () () greetedRun _ (by decide) rfl).2 rfl rfl

/-- A subscriber that drains the list instead is woken too early. -/
example : (final step ({list := ["a"]} : State Unit Unit) (greetedRun.take 5)).subscribers () = .woken 0 ∧
    (final step ({list := ["a"]} : State Unit Unit) (greetedRun.take 5)).list = [] := by decide

end YzFramework.Redis.NgxLuaRedis

import YzFramework.Cache.RedisCache

/-! `RedisEhCache` on several servers: a local cache on each, one source of record, and
messages of one Redis channel that tell all servers, the sender too, which key to fetch
again or to drop. A call to the source, an access to the cache and a message are steps
of their own; the threads of `getAside`, of the listener and of the notify worker
interleave freely. A cache access waits while `getAside` holds the key's write lock. -/
namespace YzFramework.Cache.RedisEhCache
open Library.Run
open RedisCache (Outcome)

variable {Site Key Value : Type} [DecidableEq Site] [DecidableEq Key]

inductive Pattern
  | update
  | delete
deriving DecidableEq

structure KeyPattern (Key : Type) where
  key : Key
  pattern : Pattern
deriving DecidableEq

/-- How far `onMessage` has come: not begun, with a value from the source, or about to
remove an element that it has seen. -/
inductive Stage (Value : Type)
  | received (pattern : Pattern)
  | fetched (value : Option Value)
  | removing
deriving DecidableEq

/-- An element may hold null. `loading` is what `getAside` has fetched and is to put
before it releases the key's write lock. -/
structure Server (Key Value : Type) where
  cache : Key → Option (Option Value) := fun _ => none
  loading : Key → Option (Option Value) := fun _ => none
  inbox : List (KeyPattern Key) := []
  handlers : Key → List (Stage Value) := fun _ => []
  notifyQueue : List (KeyPattern Key) := []
  notifying : Option (KeyPattern Key) := none

/-- `unannounced` are the changes of the source whose `update` or `delete` has not sent
or queued its message. -/
structure State (Site Key Value : Type) where
  sor : Key → Option Value
  servers : Site → Server Key Value := fun _ => {}
  unannounced : List (Site × Key) := []

/-- `delete` is an `evict` at its own server and an announcement; the cache also evicts
by itself. `receive` hands the next message to `onMessage`, `handle` is the next access of
one that is under way, in which `getSoR` may throw. A thread that is interrupted does not
queue its message; what `putNotifyQueue` then removes at its own server is an `evict`.
`lose` is a message that a server misses while it reconnects. -/
inductive Event (Site Key Value : Type)
  | write (site : Site) (key : Key) (value : Option Value)
  | announce (site : Site) (key : Key) (pattern : Pattern) (outcome : Outcome) (interrupted : Bool)
  | evict (site : Site) (key : Key)
  | load (site : Site) (key : Key)
  | loaded (site : Site) (key : Key)
  | receive (site : Site) (withPattern : Bool)
  | handle (site : Site) (key : Key) (position : ℕ) (fails : Bool)
  | take (site : Site)
  | notify (site : Site) (outcome : Outcome) (interrupted : Bool)
  | lose (site : Site)

namespace Server

/-- `getAside` on a miss: under the write lock it looks again and fetches. -/
def load (server : Server Key Value) (sor : Key → Option Value) (key : Key) : Server Key Value :=
  match server.loading key,server.cache key with
  | none,none => {server with loading := Function.update server.loading key (some (sor key))}
  | _,_ => server

def loaded (server : Server Key Value) (key : Key) : Server Key Value :=
  match server.loading key with
  | some value =>
    {server with
      cache := Function.update server.cache key (some value)
      loading := Function.update server.loading key none}
  | none => server

def evict (server : Server Key Value) (key : Key) : Server Key Value :=
  if server.loading key = none then {server with cache := Function.update server.cache key none} else server

def receive (server : Server Key Value) (withPattern : Bool) : Server Key Value :=
  match server.inbox with
  | [] => server
  | message::rest =>
    let pattern := if withPattern then message.pattern else .update
    {server with
      inbox := rest
      handlers := Function.update server.handlers message.key (.received pattern::server.handlers message.key)}

def setStage (server : Server Key Value) (key : Key) (position : ℕ) (stage : Stage Value) : Server Key Value :=
  {server with handlers := Function.update server.handlers key ((server.handlers key).set position stage)}

def finish (server : Server Key Value) (key : Key) (position : ℕ) : Server Key Value :=
  {server with handlers := Function.update server.handlers key ((server.handlers key).eraseIdx position)}

/-- The first half of `removeCache`: nothing to remove, or an element that goes next. -/
def removeCache (server : Server Key Value) (key : Key) (position : ℕ) : Server Key Value :=
  match server.cache key with
  | none => server.finish key position
  | some _ => server.setStage key position .removing

def handle (server : Server Key Value) (sor : Key → Option Value) (key : Key) (position : ℕ) (fails : Bool) :
    Server Key Value :=
  match (server.handlers key)[position]?,server.loading key with
  | some (.received .update),_ =>
    -- What `getSoR` throws ends `onMessage`, and the element stays.
    if fails then server.finish key position else server.setStage key position (.fetched (sor key))
  | some (.received .delete),none => server.removeCache key position
  | some (.fetched none),none => server.removeCache key position
  | some (.fetched (some value)),none =>
    {server.finish key position with cache := Function.update server.cache key (some (some value))}
  | some .removing,none => {server.finish key position with cache := Function.update server.cache key none}
  | _,_ => server

def take (server : Server Key Value) : Server Key Value :=
  match server.notifying,server.notifyQueue with
  | none,message::rest => {server with notifyQueue := rest,notifying := some message}
  | _,_ => server

end Server

namespace State

def set (state : State Site Key Value) (site : Site) (server : Server Key Value) : State Site Key Value :=
  {state with servers := Function.update state.servers site server}

/-- `convertAndSend` to every server. -/
def publish (state : State Site Key Value) (message : KeyPattern Key) : State Site Key Value :=
  {state with servers := fun site => {state.servers site with inbox := (state.servers site).inbox ++ [message]}}

/-- `notifyUpdateCache`, and the message in the queue if that throws. -/
def send (state : State Site Key Value) (site : Site) (message : KeyPattern Key) (outcome : Outcome)
    (interrupted : Bool) : State Site Key Value :=
  let state := if outcome.effective then state.publish message else state
  if outcome.throws && !interrupted then
    state.set site {state.servers site with notifyQueue := (state.servers site).notifyQueue ++ [message]}
  else state

end State

def step (state : State Site Key Value) : Event Site Key Value → State Site Key Value
  | .write site key value =>
    {state with sor := Function.update state.sor key value,unannounced := (site,key)::state.unannounced}
  | .announce site key pattern outcome interrupted =>
    {state.send site ⟨key,pattern⟩ outcome interrupted with unannounced := state.unannounced.erase (site,key)}
  | .evict site key => state.set site ((state.servers site).evict key)
  | .load site key => state.set site ((state.servers site).load state.sor key)
  | .loaded site key => state.set site ((state.servers site).loaded key)
  | .receive site withPattern => state.set site ((state.servers site).receive withPattern)
  | .handle site key position fails =>
    state.set site ((state.servers site).handle state.sor key position fails)
  | .take site => state.set site (state.servers site).take
  | .notify site outcome interrupted =>
    match (state.servers site).notifying with
    | some message =>
      (state.set site {state.servers site with notifying := none}).send site message outcome interrupted
    | none => state
  | .lose site => state.set site {state.servers site with inbox := (state.servers site).inbox.tail}

/-- What `get` gives back. -/
def get (state : State Site Key Value) (site : Site) (key : Key) : Option Value :=
  ((state.servers site).cache key).join

/-- The listener works on one message of a key at a time and can read the source, and no
message is missed or kept from the queue. -/
def Fit (state : State Site Key Value) : Event Site Key Value → Prop
  | .receive site _ => ∀ message, (state.servers site).inbox.head? = some message →
      (state.servers site).handlers message.key = []
  | .handle site key position fails =>
      fails = true → ((state.servers site).handlers key)[position]? ≠ some (.received .update)
  | .announce _ _ _ outcome interrupted => interrupted = true → outcome.effective = true
  | .notify _ outcome interrupted => interrupted = true → outcome.effective = true
  | .lose site => (state.servers site).inbox = []
  | _ => True

/-- A message of the key is still to be sent by some server or to be received by this one. -/
def Sent (servers : Site → Server Key Value) (site : Site) (key : Key) : Prop :=
  (∃ sender pattern, ⟨key,pattern⟩ ∈ (servers sender).notifyQueue) ∨
  (∃ sender pattern, (servers sender).notifying = some ⟨key,pattern⟩) ∨
  ∃ pattern, ⟨key,pattern⟩ ∈ (servers site).inbox

def Pending (state : State Site Key Value) (site : Site) (key : Key) : Prop :=
  (∃ sender, (sender,key) ∈ state.unannounced) ∨ Sent state.servers site key

/-- What a server has of a key when no message is to come: only current values on their
way into the cache, and a current element or none, unless the listener is at work. -/
structure Current (current : Option Value) (server : Server Key Value) (key : Key) : Prop where
  fetched : ∀ value, .fetched value ∈ server.handlers key → value = current
  settled : server.handlers key = [] → (∀ value, server.cache key = some value → value = current) ∧
    ∀ value, server.loading key = some value → value = current

structure Coherent (state : State Site Key Value) : Prop where
  single : ∀ site key, ((state.servers site).handlers key).length ≤ 1
  sound : ∀ site key, Pending state site key ∨ Current (state.sor key) (state.servers site) key

/-- A change of a server that has to do with one key and with no message. -/
structure Local (before after : Server Key Value) (key : Key) : Prop where
  inbox : after.inbox = before.inbox
  notifyQueue : after.notifyQueue = before.notifyQueue
  notifying : after.notifying = before.notifying
  cache : ∀ other, other ≠ key → after.cache other = before.cache other
  loading : ∀ other, other ≠ key → after.loading other = before.loading other
  handlers : ∀ other, other ≠ key → after.handlers other = before.handlers other

namespace Server

variable (server : Server Key Value) (key : Key)

omit [DecidableEq Key] in
theorem local_self : Local server server key := ⟨rfl,rfl,rfl,fun _ _ => rfl,fun _ _ => rfl,fun _ _ => rfl⟩

private theorem local_load (sor : Key → Option Value) : Local server (server.load sor key) key := by
  unfold load
  split
  · exact ⟨rfl,rfl,rfl,fun _ _ => rfl,fun _ other => Function.update_of_ne other _ _,fun _ _ => rfl⟩
  · exact server.local_self key

private theorem local_loaded : Local server (server.loaded key) key := by
  unfold loaded
  split
  · exact ⟨rfl,rfl,rfl,fun _ other => Function.update_of_ne other _ _,fun _ other => Function.update_of_ne other _ _,
      fun _ _ => rfl⟩
  · exact server.local_self key

private theorem local_evict : Local server (server.evict key) key := by
  unfold evict
  split
  · exact ⟨rfl,rfl,rfl,fun _ other => Function.update_of_ne other _ _,fun _ _ => rfl,fun _ _ => rfl⟩
  · exact server.local_self key

private theorem local_setStage (position : ℕ) (stage : Stage Value) :
    Local server (server.setStage key position stage) key :=
  ⟨rfl,rfl,rfl,fun _ _ => rfl,fun _ _ => rfl,fun _ other => Function.update_of_ne other _ _⟩

private theorem local_finish (position : ℕ) : Local server (server.finish key position) key :=
  ⟨rfl,rfl,rfl,fun _ _ => rfl,fun _ _ => rfl,fun _ other => Function.update_of_ne other _ _⟩

private theorem local_removeCache (position : ℕ) : Local server (server.removeCache key position) key := by
  unfold removeCache
  split
  · exact server.local_finish key position
  · exact server.local_setStage key position .removing

private theorem local_handle (sor : Key → Option Value) (position : ℕ) (fails : Bool) :
    Local server (server.handle sor key position fails) key := by
  unfold handle
  split
  · split
    · exact server.local_finish key position
    · exact server.local_setStage key position _
  · exact server.local_removeCache key position
  · exact server.local_removeCache key position
  · exact ⟨rfl,rfl,rfl,fun _ other => Function.update_of_ne other _ _,fun _ _ => rfl,
      fun _ other => Function.update_of_ne other _ _⟩
  · exact ⟨rfl,rfl,rfl,fun _ other => Function.update_of_ne other _ _,fun _ _ => rfl,
      fun _ other => Function.update_of_ne other _ _⟩
  · exact server.local_self key

end Server

omit [DecidableEq Key] in
theorem pending_set {state : State Site Key Value} {site : Site} {server : Server Key Value} {key : Key}
    (changed : Local (state.servers site) server key) (place : Site) (other : Key) :
    Pending (state.set site server) place other ↔ Pending state place other := by
  have inbox (sender : Site) : ((state.set site server).servers sender).inbox = (state.servers sender).inbox ∧
      ((state.set site server).servers sender).notifyQueue = (state.servers sender).notifyQueue ∧
      ((state.set site server).servers sender).notifying = (state.servers sender).notifying := by
    unfold State.set
    by_cases same : sender = site
    · subst same
      simp only [Function.update_self]
      exact ⟨changed.inbox,changed.notifyQueue,changed.notifying⟩
    · simp [Function.update_of_ne same]
  unfold Pending Sent
  simp only [inbox]
  rfl

/-- A local change is safe if it leaves one handler and keeps the key current. -/
theorem coherent_local {state : State Site Key Value} (coherent : Coherent state) {site : Site}
    {server : Server Key Value} {key : Key} (changed : Local (state.servers site) server key)
    (single : (server.handlers key).length ≤ 1)
    (kept : Current (state.sor key) (state.servers site) key → Current (state.sor key) server key) :
    Coherent (state.set site server) := by
  have here (place : Site) : (state.set site server).servers place = if place = site then server else state.servers place := by
    unfold State.set
    by_cases same : place = site
    · subst same
      simp
    · simp [same]
  constructor
  · intro place other
    rw [here]
    by_cases same : place = site
    · subst same
      rw [if_pos rfl]
      by_cases touched : other = key
      · rw [touched]
        exact single
      · rw [changed.handlers other touched]
        exact coherent.single place other
    · rw [if_neg same]
      exact coherent.single place other
  · intro place other
    rw [pending_set changed,here]
    refine (coherent.sound place other).imp id fun current => ?_
    by_cases same : place = site
    · subst same
      rw [if_pos rfl]
      by_cases touched : other = key
      · subst touched
        exact kept current
      · constructor
        · rw [changed.handlers other touched]
          exact current.fetched
        · rw [changed.handlers other touched,changed.cache other touched,changed.loading other touched]
          exact current.settled
    · rw [if_neg same]
      exact current

namespace Server

variable {server : Server Key Value} {key : Key}

theorem current_load {sor : Key → Option Value} (current : Current (sor key) server key) :
    Current (sor key) (server.load sor key) key := by
  unfold load
  split
  next free miss =>
    refine ⟨current.fetched,fun idle => ⟨(current.settled idle).1,?_⟩⟩
    intro value same
    simp only [Function.update_self,Option.some.injEq] at same
    exact same.symm
  next => exact current

theorem current_loaded {source : Option Value} (current : Current source server key) :
    Current source (server.loaded key) key := by
  unfold loaded
  split
  next value fetched =>
    refine ⟨current.fetched,fun idle => ?_⟩
    simp only [Function.update_self]
    refine ⟨?_,by simp⟩
    rintro value ⟨⟩
    exact (current.settled idle).2 value fetched
  next => exact current

theorem current_evict {source : Option Value} (current : Current source server key) :
    Current source (server.evict key) key := by
  unfold evict
  split
  next =>
    refine ⟨current.fetched,fun idle => ⟨?_,(current.settled idle).2⟩⟩
    simp
  next => exact current

omit [DecidableEq Key] in
/-- The only handler of a key is through, and what it leaves in the cache is current. -/
theorem current_finished {source : Option Value} (through : server.handlers key = [])
    (free : server.loading key = none) (fresh : ∀ value, server.cache key = some value → value = source) :
    Current source server key := by
  constructor
  · simp [through]
  · rw [free]
    exact fun _ => ⟨fresh,by simp⟩

omit [DecidableEq Key] in
theorem current_working {source : Option Value} {stage : Stage Value} (working : server.handlers key = [stage])
    (current : ∀ value, stage = .fetched value → value = source) : Current source server key := by
  constructor
  · rw [working]
    exact fun value inside => current value (List.mem_singleton.mp inside).symm
  · simp [working]

variable {stage : Stage Value} {position : ℕ}

omit [DecidableEq Key] in
private theorem only_stage (single : (server.handlers key).length ≤ 1)
    (found : (server.handlers key)[position]? = some stage) :
    position = 0 ∧ server.handlers key = [stage] := by
  obtain ⟨below,same⟩ := List.getElem?_eq_some_iff.mp found
  obtain rfl : position = 0 := by omega
  obtain ⟨only,shape⟩ := List.length_eq_one_iff.mp (by omega : (server.handlers key).length = 1)
  simp only [shape,List.getElem_cons_zero] at same
  exact ⟨rfl,by rw [shape,same]⟩

theorem finish_only (only : server.handlers key = [stage]) : (server.finish key 0).handlers key = [] := by
  simp [finish,only]

theorem setStage_only (only : server.handlers key = [stage]) (next : Stage Value) :
    (server.setStage key 0 next).handlers key = [next] := by
  simp [setStage,only]

theorem removeCache_single (only : server.handlers key = [stage]) :
    ((server.removeCache key 0).handlers key).length ≤ 1 := by
  unfold removeCache
  split
  · rw [finish_only only]
    exact Nat.zero_le 1
  · rw [setStage_only only]
    exact le_refl 1

theorem current_removeCache {source : Option Value} (only : server.handlers key = [stage])
    (free : server.loading key = none) : Current source (server.removeCache key 0) key := by
  unfold removeCache
  split
  next absent =>
    refine current_finished (finish_only only) free ?_
    change ∀ value, server.cache key = some value → _
    rw [absent]
    simp
  next => exact current_working (setStage_only only _) (by simp)

/-- One access of the listener's only thread for a key. -/
theorem handle_only {sor : Key → Option Value} {fails : Bool} (single : (server.handlers key).length ≤ 1)
    (read : fails = true → (server.handlers key)[position]? ≠ some (.received .update)) :
    ((server.handle sor key position fails).handlers key).length ≤ 1 ∧
      (Current (sor key) server key → Current (sor key) (server.handle sor key position fails) key) := by
  cases found : (server.handlers key)[position]? with
  | none =>
    have idle : server.handle sor key position fails = server := by rw [handle,found]
    rw [idle]
    exact ⟨single,id⟩
  | some stage =>
    obtain ⟨rfl,only⟩ := only_stage single found
    unfold handle
    rw [found]
    split
    next _ taken =>
      have fetches : ¬ fails = true := fun failed => read failed (found.trans taken)
      rw [if_neg fetches]
      exact ⟨by rw [setStage_only only]; exact le_refl 1,fun _ => current_working (setStage_only only _)
        fun value same => (Stage.fetched.inj same).symm⟩
    next taken free => exact ⟨removeCache_single only,fun _ => current_removeCache only free⟩
    next taken free => exact ⟨removeCache_single only,fun _ => current_removeCache only free⟩
    next value taken free =>
      obtain rfl := Option.some.inj taken
      refine ⟨le_of_eq_of_le (congrArg List.length (finish_only only)) (Nat.zero_le 1),fun current => ?_⟩
      refine current_finished (finish_only only) free fun put same => ?_
      simp only [Function.update_self,Option.some.injEq] at same
      rw [← same]
      exact current.fetched _ (by rw [only]; exact List.mem_singleton_self _)
    next taken free =>
      refine ⟨le_of_eq_of_le (congrArg List.length (finish_only only)) (Nat.zero_le 1),fun _ => ?_⟩
      exact current_finished (finish_only only) free fun put same => by simp at same
    next => exact ⟨single,id⟩

end Server

theorem coherent_write {state : State Site Key Value} (coherent : Coherent state) (site : Site) (key : Key)
    (value : Option Value) : Coherent (step state (.write site key value)) := by
  refine ⟨coherent.single,fun place other => ?_⟩
  by_cases changed : other = key
  · subst changed
    exact Or.inl (Or.inl ⟨site,List.mem_cons_self⟩)
  · have same : (step state (.write site key value)).sor other = state.sor other := Function.update_of_ne changed _ _
    rw [same]
    exact (coherent.sound place other).imp (Or.imp (fun ⟨sender,inside⟩ => ⟨sender,List.mem_cons_of_mem _ inside⟩) id) id

/-- What a step on messages leaves alone. -/
structure SameCaches (before after : Site → Server Key Value) : Prop where
  cache : ∀ site, (after site).cache = (before site).cache
  loading : ∀ site, (after site).loading = (before site).loading
  handlers : ∀ site, (after site).handlers = (before site).handlers

omit [DecidableEq Site] [DecidableEq Key] in
theorem coherent_messages {state after : State Site Key Value} (coherent : Coherent state) (sor : after.sor = state.sor)
    (same : SameCaches state.servers after.servers)
    (pending : ∀ site key, Pending state site key → Pending after site key) : Coherent after := by
  constructor
  · intro site key
    rw [same.handlers]
    exact coherent.single site key
  · intro site key
    refine (coherent.sound site key).imp (pending site key) fun current => ?_
    rw [sor]
    constructor
    · rw [same.handlers]
      exact current.fetched
    · rw [same.handlers,same.cache,same.loading]
      exact current.settled

section
omit [DecidableEq Key]
variable (state : State Site Key Value) (site : Site) (message : KeyPattern Key) (outcome : Outcome)
  (interrupted : Bool)

private theorem sameCaches_send :
    SameCaches state.servers (state.send site message outcome interrupted).servers := by
  have queue (servers : Site → Server Key Value) : SameCaches servers
      (Function.update servers site {servers site with notifyQueue := (servers site).notifyQueue ++ [message]}) := by
    constructor <;> intro place <;> by_cases same : place = site <;> simp [same]
  have published : SameCaches state.servers (if outcome.effective then state.publish message else state).servers := by
    split <;> exact ⟨fun _ => rfl,fun _ => rfl,fun _ => rfl⟩
  unfold State.send
  dsimp only
  generalize (if outcome.effective then state.publish message else state) = sent at published
  split
  · have queued := queue sent.servers
    exact ⟨fun place => (queued.cache place).trans (published.cache place),
      fun place => (queued.loading place).trans (published.loading place),
      fun place => (queued.handlers place).trans (published.handlers place)⟩
  · exact published

/-- The message is on its way to every server, whether it was sent or is queued. -/
theorem sent_send (kept : interrupted = true → outcome.effective = true) (place : Site) :
    Sent (state.send site message outcome interrupted).servers place message.key := by
  cases queued : outcome.throws && !interrupted with
  | true =>
    refine Or.inl ⟨site,message.pattern,?_⟩
    simp [State.send,queued,State.set]
  | false =>
    have effective : outcome.effective = true := by
      cases outcome with
      | done => rfl
      | unanswered => rfl
      | refused => exact kept (by simpa [Outcome.throws] using queued)
    refine Or.inr (Or.inr ⟨message.pattern,?_⟩)
    simp [State.send,queued,effective,State.publish]

omit [DecidableEq Site] in
theorem sent_publish {place : Site} {key : Key} (sent : Sent state.servers place key) :
    Sent (state.publish message).servers place key :=
  sent.imp id (Or.imp id fun ⟨pattern,inside⟩ => ⟨pattern,List.mem_append_left _ inside⟩)

theorem sent_enqueue {place : Site} {key : Key} (sent : Sent state.servers place key) :
    Sent (state.set site {state.servers site with notifyQueue := (state.servers site).notifyQueue ++ [message]}).servers
      place key := by
  have grown (sender : Site) : let after := (state.set site
      {state.servers site with notifyQueue := (state.servers site).notifyQueue ++ [message]}).servers sender
      (∀ m ∈ (state.servers sender).notifyQueue, m ∈ after.notifyQueue) ∧
        after.notifying = (state.servers sender).notifying ∧ after.inbox = (state.servers sender).inbox := by
    by_cases same : sender = site
    · subst same
      simp only [State.set,Function.update_self]
      exact ⟨fun m inside => List.mem_append_left _ inside,trivial,trivial⟩
    · simp only [State.set,Function.update_of_ne same]
      exact ⟨fun m inside => inside,trivial,trivial⟩
  rcases sent with ⟨sender,pattern,inside⟩ | ⟨sender,pattern,held⟩ | ⟨pattern,inside⟩
  · exact Or.inl ⟨sender,pattern,(grown sender).1 _ inside⟩
  · exact Or.inr (Or.inl ⟨sender,pattern,(grown sender).2.1.trans held⟩)
  · exact Or.inr (Or.inr ⟨pattern,by rw [(grown place).2.2]; exact inside⟩)

theorem sent_mono {place : Site} {key : Key} (sent : Sent state.servers place key) :
    Sent (state.send site message outcome interrupted).servers place key := by
  have published : Sent (if outcome.effective then state.publish message else state).servers place key := by
    split
    · exact sent_publish state message sent
    · exact sent
  unfold State.send
  dsimp only
  split
  · exact sent_enqueue _ site message published
  · exact published

theorem send_sor : (state.send site message outcome interrupted).sor = state.sor ∧
    (state.send site message outcome interrupted).unannounced = state.unannounced := by
  unfold State.send
  dsimp only
  split <;> split <;> exact ⟨rfl,rfl⟩

end

private theorem coherent_announce {state : State Site Key Value} (coherent : Coherent state) (site : Site)
    (key : Key)
    (pattern : Pattern) (outcome : Outcome) (interrupted : Bool) (kept : interrupted = true → outcome.effective = true) :
    Coherent (step state (.announce site key pattern outcome interrupted)) := by
  have sor := (send_sor state site ⟨key,pattern⟩ outcome interrupted).1
  refine coherent_messages coherent sor (sameCaches_send state site ⟨key,pattern⟩ outcome interrupted)
    fun place other pending => ?_
  rcases pending with ⟨sender,inside⟩ | sent
  · by_cases announced : other = key
    · subst announced
      exact Or.inr (sent_send state site ⟨other,pattern⟩ outcome interrupted kept place)
    · refine Or.inl ⟨sender,(List.mem_erase_of_ne ?_).mpr inside⟩
      exact fun same => announced (congrArg Prod.snd same)
  · exact Or.inr (sent_mono state site ⟨key,pattern⟩ outcome interrupted sent)

omit [DecidableEq Key] in
theorem set_server (state : State Site Key Value) (site place : Site) (server : Server Key Value) :
    (state.set site server).servers place = if place = site then server else state.servers place := by
  by_cases same : place = site
  · subst same
    simp [State.set]
  · simp [State.set,same]

omit [DecidableEq Key] in
private theorem sameCaches_set {state : State Site Key Value} {site : Site} {server : Server Key Value}
    (cache : server.cache = (state.servers site).cache) (loading : server.loading = (state.servers site).loading)
    (handlers : server.handlers = (state.servers site).handlers) :
    SameCaches state.servers (state.set site server).servers := by
  constructor <;> intro place <;> rw [set_server] <;> by_cases same : place = site <;> simp [same,cache,loading,handlers]

private theorem coherent_take {state : State Site Key Value} (coherent : Coherent state) (site : Site) :
    Coherent (step state (.take site)) := by
  rw [step,Server.take]
  split
  next message rest free queued =>
    refine coherent_messages coherent rfl (sameCaches_set rfl rfl rfl) fun place key pending => pending.imp id ?_
    rintro (⟨sender,pattern,inside⟩ | ⟨sender,pattern,held⟩ | ⟨pattern,inside⟩)
    · by_cases same : sender = site
      · subst same
        rw [queued] at inside
        rcases List.mem_cons.mp inside with rfl | later
        · exact Or.inr (Or.inl ⟨sender,pattern,by rw [set_server,if_pos rfl]⟩)
        · exact Or.inl ⟨sender,pattern,by rw [set_server,if_pos rfl]; exact later⟩
      · exact Or.inl ⟨sender,pattern,by rw [set_server,if_neg same]; exact inside⟩
    · have other : sender ≠ site := by
        rintro rfl
        rw [free] at held
        cases held
      exact Or.inr (Or.inl ⟨sender,pattern,by rw [set_server,if_neg other]; exact held⟩)
    · refine Or.inr (Or.inr ⟨pattern,?_⟩)
      rw [set_server]
      split
      next same => exact same ▸ inside
      next => exact inside
  next =>
    have same : state.set site (state.servers site) = state := by simp [State.set]
    rw [same]
    exact coherent

private theorem coherent_notify {state : State Site Key Value} (coherent : Coherent state) (site : Site)
    (outcome : Outcome)
    (interrupted : Bool) (kept : interrupted = true → outcome.effective = true) :
    Coherent (step state (.notify site outcome interrupted)) := by
  rw [step]
  split
  next message held =>
    have cleared : SameCaches state.servers (state.set site {state.servers site with notifying := none}).servers :=
      sameCaches_set rfl rfl rfl
    have sent := sameCaches_send (state.set site {state.servers site with notifying := none}) site message outcome
      interrupted
    obtain ⟨sor,unannounced⟩ := send_sor (state.set site {state.servers site with notifying := none}) site message
      outcome interrupted
    refine coherent_messages coherent sor ⟨fun place => (sent.cache place).trans (cleared.cache place),
      fun place => (sent.loading place).trans (cleared.loading place),
      fun place => (sent.handlers place).trans (cleared.handlers place)⟩ fun place key pending => ?_
    rcases pending with ⟨sender,inside⟩ | before
    · exact Or.inl ⟨sender,by rw [unannounced]; exact inside⟩
    · refine Or.inr ?_
      by_cases same : key = message.key
      · subst same
        exact sent_send _ site message outcome interrupted kept place
      · apply sent_mono
        rcases before with ⟨sender,pattern,inside⟩ | ⟨sender,pattern,other⟩ | ⟨pattern,inside⟩
        · refine Or.inl ⟨sender,pattern,?_⟩
          rw [set_server]
          split
          next here => exact here ▸ inside
          next => exact inside
        · refine Or.inr (Or.inl ⟨sender,pattern,?_⟩)
          have apart : sender ≠ site := by
            rintro rfl
            rw [held,Option.some.injEq] at other
            exact same (by rw [other])
          rw [set_server,if_neg apart]
          exact other
        · refine Or.inr (Or.inr ⟨pattern,?_⟩)
          rw [set_server]
          split
          next here => exact here ▸ inside
          next => exact inside
  next => exact coherent

omit [DecidableEq Key] in
/-- A server whose messages to send stay keeps what is sent, as far as it keeps its inbox. -/
theorem sent_set {state : State Site Key Value} {site place : Site} {server : Server Key Value} {key : Key}
    (queue : server.notifyQueue = (state.servers site).notifyQueue)
    (notifying : server.notifying = (state.servers site).notifying)
    (inbox : ∀ pattern, place = site → ⟨key,pattern⟩ ∈ (state.servers site).inbox → ⟨key,pattern⟩ ∈ server.inbox)
    (sent : Sent state.servers place key) : Sent (state.set site server).servers place key := by
  rcases sent with ⟨sender,pattern,inside⟩ | ⟨sender,pattern,held⟩ | ⟨pattern,inside⟩
  · refine Or.inl ⟨sender,pattern,?_⟩
    rw [set_server]
    split
    next same => rw [queue]; exact same ▸ inside
    next => exact inside
  · refine Or.inr (Or.inl ⟨sender,pattern,?_⟩)
    rw [set_server]
    split
    next same => rw [notifying]; exact same ▸ held
    next => exact held
  · refine Or.inr (Or.inr ⟨pattern,?_⟩)
    rw [set_server]
    split
    next same => exact inbox pattern same (same ▸ inside)
    next => exact inside

/-- The listener begins on a message with nobody else at work on its key. -/
theorem coherent_receive {state : State Site Key Value} (coherent : Coherent state) {site : Site} {withPattern : Bool}
    (fit : Fit state (.receive site withPattern)) : Coherent (step state (.receive site withPattern)) := by
  rw [step,Server.receive]
  split
  next =>
    have same : state.set site (state.servers site) = state := by simp [State.set]
    rw [same]
    exact coherent
  next message rest waiting =>
    have idle : (state.servers site).handlers message.key = [] := fit message (by rw [waiting]; rfl)
    dsimp only
    generalize (if withPattern then message.pattern else .update) = pattern
    rw [idle]
    constructor
    · intro place key
      rw [set_server]
      split
      next =>
        by_cases begun : key = message.key
        · subst begun
          simp
        · simp only [Function.update_of_ne begun]
          exact coherent.single site key
      next => exact coherent.single place key
    · intro place key
      by_cases begun : place = site ∧ key = message.key
      · obtain ⟨rfl,rfl⟩ := begun
        refine Or.inr ?_
        rw [set_server,if_pos rfl]
        exact Server.current_working (Function.update_self _ _ _) (by simp)
      · refine (coherent.sound place key).imp (Or.imp id ?_) fun current => ?_
        · refine fun sent => sent_set ?_ ?_ (fun pattern here inside => ?_) sent
          · rfl
          · rfl
          · rw [waiting] at inside
            rcases List.mem_cons.mp inside with rfl | later
            · exact absurd ⟨here,rfl⟩ begun
            · exact later
        · rw [set_server]
          split
          next here =>
            subst here
            have apart : key ≠ message.key := fun same => begun ⟨rfl,same⟩
            constructor
            · simp only [Function.update_of_ne apart]
              exact current.fetched
            · simp only [Function.update_of_ne apart]
              exact current.settled
          next => exact current

private theorem coherent_step {state : State Site Key Value} (event : Event Site Key Value)
    (coherent : Coherent state)
    (fit : Fit state event) : Coherent (step state event) := by
  cases event with
  | write site key value => exact coherent_write coherent site key value
  | announce site key pattern outcome interrupted =>
    exact coherent_announce coherent site key pattern outcome interrupted fit
  | evict site key =>
    apply coherent_local coherent ((state.servers site).local_evict key)
    · have same : ((state.servers site).evict key).handlers = (state.servers site).handlers := by
        unfold Server.evict
        split <;> rfl
      rw [same]
      exact coherent.single site key
    · exact Server.current_evict
  | load site key =>
    apply coherent_local coherent ((state.servers site).local_load key state.sor)
    · have same : ((state.servers site).load state.sor key).handlers = (state.servers site).handlers := by
        unfold Server.load
        split <;> rfl
      rw [same]
      exact coherent.single site key
    · exact Server.current_load
  | loaded site key =>
    apply coherent_local coherent ((state.servers site).local_loaded key)
    · have same : ((state.servers site).loaded key).handlers = (state.servers site).handlers := by
        unfold Server.loaded
        split <;> rfl
      rw [same]
      exact coherent.single site key
    · exact Server.current_loaded
  | receive site withPattern => exact coherent_receive coherent fit
  | handle site key position fails =>
    obtain ⟨single,current⟩ := @Server.handle_only _ _ _ (state.servers site) key position state.sor fails
      (coherent.single site key) fit
    exact coherent_local coherent ((state.servers site).local_handle key state.sor position fails) single current
  | take site => exact coherent_take coherent site
  | notify site outcome interrupted => exact coherent_notify coherent site outcome interrupted fit
  | lose site =>
    have none : (state.servers site).inbox = [] := fit
    have same : step state (.lose site) = state := by
      rw [step,none,List.tail_nil,← none]
      simp [State.set]
    rw [same]
    exact coherent

/-- Nothing about the key is under way to or on this server. -/
structure Quiet (state : State Site Key Value) (site : Site) (key : Key) : Prop where
  announced : ∀ sender, (sender,key) ∉ state.unannounced
  sent : ∀ sender pattern, ⟨key,pattern⟩ ∉ (state.servers sender).notifyQueue ∧
    (state.servers sender).notifying ≠ some ⟨key,pattern⟩
  received : ∀ pattern, ⟨key,pattern⟩ ∉ (state.servers site).inbox
  handled : (state.servers site).handlers key = []

/-- A server has loaded the old value; another one writes, fails to send, and its worker sends. -/
def updateRun : List (Event Bool ℕ ℕ) :=
  [.load true 0,.loaded true 0,.write false 0 (some 5),.announce false 0 .update .refused false,.take false,
    .notify false .done false,.receive true true,.handle true 0 0 false,.handle true 0 0 false]

/-- Without the one handler at a time, a slow one puts back a value that has been replaced. -/
example : get (final step {sor := fun _ => some 3} ([.write false 0 (some 5),.announce false 0 .update .done false,
    .receive true true,.handle true 0 0 false,.write false 0 (some 7),.announce false 0 .update .done false,.receive true true,
    .handle true 0 0 false,.handle true 0 0 false,.handle true 0 0 false] : List (Event Bool ℕ ℕ))) true 0 = some 5 := by decide

end YzFramework.Cache.RedisEhCache

import YzFramework.Library.Store
import YzFramework.Library.Run

/-! `ZookeeperLocalCacheFactory`: local objects dropped when ZooKeeper reports a
change of a node they depend on. An add takes one step for each watch, one for the
put and one for each mapping; watches fire once and belong to a session. -/
namespace YzFramework.Cache
open Library Library.Store Library.Run

structure AddCall (Key Dep : Type*) where
  key : Key
  dependencies : List Dep

/-- How far a call of `add` has come: watches registered, or mappings added after
the put. A call that fails returns false. -/
inductive Phase
  | registering (count : ℕ)
  | mapping (count : ℕ)
  | failed
deriving DecidableEq

inductive EventType
  | nodeDataChanged
  | nodeDeleted
deriving DecidableEq

/-- The cache of one JVM, its session and the nodes. Objects are told apart by
the call that adds them; `stale` records those with a node changed or deleted
since the call registered its watch there. -/
structure LocalCache (ι Key Dep : Type*) where
  cachedObjectsMap : Store Key ι := fun _ => none
  dependecyMap : Store Dep (List Key) := fun _ => none
  phase : ι → Phase := fun _ => .registering 0
  connected : Bool := true
  nodes : Dep → Bool
  watchers : Dep → ℕ := fun _ => 0
  pending : List (Dep × EventType) := []
  stale : ι → Bool := fun _ => false

namespace LocalCache

inductive Event (ι Key Dep : Type*)
  | advance (add : ι)
  | fail (add : ι)
  | change (node : Dep)
  | delete (node : Dep)
  | create (node : Dep)
  | deliver (node : Dep) (type : EventType)
  | disconnect
  | connect
  | expire (kept : List (Dep × EventType))
  | remove (key : Key)

variable {ι Key Dep : Type*} [DecidableEq ι] [DecidableEq Key] [DecidableEq Dep]
  (adds : ι → AddCall Key Dep)

/-- `addDependencyNodeChangeWatcher` for one node, which is created if missing. -/
def register (cache : LocalCache ι Key Dep) (node : Dep) : LocalCache ι Key Dep :=
  {cache with
    nodes := Function.update cache.nodes node true
    watchers := Function.update cache.watchers node (cache.watchers node+1)}

def addMapping (cache : LocalCache ι Key Dep) (key : Key) (node : Dep) : LocalCache ι Key Dep :=
  {cache with
    dependecyMap := put cache.dependecyMap node (key::(cache.dependecyMap node).getD [])}

/-- `clearCacheObjectByDependency`; without a key set it throws and clears nothing. -/
def clear (cache : LocalCache ι Key Dep) (node : Dep) : LocalCache ι Key Dep :=
  match cache.dependecyMap node with
  | none => cache
  | some keySet => {cache with
      cachedObjectsMap := fun key => if key ∈ keySet then none else cache.cachedObjectsMap key}

def setPhase (cache : LocalCache ι Key Dep) (add : ι) (phase : Phase) : LocalCache ι Key Dep :=
  {cache with phase := Function.update cache.phase add phase}

def advance (cache : LocalCache ι Key Dep) (add : ι) : LocalCache ι Key Dep :=
  match cache.phase add with
  | .registering count =>
    match (adds add).dependencies[count]? with
    | some node =>
      if cache.connected then (cache.register node).setPhase add (.registering (count+1))
      else cache.setPhase add .failed
    | none =>
      {cache with
        cachedObjectsMap := put cache.cachedObjectsMap (adds add).key add}.setPhase add (.mapping 0)
  | .mapping count =>
    match (adds add).dependencies[count]? with
    | some node => (cache.addMapping (adds add).key node).setPhase add (.mapping (count+1))
    | none => cache
  | .failed => cache

def registered (cache : LocalCache ι Key Dep) (add : ι) : List Dep :=
  match cache.phase add with
  | .registering count => (adds add).dependencies.take count
  | _ => (adds add).dependencies

/-- A node is written or deleted: each of its watchers gets an event. -/
def fire (cache : LocalCache ι Key Dep) (node : Dep) (type : EventType) : LocalCache ι Key Dep :=
  {cache with
    watchers := Function.update cache.watchers node 0
    pending := List.replicate (cache.watchers node) (node,type)++cache.pending
    stale := fun add => cache.stale add || node ∈ registered adds cache add}

def step (cache : LocalCache ι Key Dep) : Event ι Key Dep → LocalCache ι Key Dep
  | .advance add => advance adds cache add
  | .fail add =>
    match cache.phase add with
    | .registering _ => cache.setPhase add .failed
    | _ => cache
  | .change node => if cache.nodes node then fire adds cache node .nodeDataChanged else cache
  | .delete node =>
    if cache.nodes node then
      {fire adds cache node .nodeDeleted with nodes := Function.update cache.nodes node false}
    else cache
  | .create node => {cache with nodes := Function.update cache.nodes node true}
  | .deliver node type =>
    if (node,type) ∈ cache.pending then
      let cache := {cache with pending := cache.pending.erase (node,type)}
      -- the watcher ignores every other type
      if type = .nodeDataChanged then cache.clear node else cache
    else cache
  | .disconnect => {cache with connected := false}
  | .connect => {cache with connected := true}
  | .expire kept =>
    if kept.isSublist cache.pending then
      {cache with
        connected := false
        watchers := fun _ => 0
        pending := kept}
    else cache
  | .remove key => {cache with cachedObjectsMap := Store.delete cache.cachedObjectsMap key}

def getObject (cache : LocalCache ι Key Dep) (key : Key) : Option ι :=
  if cache.connected then cache.cachedObjectsMap key else none

def Fresh (cache : LocalCache ι Key Dep) : Prop :=
  cache.pending = [] → ∀ key add, cache.getObject key = some add → cache.stale add = false

/-- An event is pending that will clear the object. -/
def Covered (cache : LocalCache ι Key Dep) (add : ι) : Prop :=
  ∃ node ∈ (adds add).dependencies, (node,EventType.nodeDataChanged) ∈ cache.pending

def Cached (cache : LocalCache ι Key Dep) (add : ι) : Prop :=
  cache.cachedObjectsMap (adds add).key = some add

/-- What the state has to be for an event: a stale object is put only while its
event is pending; a cached object loses its event only to a clearing that reaches
it; a node it depends on is changed only under a watch, and not deleted. -/
def Fit (cache : LocalCache ι Key Dep) : Event ι Key Dep → Prop
  | .advance add => ∀ count, cache.phase add = .registering count →
      (adds add).dependencies[count]? = none → cache.stale add = true → Covered adds cache add
  | .change node => cache.nodes node = true → ∀ add, Cached adds cache add →
      node ∈ (adds add).dependencies → 0 < cache.watchers node ∨ Covered adds cache add
  | .delete node => cache.nodes node = true → ∀ add, Cached adds cache add →
      node ∈ (adds add).dependencies → Covered adds cache add
  | .deliver node type => type = .nodeDataChanged → ∀ add, Cached adds cache add →
      cache.stale add = true → (∃ keySet ∈ cache.dependecyMap node, (adds add).key ∈ keySet) ∨
        ∃ other ∈ (adds add).dependencies,
          (other,EventType.nodeDataChanged) ∈ cache.pending.erase (node,type)
  | .expire kept => kept.isSublist cache.pending = true → ∀ add, Cached adds cache add →
      cache.stale add = true → ∃ node ∈ (adds add).dependencies,
        (node,EventType.nodeDataChanged) ∈ kept
  | _ => True

def Placed (cache : LocalCache ι Key Dep) : Prop :=
  ∀ key add, cache.cachedObjectsMap key = some add →
    (adds add).key = key ∧ ∃ count, cache.phase add = .mapping count

def Coherent (cache : LocalCache ι Key Dep) : Prop :=
  ∀ add, Cached adds cache add → cache.stale add = true → Covered adds cache add

theorem advance_cases (cache : LocalCache ι Key Dep) (add : ι) :
    (∃ count, cache.phase add = .registering count ∧ (adds add).dependencies[count]? = none ∧
      advance adds cache add = {cache with
        cachedObjectsMap := put cache.cachedObjectsMap (adds add).key add
        phase := Function.update cache.phase add (.mapping 0)}) ∨
    ((∀ count, cache.phase add = .registering count → (adds add).dependencies[count]? ≠ none) ∧
      (advance adds cache add).cachedObjectsMap = cache.cachedObjectsMap ∧
      (advance adds cache add).stale = cache.stale ∧
      (advance adds cache add).pending = cache.pending) := by
  unfold advance
  cases phase : cache.phase add with
  | registering count =>
    cases next : (adds add).dependencies[count]? with
    | none => exact .inl ⟨count,rfl,next,by simp only [next]; rfl⟩
    | some node =>
      right
      simp only [next]
      refine ⟨fun _ same => ?_,?_⟩
      · cases same
        simp [next]
      · split <;> exact ⟨rfl,rfl,rfl⟩
  | mapping count =>
    right
    refine ⟨fun _ same => by simp at same,?_⟩
    dsimp only
    split <;> exact ⟨rfl,rfl,rfl⟩
  | failed => exact .inr ⟨fun _ same => by simp at same,rfl,rfl,rfl⟩

variable {adds}

omit [DecidableEq ι] [DecidableEq Dep] in
theorem clear_map (cache : LocalCache ι Key Dep) (node : Dep) (key : Key) :
    (cache.clear node).cachedObjectsMap key =
      if ∃ keySet ∈ cache.dependecyMap node, key ∈ keySet then none
      else cache.cachedObjectsMap key := by
  cases mapped : cache.dependecyMap node <;> simp [clear,mapped]

omit [DecidableEq ι] [DecidableEq Dep] in
theorem clear_same (cache : LocalCache ι Key Dep) (node : Dep) :
    (cache.clear node).phase = cache.phase ∧ (cache.clear node).stale = cache.stale ∧
      (cache.clear node).pending = cache.pending := by
  unfold clear
  split <;> exact ⟨rfl,rfl,rfl⟩

omit [DecidableEq ι] [DecidableEq Key] [DecidableEq Dep] in
private theorem coherent_congr {cache other : LocalCache ι Key Dep}
    (objects : other.cachedObjectsMap = cache.cachedObjectsMap) (stale : other.stale = cache.stale)
    (pending : other.pending = cache.pending) : Coherent adds other ↔ Coherent adds cache := by
  simp only [Coherent,Cached,Covered,objects,stale,pending]

private theorem mapping_advance {cache : LocalCache ι Key Dep} {add : ι} {count : ℕ}
    (put : cache.phase add = .mapping count) (other : ι) :
    ∃ count, (advance adds cache other).phase add = .mapping count := by
  unfold advance
  by_cases same : add = other
  · subst same
    simp only [put]
    split
    · exact ⟨count+1,by simp [setPhase]⟩
    · exact ⟨count,put⟩
  · split
    · split
      · split <;> exact ⟨count,by simpa [setPhase,register,same] using put⟩
      · exact ⟨count,by simpa [setPhase,same] using put⟩
    · split
      · exact ⟨count,by simpa [setPhase,addMapping,same] using put⟩
      · exact ⟨count,put⟩
    · exact ⟨count,put⟩

theorem placed_advance {cache : LocalCache ι Key Dep} (placed : Placed adds cache) (other : ι) :
    Placed adds (advance adds cache other) := by
  intro key add found
  rcases advance_cases adds cache other with ⟨_,_,_,eq⟩ | ⟨_,same,_⟩
  · rw [eq] at found ⊢
    simp only [put_apply] at found
    split at found
    next here =>
      cases found
      exact ⟨here.symm,0,by simp⟩
    next =>
      obtain ⟨stands,count,phase⟩ := placed key add found
      refine ⟨stands,?_⟩
      by_cases again : add = other
      · exact ⟨0,by simp [again]⟩
      · exact ⟨count,by simpa [again] using phase⟩
  · rw [same] at found
    obtain ⟨stands,count,phase⟩ := placed key add found
    exact ⟨stands,mapping_advance phase other⟩

omit [DecidableEq ι] [DecidableEq Key] [DecidableEq Dep] in
theorem Placed.kept {cache other : LocalCache ι Key Dep} (placed : Placed adds cache)
    (phase : other.phase = cache.phase)
    (objects : ∀ key add, other.cachedObjectsMap key = some add →
      cache.cachedObjectsMap key = some add) : Placed adds other := by
  intro key add found
  rw [phase]
  exact placed key add (objects key add found)

theorem placed_deliver {cache : LocalCache ι Key Dep} (placed : Placed adds cache) (node : Dep)
    (type : EventType) : Placed adds (step adds cache (.deliver node type)) := by
  by_cases pending : (node,type) ∈ cache.pending
  · by_cases fired : type = .nodeDataChanged
    · simp only [step,if_pos pending,if_pos fired]
      refine placed.kept (clear_same _ node).1 fun key add found => ?_
      rw [clear_map] at found
      split at found
      · cases found
      · exact found
    · simp only [step,if_pos pending,if_neg fired]
      exact placed
  · simp only [step,if_neg pending]
    exact placed

theorem placed_fail {cache : LocalCache ι Key Dep} (placed : Placed adds cache) (other : ι) :
    Placed adds (step adds cache (.fail other)) := by
  simp only [step]
  split
  next count registering =>
    intro key add found
    obtain ⟨stands,place,put⟩ := placed key add found
    have different : add ≠ other := fun same => by simp [← same,put] at registering
    exact ⟨stands,place,by simpa [setPhase,different] using put⟩
  next => exact placed

theorem placed_step (cache : LocalCache ι Key Dep) (event : Event ι Key Dep)
    (placed : Placed adds cache) : Placed adds (step adds cache event) := by
  cases event with
  | advance other => exact placed_advance placed other
  | deliver node type => exact placed_deliver placed node type
  | fail other => exact placed_fail placed other
  | remove other =>
    refine placed.kept rfl fun key add found => ?_
    simp only [step,delete_apply] at found
    split at found
    · cases found
    · exact found
  | change node | delete node | expire kept =>
    simp only [step]
    split <;> exact placed
  | create node | disconnect | connect => exact placed

theorem advance_coherent_iff {cache : LocalCache ι Key Dep} (coherent : Coherent adds cache)
    (add : ι) : Coherent adds (advance adds cache add) ↔ Fit adds cache (.advance add) := by
  rcases advance_cases adds cache add with ⟨count,phase,all,eq⟩ | ⟨more,objects,stale,pending⟩
  · have fit : Fit adds cache (.advance add) ↔ (cache.stale add = true → Covered adds cache add) :=
      ⟨fun fit => fit count phase all,fun covered _ _ _ => covered⟩
    rw [fit,eq]
    refine ⟨fun after => after add (by simp [Cached,put_apply]),fun covered other cached stale => ?_⟩
    simp only [Cached,put_apply] at cached
    split at cached
    · cases cached
      exact covered stale
    · exact coherent other cached stale
  · rw [coherent_congr objects stale pending]
    exact iff_of_true coherent fun count phase none => absurd none (more count phase)

omit [DecidableEq ι] [DecidableEq Key] in
/-- A fired node leaves the cache coherent if a watch announces the change or the
objects that depend on it were about to be cleared anyway. -/
theorem fire_coherent_iff {cache : LocalCache ι Key Dep} (placed : Placed adds cache)
    (coherent : Coherent adds cache) (node : Dep) (type : EventType) :
    Coherent adds (fire adds cache node type) ↔ ∀ add, Cached adds cache add →
      node ∈ (adds add).dependencies →
        (0 < cache.watchers node ∧ type = .nodeDataChanged) ∨ Covered adds cache add := by
  have depends : ∀ add, Cached adds cache add → registered adds cache add = (adds add).dependencies := by
    intro add cached
    obtain ⟨_,count,phase⟩ := placed _ add cached
    simp only [registered,phase]
  have covered : ∀ add, Covered adds (fire adds cache node type) add ↔
      (0 < cache.watchers node ∧ type = .nodeDataChanged) ∧ node ∈ (adds add).dependencies ∨
        Covered adds cache add := by
    intro add
    simp only [Covered,fire,List.mem_append,List.mem_replicate,Prod.mk.injEq]
    constructor
    · intro waiting
      rcases waiting with ⟨other,dependency,⟨watched,rfl,rfl⟩ | earlier⟩
      · exact .inl ⟨⟨Nat.pos_of_ne_zero watched,rfl⟩,dependency⟩
      · exact .inr ⟨other,dependency,earlier⟩
    · intro waiting
      rcases waiting with ⟨⟨watched,rfl⟩,dependency⟩ | ⟨other,dependency,earlier⟩
      · exact ⟨node,dependency,.inl ⟨Nat.ne_of_gt watched,rfl,rfl⟩⟩
      · exact ⟨other,dependency,.inr earlier⟩
  constructor
  · intro after add cached dependency
    have stale : (fire adds cache node type).stale add = true := by
      simp [fire,depends add cached,dependency]
    rcases (covered add).mp (after add cached stale) with ⟨announced,_⟩ | before
    · exact .inl announced
    · exact .inr before
  · intro each add cached stale
    rw [covered]
    simp only [fire,depends add cached,Bool.or_eq_true,decide_eq_true_eq] at stale
    rcases stale with before | dependency
    · exact .inr (coherent add cached before)
    · rcases each add cached dependency with announced | before
      · exact .inl ⟨announced,dependency⟩
      · exact .inr before

theorem deliver_coherent_iff {cache : LocalCache ι Key Dep} (coherent : Coherent adds cache)
    (node : Dep) (type : EventType) :
    Coherent adds (step adds cache (.deliver node type)) ↔ Fit adds cache (.deliver node type) := by
  by_cases pending : (node,type) ∈ cache.pending
  · by_cases fired : type = .nodeDataChanged
    · subst fired
      simp only [step,if_pos pending,if_true]
      have same := clear_same {cache with
        pending := cache.pending.erase (node,EventType.nodeDataChanged)} node
      constructor
      · intro after _ add cached stale
        by_cases reached : ∃ keySet ∈ cache.dependecyMap node, (adds add).key ∈ keySet
        · exact .inl reached
        · right
          have still : Cached adds (clear {cache with
              pending := cache.pending.erase (node,EventType.nodeDataChanged)} node) add := by
            rw [Cached,clear_map,if_neg reached]
            exact cached
          have covered := after add still (by rw [same.2.1]; exact stale)
          rw [Covered,same.2.2] at covered
          exact covered
      · intro fit add cached stale
        rw [Cached,clear_map] at cached
        split at cached
        next => cases cached
        next missed =>
          rw [same.2.1] at stale
          rw [Covered,same.2.2]
          exact (fit rfl add cached stale).resolve_left missed
    · simp only [step,if_pos pending,if_neg fired]
      refine iff_of_true (fun add cached stale => ?_) fun same => absurd same fired
      obtain ⟨other,dependency,waiting⟩ := coherent add cached stale
      refine ⟨other,dependency,(List.mem_erase_of_ne fun same => ?_).mpr waiting⟩
      cases same
      exact fired rfl
  · simp only [step,if_neg pending]
    refine iff_of_true coherent fun _ add cached stale => .inr ?_
    rw [List.erase_of_not_mem pending]
    exact coherent add cached stale

theorem step_coherent_iff (cache : LocalCache ι Key Dep) (event : Event ι Key Dep)
    (held : Placed adds cache ∧ Coherent adds cache) :
    Coherent adds (step adds cache event) ↔ Fit adds cache event := by
  obtain ⟨placed,coherent⟩ := held
  cases event with
  | advance add => exact advance_coherent_iff coherent add
  | deliver node type => exact deliver_coherent_iff coherent node type
  | change node =>
    by_cases present : cache.nodes node = true
    · have fired := fire_coherent_iff placed coherent node .nodeDataChanged
      simp only [and_true] at fired
      simp only [step,Fit,present,if_true,true_implies]
      exact fired
    · simp only [step,Fit,if_neg present]
      exact iff_of_true coherent fun same => absurd same present
  | delete node =>
    by_cases present : cache.nodes node = true
    · have fired := fire_coherent_iff placed coherent node .nodeDeleted
      simp only [reduceCtorEq,and_false,false_or] at fired
      simp only [step,Fit,present,if_true,true_implies]
      exact fired
    · simp only [step,Fit,if_neg present]
      exact iff_of_true coherent fun same => absurd same present
  | expire kept =>
    simp only [step,Fit]
    split
    next delivered =>
      simp only [delivered,true_implies]
      exact Iff.rfl
    next undelivered => exact iff_of_true coherent fun delivered => absurd delivered undelivered
  | fail other =>
    apply iff_of_true ?_ trivial
    simp only [step]
    split <;> exact coherent
  | remove key =>
    refine iff_of_true (fun add cached stale => ?_) trivial
    simp only [Cached,step,delete_apply] at cached
    split at cached
    · cases cached
    · exact coherent add cached stale
  | create node => exact iff_of_true coherent trivial
  | disconnect => exact iff_of_true coherent trivial
  | connect => exact iff_of_true coherent trivial

omit [DecidableEq ι] [DecidableEq Key] [DecidableEq Dep] in
theorem fresh_of_coherent {cache : LocalCache ι Key Dep} (placed : Placed adds cache)
    (coherent : Coherent adds cache) : Fresh cache := by
  intro quiet key add found
  by_contra stale
  unfold getObject at found
  split at found
  · obtain ⟨stands,_⟩ := placed key add found
    obtain ⟨_,_,waiting⟩ := coherent add (by rw [Cached,stands]; exact found) (by simpa using stale)
    simp [quiet] at waiting
  · cases found

/-- In every run of fit steps the cache never returns a stale object while no event
is pending. -/
theorem run_fresh (nodes : Dep → Bool) (events : List (Event ι Key Dep))
    (fit : Along (step adds) (Fit adds) {nodes := nodes} events) :
    ∀ before, before <+: events → Fresh (final (step adds) {nodes := nodes} before) := by
  intro before isPrefix
  obtain ⟨rest,eq⟩ := isPrefix
  rw [← eq,along_append] at fit
  have initial : Placed adds ({nodes := nodes} : LocalCache ι Key Dep) ∧
      Coherent adds ({nodes := nodes} : LocalCache ι Key Dep) :=
    ⟨fun _ _ found => (nomatch found),fun _ cached => (nomatch cached)⟩
  have held := final_invariant
    (fun cache event (held : Placed adds cache ∧ Coherent adds cache) fit =>
      ⟨placed_step cache event held.1,(step_coherent_iff cache event held).mpr fit⟩)
    _ before initial fit.1
  exact fresh_of_coherent held.1 held.2

def priceOf (_ : Unit) : AddCall String String := ⟨"price",["product"]⟩

theorem run_fresh_price : Fresh (final (step priceOf) {nodes := fun _ => true}
    [.advance (),.advance (),.advance (),.change "product",.deliver "product" .nodeDataChanged]) := by
  apply run_fresh _ _ ?_ _ (List.prefix_refl _)
  refine ⟨?_,?_,?_,?_,?_,trivial⟩
  · exact fun _ _ _ stale => absurd stale (by decide)
  · exact fun _ _ _ stale => absurd stale (by decide)
  · exact fun _ _ _ stale => absurd stale (by decide)
  · exact fun _ _ _ _ => .inl (by decide)
  · exact fun _ _ _ _ => .inl ⟨["price"],rfl,List.mem_singleton.mpr rfl⟩

theorem early_change_missed : ¬ Fresh (final (step priceOf) {nodes := fun _ => true}
    [.advance (),.change "product",.deliver "product" .nodeDataChanged,.advance (),.advance ()]) := by
  intro fresh
  exact absurd (fresh (by decide) "price" () (by decide)) (by decide)

end LocalCache
end YzFramework.Cache

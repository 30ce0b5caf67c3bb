import YzFramework.Config.PropertyRegistry

/-! The handlers of `PropertyRegistry` request by request: other clients may change the
tree between two reads of one handler. -/
namespace YzFramework.Config.PropertyRegistry
open Library Library.Run

/-- A call of the client; the watcher is registered when the server answers. -/
inductive Request
  | getChildren (path : NodePath)
  | getData (path : NodePath)

/-- What is being handled, none at a first start or a reconnect, with the requests still to
be made and the properties read so far. -/
structure Handler where
  notice : Option (EventType × NodePath)
  requests : List Request
  properties : List (String × Property) := []

/-- The registry with what its event thread is at. -/
structure Reader where
  registry : PropertyRegistry
  handler : Option Handler := none

def requestsOf : Option (EventType × NodePath) → List Request
  | some (.nodeDataChanged,path) => [.getData path]
  | some (.nodeChildrenChanged,path) => [.getChildren path]
  | some (.nodeDeleted,_) => []
  | none => [.getChildren []]

/-- The answer, the requests that follow at once in `loadPropertiesForPath`, and what is put
into its map. No session and no node make the call throw. -/
def Request.send (registry : PropertyRegistry) :
    Request → Option (PropertyRegistry × List Request × List (String × Property))
  | .getChildren path =>
    if registry.expired = true ∨ path ∉ registry.tree.nodes then none
    else
      let subPaths := registry.tree.children path
      some ({registry with
          childWatches := Function.update registry.childWatches path (registry.childWatches path+1)},
        if subPaths = [] then [.getData path] else subPaths.map fun subPath => .getChildren (subPath::path),[])
  | .getData path =>
    if registry.expired = true ∨ path ∉ registry.tree.nodes then none
    else
      some ({registry with
          dataWatches := Function.update registry.dataWatches path (registry.dataWatches path+1)},
        [],[(nameOf path,⟨valueOf registry.tree path,true⟩)])

/-- All has been read. -/
def Handler.finish (registry : PropertyRegistry) (handler : Handler) : PropertyRegistry :=
  match handler.notice with
  | some (.nodeChildrenChanged,path) => {registry with
      ALL_PROPERTIES := Table.putAll
        (deleteChildProperties (nameOf path) registry.ALL_PROPERTIES) handler.properties}
  | some (.nodeDeleted,path) => deletePropertiesForPath registry path
  | some (.nodeDataChanged,_) | none =>
    {registry with ALL_PROPERTIES := Table.putAll registry.ALL_PROPERTIES handler.properties}

/-- A read has thrown: only the first load and the reconnect keep what was read before. -/
def Handler.abort (registry : PropertyRegistry) (handler : Handler) : PropertyRegistry :=
  match handler.notice with
  | some _ => registry
  | none => {registry with ALL_PROPERTIES := Table.putAll registry.ALL_PROPERTIES handler.properties}

/-- The event thread takes the next notice, makes one request, or finishes. -/
def advance (reader : Reader) : Reader :=
  let registry := reader.registry
  match reader.handler with
  | none =>
    match registry.pending with
    | notice::rest => ⟨{registry with pending := rest},some ⟨some notice,requestsOf (some notice),[]⟩⟩
    | [] =>
      if registry.expired then ⟨{registry with expired := false},some ⟨none,requestsOf none,[]⟩⟩
      else reader
  | some handler =>
    match handler.requests with
    | [] => ⟨handler.finish registry,none⟩
    | request::rest =>
      match request.send registry with
      | none => ⟨handler.abort registry,none⟩
      | some (registry,more,found) => ⟨registry,some {handler with
          requests := more++rest
          properties := handler.properties++found}⟩

/-- Of the events of a registry, `deliver` is one step of the event thread. -/
def readerStep (reader : Reader) : Event → Reader
  | .deliver => advance reader
  | event => {reader with registry := step reader.registry event}

/-- A notice under way is still pending. -/
def AtRest (reader : Reader) : Prop := reader.handler = none ∧ Quiet reader.registry

/-- No mutation and no expiry comes between the reads of one handler. -/
def FitRead (reader : Reader) : Event → Prop
  | .deliver => reader.handler = none → Fit reader.registry .deliver
  | event => reader.handler = none ∧ Fit reader.registry event

/-- Left alone, the event thread ends what it is at with this registry. -/
inductive Settles : Reader → PropertyRegistry → Prop
  | done (registry : PropertyRegistry) : Settles ⟨registry,none⟩ registry
  | next {registry target : PropertyRegistry} {handler : Handler}
      (later : Settles (advance ⟨registry,some handler⟩) target) : Settles ⟨registry,some handler⟩ target

def leavesOf (tree : ConfigTree) (nodes : List NodePath) : List NodePath := nodes.filter fun node => tree.Leaf node

/-- The registry after these nodes have been read. -/
def readNodes (registry : PropertyRegistry) (nodes : List NodePath) : PropertyRegistry :=
  {registry with
    dataWatches := fun node => registry.dataWatches node+(leavesOf registry.tree nodes).count node
    childWatches := fun node => registry.childWatches node+nodes.count node}

def readProperties (tree : ConfigTree) (nodes : List NodePath) : List (String × Property) :=
  (leavesOf tree nodes).map fun node => (nameOf node,⟨valueOf tree node,true⟩)

theorem leavesOf_append (tree : ConfigTree) (first second : List NodePath) :
    leavesOf tree (first++second) = leavesOf tree first++leavesOf tree second := List.filter_append ..

theorem readNodes_append (registry : PropertyRegistry) (first second : List NodePath) :
    readNodes (readNodes registry first) second = readNodes registry (first++second) := by
  simp only [readNodes,leavesOf_append,List.count_append,Nat.add_assoc]

theorem readNodes_nil (registry : PropertyRegistry) : readNodes registry [] = registry := rfl

theorem readProperties_append (tree : ConfigTree) (first second : List NodePath) :
    readProperties tree (first++second) = readProperties tree first++readProperties tree second := by
  simp only [readProperties,leavesOf_append,List.map_append]

theorem update_count (watches : NodePath → ℕ) (path : NodePath) :
    Function.update watches path (watches path+1) = fun node => watches node+[path].count node := by
  funext node
  by_cases here : node = path
  · simp [here]
  · simp [Function.update_of_ne here,Ne.symm here]

theorem advance_send {registry : PropertyRegistry} {notice : Option (EventType × NodePath)}
    {request : Request} {rest more : List Request} {properties found : List (String × Property)}
    {after : PropertyRegistry} (sent : request.send registry = some (after,more,found)) :
    advance ⟨registry,some ⟨notice,request::rest,properties⟩⟩ =
      ⟨after,some ⟨notice,more++rest,properties++found⟩⟩ := by
  simp only [advance,sent]

section Answered
variable {registry : PropertyRegistry} {path : NodePath} (alive : registry.expired = false)
  (present : path ∈ registry.tree.nodes)
include alive present

private theorem refused_not : ¬ (registry.expired = true ∨ path ∉ registry.tree.nodes) := by
  simp [alive,present]

theorem send_getChildren : Request.send registry (.getChildren path) =
    some ({registry with childWatches := fun node => registry.childWatches node+[path].count node},
      if registry.tree.children path = [] then [.getData path]
      else (registry.tree.children path).map fun subPath => .getChildren (subPath::path),[]) := by
  rw [Request.send,if_neg (refused_not alive present),update_count]

theorem send_getData : Request.send registry (.getData path) =
    some ({registry with dataWatches := fun node => registry.dataWatches node+[path].count node},
      [],[(nameOf path,⟨valueOf registry.tree path,true⟩)]) := by
  rw [Request.send,if_neg (refused_not alive present),update_count]

/-- A node without children is read twice, one with children once. -/
theorem settles_node {target : PropertyRegistry} {notice : Option (EventType × NodePath)}
    {rest : List Request} {properties : List (String × Property)}
    (later : Settles ⟨readNodes registry [path],some ⟨notice,
      ((registry.tree.children path).map fun name => .getChildren (name::path))++rest,
      properties++readProperties registry.tree [path]⟩⟩ target) :
    Settles ⟨registry,some ⟨notice,.getChildren path::rest,properties⟩⟩ target := by
  refine .next ?_
  rw [advance_send (send_getChildren alive present)]
  by_cases childless : registry.tree.children path = []
  · have own : leavesOf registry.tree [path] = [path] := by
      have leaf : registry.tree.Leaf path := ⟨present,childless⟩
      simp [leavesOf,leaf]
    rw [if_pos childless]
    refine .next ?_
    rw [List.singleton_append,advance_send (send_getData (by exact alive) (by exact present)),List.append_nil]
    rw [readNodes,readProperties,own,childless] at later
    exact later
  · have none : leavesOf registry.tree [path] = [] := by
      have inner : ¬ registry.tree.Leaf path := fun leaf => childless leaf.2
      simp [leavesOf,inner]
    rw [if_neg childless]
    rw [readNodes,readProperties,none] at later
    exact later

end Answered

/-- Requests for children, all of which are read from here on, one after the other. -/
theorem settles_children {registry target : PropertyRegistry} (alive : registry.expired = false)
    (notice : Option (EventType × NodePath)) (fuel : ℕ) (path : NodePath) (rest : List Request)
    (properties : List (String × Property)) (present : path ∈ registry.tree.nodes)
    (enough : registry.tree.height ≤ path.length+fuel)
    (later : Settles ⟨readNodes registry (registry.tree.visit fuel path),some ⟨notice,rest,
      properties++readProperties registry.tree (registry.tree.visit fuel path)⟩⟩ target) :
    Settles ⟨registry,some ⟨notice,.getChildren path::rest,properties⟩⟩ target := by
  induction fuel generalizing registry path rest properties with
  | zero =>
    have short := registry.tree.length_lt_height path present
    omega
  | succ fuel ih =>
    have each : ∀ names : List String, (∀ name ∈ names, name::path ∈ registry.tree.nodes) →
        ∀ before properties, before.tree = registry.tree → before.expired = false →
          Settles ⟨readNodes before (names.flatMap fun name => registry.tree.visit fuel (name::path)),
              some ⟨notice,rest,properties++readProperties registry.tree
                (names.flatMap fun name => registry.tree.visit fuel (name::path))⟩⟩ target →
          Settles ⟨before,some ⟨notice,
            (names.map fun name => .getChildren (name::path))++rest,properties⟩⟩ target := by
      intro names
      induction names with
      | nil =>
        intro _ before properties _ _ later
        simpa [readNodes_nil,readProperties,leavesOf] using later
      | cons name names others =>
        intro inside before properties same alive later
        refine ih alive (name::path) _ properties (by rw [same]; exact inside name List.mem_cons_self) ?_ ?_
        · rw [same,List.length_cons]
          omega
        · refine others (fun other member => inside other (List.mem_cons_of_mem name member)) _ _ same alive ?_
          rw [readNodes_append,same,List.append_assoc,← readProperties_append]
          exact later
    have inside : ∀ name ∈ registry.tree.children path, name::path ∈ registry.tree.nodes :=
      fun name => (registry.tree.mem_children path name).mp
    refine settles_node alive present (each _ inside _ _ rfl alive ?_)
    rw [readNodes_append,List.append_assoc,← readProperties_append]
    exact later

theorem advance_thrown {registry : PropertyRegistry} {notice : Option (EventType × NodePath)} {request : Request}
    {rest : List Request} {properties : List (String × Property)} (thrown : request.send registry = none) :
    advance ⟨registry,some ⟨notice,request::rest,properties⟩⟩ =
      ⟨Handler.abort registry ⟨notice,request::rest,properties⟩,none⟩ := by
  simp only [advance,thrown]

theorem settles_finish (registry : PropertyRegistry) (notice : Option (EventType × NodePath))
    (properties : List (String × Property)) :
    Settles ⟨registry,some ⟨notice,[],properties⟩⟩ (Handler.finish registry ⟨notice,[],properties⟩) :=
  .next (.done _)

/-- A whole load from a node on. -/
theorem settles_load {registry : PropertyRegistry} (alive : registry.expired = false) {path : NodePath}
    (present : path ∈ registry.tree.nodes) (notice : Option (EventType × NodePath)) :
    Settles ⟨registry,some ⟨notice,[.getChildren path],[]⟩⟩
      (Handler.finish (watched registry path) ⟨notice,[],loaded registry.tree path⟩) :=
  settles_children alive notice registry.tree.height path [] [] present (Nat.le_add_left _ _)
    (settles_finish _ notice _)

theorem send_refused {registry : PropertyRegistry} {path : NodePath}
    (refused : registry.expired = true ∨ path ∉ registry.tree.nodes) :
    Request.send registry (.getChildren path) = none ∧ Request.send registry (.getData path) = none :=
  ⟨if_pos refused,if_pos refused⟩

private theorem reload_refused {registry after : PropertyRegistry} {path : NodePath}
    (refused : registry.expired = true ∨ path ∉ registry.tree.nodes) :
    (if registry.expired then registry
      else if path ∈ registry.tree.nodes then after else registry) = registry := by
  rcases refused with expired | absent
  · rw [if_pos expired]
  · rw [if_neg absent,ite_self]

/-- Undisturbed, the handler of a notice does what its method does at once. -/
theorem settles_process (registry : PropertyRegistry) (type : EventType) (path : NodePath) :
    Settles ⟨registry,some ⟨some (type,path),requestsOf (some (type,path)),[]⟩⟩ (process registry type path) := by
  cases type with
  | nodeDeleted => exact settles_finish registry _ []
  | nodeChildrenChanged =>
    rw [process,reloadChildPropertiesForPath]
    by_cases refused : registry.expired = true ∨ path ∉ registry.tree.nodes
    · rw [reload_refused refused]
      refine .next ?_
      rw [requestsOf,advance_thrown (send_refused refused).1]
      exact .done registry
    · rw [not_or,Bool.not_eq_true,not_not] at refused
      rw [if_neg (by simp [refused.1]),if_pos refused.2]
      exact settles_load refused.1 refused.2 _
  | nodeDataChanged =>
    rw [process,reloadPropertyForPath]
    by_cases refused : registry.expired = true ∨ path ∉ registry.tree.nodes
    · rw [reload_refused refused]
      refine .next ?_
      rw [requestsOf,advance_thrown (send_refused refused).2]
      exact .done registry
    · rw [not_or,Bool.not_eq_true,not_not] at refused
      rw [if_neg (by simp [refused.1]),if_pos refused.2]
      refine .next ?_
      rw [requestsOf,advance_send (send_getData refused.1 refused.2),← update_count]
      exact settles_finish _ _ _

private theorem settles_start (registry : PropertyRegistry) :
    Settles ⟨{registry with expired := false},some ⟨none,requestsOf none,[]⟩⟩
      (startLoadPropertiesFromZK registry) := by
  rw [startLoadPropertiesFromZK]
  split_ifs with rooted
  · have alive : ({registry with expired := false} : PropertyRegistry).expired = false := rfl
    exact settles_load alive rooted none
  · refine .next ?_
    rw [requestsOf,advance_thrown (send_refused (.inr (by exact rooted))).1]
    exact .done _

private theorem settles_deliver (registry : PropertyRegistry) :
    Settles (advance ⟨registry,none⟩) (deliver registry) := by
  obtain ⟨tree,dataWatches,childWatches,pending,expired,properties⟩ := registry
  cases pending with
  | cons notice rest => exact settles_process _ notice.1 notice.2
  | nil =>
    cases expired with
    | true => exact settles_start _
    | false => exact .done _

/-- What the event thread is at will leave a mirrored registry. -/
def Settling (reader : Reader) : Prop := ∃ registry, Settles reader registry ∧ Mirrored registry

theorem settling_idle {reader : Reader} (idle : reader.handler = none) :
    Settling reader ↔ Mirrored reader.registry := by
  obtain ⟨registry,handler⟩ := reader
  obtain rfl : handler = none := idle
  constructor
  · rintro ⟨target,settles,mirrored⟩
    cases settles
    exact mirrored
  · exact fun mirrored => ⟨registry,.done registry,mirrored⟩

theorem readerStep_settling (reader : Reader) (event : Event) (settling : Settling reader)
    (fit : FitRead reader event) : Settling (readerStep reader event) := by
  have mutated : reader.handler = none ∧ Fit reader.registry event →
      Settling {reader with registry := step reader.registry event} := by
    rintro ⟨idle,fit⟩
    have mirrored := step_mirrored _ _ ((settling_idle idle).mp settling) fit
    exact ⟨_,idle ▸ .done _,mirrored⟩
  cases event with
  | deliver =>
    obtain ⟨registry,handler⟩ := reader
    cases handler with
    | none =>
      have mirrored := (settling_idle rfl).mp settling
      exact ⟨deliver registry,settles_deliver registry,step_mirrored registry .deliver mirrored (fit rfl)⟩
    | some handler =>
      obtain ⟨target,settles,mirrored⟩ := settling
      cases settles with
      | next later => exact ⟨target,later,mirrored⟩
  | create name parent data => exact mutated fit
  | setData path data => exact mutated fit
  | delete name parent => exact mutated fit
  | expire kept => exact mutated fit

/-- In a run of fitting steps, each state without a pending notice has exactly the
leaves' values in the map. -/
theorem run_converged (tree : ConfigTree) (properties : List (String × String))
    (events : List Event) (fit : Along readerStep FitRead ⟨initial tree properties,none⟩ events)
    (before : List Event) (reached : before <+: events)
    (rest : AtRest (final readerStep ⟨initial tree properties,none⟩ before)) :
    Converged (final readerStep ⟨initial tree properties,none⟩ before).registry := by
  obtain ⟨after,rfl⟩ := reached
  have fitting := ((along_append readerStep FitRead _ before after).mp fit).1
  have start : Settling ⟨initial tree properties,none⟩ :=
    (settling_idle rfl).mpr (initial_mirrored tree properties)
  have settled := final_invariant readerStep_settling _ before start fitting
  exact mirrored_converged _ ((settling_idle rest.1).mp settled) rest.2

def configured : ConfigTree := (NodeTree.empty.put [] none trivial).put ["db"] (some "1") (by decide)

/-- A handler that reads three times takes these steps. -/
def handled : List Event := List.replicate 5 .deliver

theorem run_converged_configured :
    Converged (final readerStep ⟨initial configured [],none⟩ handled).registry := by
  have only : ∀ leaf ∈ configured.nodes.keys, configured.Leaf leaf → leaf = ["db"] := by decide
  have fit : Along readerStep FitRead ⟨initial configured [],none⟩ handled := by
    refine ⟨fun _ _ leaf other isLeaf otherLeaf _ => ?_,nofun,nofun,nofun,nofun,trivial⟩
    rw [only leaf isLeaf.1 isLeaf,only other otherLeaf.1 otherLeaf]
  exact run_converged configured [] handled fit handled List.prefix_rfl ⟨rfl,rfl,rfl⟩

theorem parent_keeps_key :
    ¬ ∀ before, before <+: handled++.create "url" ["db"] (some "2")::handled →
      AtRest (final readerStep ⟨initial configured [],none⟩ before) →
      Converged (final readerStep ⟨initial configured [],none⟩ before).registry := by
  intro converges
  have stale := (converges (handled++.create "url" ["db"] (some "2")::handled) List.prefix_rfl
    ⟨by decide +kernel,by decide +kernel,by decide +kernel⟩ "db" "1").mp (by decide +kernel)
  obtain ⟨path,leaf,named,_⟩ := stale
  have apart : ∀ path ∈ (final readerStep ⟨initial configured [],none⟩
      (handled++.create "url" ["db"] (some "2")::handled)).registry.tree.nodes.keys,
      (final readerStep ⟨initial configured [],none⟩
        (handled++.create "url" ["db"] (some "2")::handled)).registry.tree.Leaf path → nameOf path ≠ "db" := by
    decide +kernel
  exact apart path leaf.1 leaf named

end YzFramework.Config.PropertyRegistry

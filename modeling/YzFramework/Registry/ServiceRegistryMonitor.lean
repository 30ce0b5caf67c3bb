import YzFramework.Library.NodeTree
import YzFramework.Library.Run

/-! `ServiceRegistryMonitor`: context events, and the nodes of the services under the
chroot, whose data says whether the service runs. ZooKeeper is connected; every
refresh opens a client of its own. -/
namespace YzFramework.Registry
open Library Library.Run

/-- A service's path with the method's name first. -/
abbrev Service := List String

structure Znode where
  data : Option String
  ephemeral : Bool := false
deriving DecidableEq

abbrev Nodes := NodeTree String Znode

def Nodes.dataAt (tree : Nodes) (path : Service) : Option (Option String) := (tree.data path).map Znode.data

/-- The node above is there and may have children. -/
def Parented (tree : Nodes) : Service → Prop
  | [] => True
  | _::parent => ∃ above, tree.data parent = some above ∧ above.ephemeral = false

/-- The field `zk` and whether its session is open, and the field `isSysToServer`. -/
structure ServiceRegistryMonitor where
  zk : Option Bool := none
  isSysToServer : Bool := false

/-- One deployment: the tree outlives the process with its monitor. -/
structure Deployment where
  tree : Nodes
  monitor : ServiceRegistryMonitor := {}

inductive ContextEvent
  | refreshed
  | stopped
  | restarted

/-- The two-argument `ZK.createParentNodeIfExists`, which is a plain `create` of a lasting
node; below an ephemeral one the server refuses it. -/
def createParentNodeIfExists (tree : Nodes) (path : Service) (data : String) : Option Nodes :=
  match path with
  | [] => tree.create path {data := some data}
  | _::parent =>
    if (tree.data parent).any Znode.ephemeral then none else tree.create path {data := some data}

def setData (tree : Nodes) (path : Service) (data : String) : Option Nodes :=
  (tree.data path).bind fun node => tree.setData path {node with data := some data}

-- `valid` is ZooKeeper's check of a path, made before a request is sent
variable (valid : Service → Bool) (services : List Service)

/-- The loop of `synToRegistry`: the tree it leaves, and whether it ran to its end. -/
def synServices : List Service → Nodes → Nodes × Bool
  | [],tree => (tree,true)
  | service::rest,tree =>
    if valid service then
      if service ∈ tree.nodes then synServices rest tree
      else
        match createParentNodeIfExists tree service "1" with
        | some tree => synServices rest tree
        | none => (tree,false)
    else (tree,false)

def synToRegistry (deployment : Deployment) : Deployment :=
  if deployment.monitor.isSysToServer then deployment
  else
    let (tree,done) := synServices valid services deployment.tree
    {tree,monitor := {deployment.monitor with isSysToServer := done}}

def start (deployment : Deployment) : Deployment :=
  synToRegistry valid services
    {deployment with monitor := {deployment.monitor with zk := some true}}

/-- The loop of `notifyRegistryServiceStop`, which an exception ends. -/
def stopServices : List Service → Nodes → Nodes
  | [],tree => tree
  | service::rest,tree =>
    if valid service then
      match setData tree service "0" with
      | some tree => stopServices rest tree
      | none => tree
    else tree

/-- On a closed client every request throws, and closing it again does nothing. -/
def stop (deployment : Deployment) : Deployment :=
  match deployment.monitor.zk with
  | none => deployment
  | some false => deployment
  | some true =>
    {tree := stopServices valid services deployment.tree
     monitor := {deployment.monitor with zk := some false}}

def onApplicationEvent (deployment : Deployment) : ContextEvent → Deployment
  | .refreshed => start valid services deployment
  | .stopped => stop valid services deployment
  | .restarted => {deployment with monitor := {}}

def AllHold (tree : Nodes) (data : String) : Prop :=
  ∀ service ∈ services, tree.dataAt service = some (some data)

/-- What the services' nodes hold after the event. -/
def Announced (deployment : Deployment) (event : ContextEvent) : Prop :=
  match event with
  | .refreshed => AllHold services (onApplicationEvent valid services deployment event).tree "1"
  | .stopped => AllHold services (onApplicationEvent valid services deployment event).tree "0"
  | .restarted => True

/-- Each service, in order, has its node at "1" already, or has none while the parent is
there and not ephemeral, or is created before it. -/
def Registrable (tree : Nodes) : List Service → List Service → Prop
  | _,[] => True
  | earlier,service::rest =>
    (tree.dataAt service = some (some "1") ∨ service ∈ earlier ∨
      valid service = true ∧ service ∉ tree.nodes ∧
        (Parented tree service ∨ service.tail ∈ earlier ∧ service.tail ∉ tree.nodes)) ∧
    Registrable tree (service::earlier) rest

/-- A refresh finds the services unregistered but registrable, or registered and
untouched since; a stop finds all their nodes while its client is open. -/
def Fit (deployment : Deployment) : ContextEvent → Prop
  | .refreshed =>
    if deployment.monitor.isSysToServer then AllHold services deployment.tree "1"
    else Registrable valid deployment.tree [] services
  | .stopped =>
    if deployment.monitor.zk = some true then
      ∀ service ∈ services, service ∈ deployment.tree.nodes
    else AllHold services deployment.tree "0"
  | .restarted => True

def Legal (tree : Nodes) : Prop := ∀ path ∈ tree.nodes, valid path = true

private theorem mem_of_dataAt {tree : Nodes} {path : Service} {data : Option String}
    (found : tree.dataAt path = some data) : path ∈ tree.nodes := by
  obtain ⟨node,held,_⟩ := Option.map_eq_some_iff.mp found
  exact NodeTree.mem_of_data held

theorem dataAt_congr {tree other : Nodes} {path : Service} (same : tree.data path = other.data path) :
    tree.dataAt path = other.dataAt path := congrArg (Option.map Znode.data) same

private theorem created_some {tree after : Nodes} {path : Service} {data : String}
    (created : createParentNodeIfExists tree path data = some after) :
    tree.create path {data := some data} = some after := by
  cases path with
  | nil => exact created
  | cons name parent =>
    rw [createParentNodeIfExists] at created
    split at created
    · cases created
    · exact created

private theorem created_data {tree after : Nodes} {path : Service}
    (created : createParentNodeIfExists tree path "1" = some after) (other : Service) :
    after.data other = if other = path then some {data := some "1"} else tree.data other := by
  obtain ⟨_,seated,rfl⟩ := NodeTree.create_some (created_some created)
  exact tree.data_put path other _ seated

theorem createParentNodeIfExists_isSome (tree : Nodes) (path : Service) (absent : path ∉ tree.nodes) :
    (∃ after, createParentNodeIfExists tree path "1" = some after) ↔ Parented tree path := by
  cases path with
  | nil =>
    have seated : tree.Seated [] := trivial
    simp [createParentNodeIfExists,NodeTree.create,absent,seated,Parented]
  | cons name parent =>
    rw [createParentNodeIfExists,Parented]
    cases above : tree.data parent with
    | none =>
      have unseated : ¬ tree.Seated (name::parent) := (tree.data_eq_none parent).mp above
      simp [NodeTree.create,absent,unseated]
    | some node =>
      have seated : tree.Seated (name::parent) := NodeTree.mem_of_data above
      cases kind : node.ephemeral <;> simp [NodeTree.create,absent,seated,kind]

theorem synServices_keeps (tree : Nodes) (path : Service) (node : Znode)
    (found : tree.data path = some node) :
    (synServices valid services tree).1.data path = some node := by
  induction services generalizing tree with
  | nil => exact found
  | cons service rest ih =>
    simp only [synServices]
    split
    · split
      · exact ih tree found
      next absent =>
        split
        next after created =>
          apply ih after
          rw [created_data created,if_neg,found]
          exact fun same => absent (same ▸ NodeTree.mem_of_data found)
        · exact found
    · exact found

private theorem created_legal {tree after : Nodes} {path : Service} (legal : Legal valid tree)
    (accepted : valid path = true) (created : createParentNodeIfExists tree path "1" = some after) :
    Legal valid after := by
  intro other member
  obtain ⟨_,seated,rfl⟩ := NodeTree.create_some (created_some created)
  rcases (tree.mem_put _ _ _ seated).mp member with rfl | before
  · exact accepted
  · exact legal other before

theorem synServices_legal (tree : Nodes) (legal : Legal valid tree) :
    Legal valid (synServices valid services tree).1 := by
  induction services generalizing tree with
  | nil => exact legal
  | cons service rest ih =>
    simp only [synServices]
    split
    next accepted =>
      split
      · exact ih tree legal
      · split
        next after created => exact ih after (created_legal valid legal accepted created)
        · exact legal
    · exact legal

/-- The service has its node at "1", or the loop can create the node now. -/
def Ready (tree : Nodes) (service : Service) : Prop :=
  tree.dataAt service = some (some "1") ∨
    valid service = true ∧ service ∉ tree.nodes ∧ Parented tree service

theorem synServices_ready {tree : Nodes} {service : Service} (rest : List Service)
    (legal : Legal valid tree) (ready : Ready valid tree service) :
    ∃ after : Nodes, synServices valid (service::rest) tree = synServices valid rest after ∧
      Legal valid after ∧ ∀ path, after.data path =
        if path = service ∧ service ∉ tree.nodes then some {data := some "1"} else tree.data path := by
  rcases ready with announced | ⟨accepted,absent,parented⟩
  · have member := mem_of_dataAt announced
    refine ⟨tree,?_,legal,fun path => ?_⟩
    · rw [synServices,if_pos (legal service member),if_pos member]
    · rw [if_neg fun both => both.2 member]
  · obtain ⟨after,created⟩ := (createParentNodeIfExists_isSome tree service absent).mpr parented
    refine ⟨after,?_,created_legal valid legal accepted created,fun path => ?_⟩
    · rw [synServices,if_pos accepted,if_neg absent,created]
    · simp only [created_data created path,absent,not_false_eq_true,and_true]

theorem synServices_unready {tree : Nodes} {service : Service} (rest : List Service)
    (unready : ¬ Ready valid tree service) :
    (synServices valid (service::rest) tree).1.dataAt service ≠ some (some "1") := by
  have unannounced : tree.dataAt service ≠ some (some "1") := fun here => unready (.inl here)
  rw [synServices]
  split
  next accepted =>
    split
    next member =>
      obtain ⟨node,found⟩ := NodeTree.data_of_mem member
      have kept := synServices_keeps valid rest tree service node found
      rwa [dataAt_congr (kept.trans found.symm)]
    next missing =>
      split
      next after created =>
        have parented := (createParentNodeIfExists_isSome tree service missing).mp ⟨after,created⟩
        exact absurd (.inr ⟨accepted,missing,parented⟩) unready
      next => exact unannounced
  next => exact unannounced

/-- The loop comes from the tree of the start to this one: the earlier services that were
not there are lasting nodes at "1" now, those that were there had "1". -/
structure Reached (start : Nodes) (earlier : List Service) (tree : Nodes) : Prop where
  nodes : ∀ path, tree.data path =
    if path ∈ earlier ∧ path ∉ start.nodes then some {data := some "1"} else start.data path
  announced : ∀ path ∈ earlier, tree.dataAt path = some (some "1")

section Reached
variable {start tree : Nodes} {earlier : List Service} (reached : Reached start earlier tree)
include reached

theorem Reached.mem (path : Service) : path ∈ tree.nodes ↔ path ∈ earlier ∨ path ∈ start.nodes := by
  by_cases new : path ∈ earlier ∧ path ∉ start.nodes
  · have held := reached.nodes path
    rw [if_pos new] at held
    exact iff_of_true (NodeTree.mem_of_data held) (.inl new.1)
  · have held := reached.nodes path
    rw [if_neg new] at held
    rw [NodeTree.mem_congr held]
    exact ⟨.inr,fun either => either.elim (fun inside => not_not.mp fun out => new ⟨inside,out⟩) id⟩

theorem Reached.next {after : Nodes} {service : Service} (ready : Ready valid tree service)
    (next : ∀ path, after.data path =
      if path = service ∧ service ∉ tree.nodes then some {data := some "1"} else tree.data path) :
    Reached start (service::earlier) after := by
  have done : after.dataAt service = some (some "1") := by
    by_cases present : service ∈ tree.nodes
    · have same : after.data service = tree.data service := by
        rw [next,if_neg fun both => both.2 present]
      rw [dataAt_congr same]
      exact ready.resolve_right fun fresh => fresh.2.1 present
    · rw [Nodes.dataAt,next,if_pos ⟨rfl,present⟩]
      rfl
  constructor
  · intro path
    have here := reached.mem service
    by_cases same : path = service
    · subst same
      rw [next,reached.nodes path]
      by_cases before : path ∈ earlier <;> by_cases old : path ∈ start.nodes <;> simp [here,before,old]
    · rw [next,reached.nodes path]
      simp [same]
  · intro path inside
    by_cases same : path = service
    · exact same ▸ done
    · have before := reached.announced path ((List.mem_cons.mp inside).resolve_left same)
      rwa [dataAt_congr ((next path).trans (if_neg fun both => same both.1))]

theorem Reached.parented {service : Service} : Parented tree service ↔
    Parented start service ∨ service.tail ∈ earlier ∧ service.tail ∉ start.nodes := by
  cases service with
  | nil => simp [Parented]
  | cons name parent =>
    rw [Parented,Parented,List.tail_cons,reached.nodes parent]
    by_cases new : parent ∈ earlier ∧ parent ∉ start.nodes
    · rw [if_pos new]
      exact iff_of_true ⟨_,rfl,rfl⟩ (.inr new)
    · rw [if_neg new,or_iff_left new]

theorem Reached.ready (service : Service) : Ready valid tree service ↔
    (start.dataAt service = some (some "1") ∨ service ∈ earlier ∨
      valid service = true ∧ service ∉ start.nodes ∧
        (Parented start service ∨ service.tail ∈ earlier ∧ service.tail ∉ start.nodes)) := by
  by_cases before : service ∈ earlier
  · exact iff_of_true (.inl (reached.announced service before)) (.inr (.inl before))
  · have same : tree.data service = start.data service := by
      rw [reached.nodes service,if_neg fun both => before both.1]
    rw [Ready,reached.parented,dataAt_congr same,NodeTree.mem_congr same]
    simp [before]

end Reached

theorem synServices_registrable (start tree : Nodes) (earlier : List Service)
    (legal : Legal valid tree) (reached : Reached start earlier tree) :
    AllHold services (synServices valid services tree).1 "1" ↔
      Registrable valid start earlier services := by
  induction services generalizing tree earlier with
  | nil => simp [AllHold,Registrable]
  | cons service rest ih =>
    rw [AllHold,List.forall_mem_cons,Registrable,← reached.ready valid service]
    by_cases ready : Ready valid tree service
    · obtain ⟨after,steps,lawful,next⟩ := synServices_ready valid rest legal ready
      have further := reached.next valid ready next
      have done := further.announced service List.mem_cons_self
      obtain ⟨node,found,announced⟩ := Option.map_eq_some_iff.mp done
      have kept := synServices_keeps valid rest after service node found
      rw [steps]
      refine and_congr ?_ (ih after (service::earlier) lawful further)
      exact iff_of_true ((dataAt_congr (kept.trans found.symm)).trans done) ready
    · have missed := synServices_unready valid rest ready
      exact iff_of_false (fun held => missed held.1) fun held => ready held.1

theorem setData_some {tree after : Nodes} {path : Service} {data : String}
    (written : setData tree path data = some after) :
    (∀ other, other ∈ after.nodes ↔ other ∈ tree.nodes) ∧
      ∀ other, after.dataAt other = if other = path then some (some data) else tree.dataAt other := by
  obtain ⟨node,found,put⟩ := Option.bind_eq_some_iff.mp written
  obtain ⟨member,seated,rfl⟩ := NodeTree.setData_some put
  refine ⟨fun other => ?_,fun other => ?_⟩
  · rw [NodeTree.mem_put]
    exact ⟨fun either => either.elim (fun same => same ▸ member) id,.inr⟩
  · rw [Nodes.dataAt,NodeTree.data_put]
    split
    · rfl
    · rfl

theorem setData_isSome {tree : Nodes} {path : Service} (data : String) (member : path ∈ tree.nodes) :
    ∃ after, setData tree path data = some after := by
  obtain ⟨node,found⟩ := NodeTree.data_of_mem member
  exact ⟨_,by rw [setData,found,Option.bind_some,NodeTree.setData,dif_pos member]⟩

private theorem mem_stopServices (tree : Nodes) (path : Service) :
    path ∈ (stopServices valid services tree).nodes ↔ path ∈ tree.nodes := by
  induction services generalizing tree with
  | nil => rfl
  | cons service rest ih =>
    simp only [stopServices]
    split
    · split
      next after written => rw [ih,(setData_some written).1]
      · rfl
    · rfl

theorem stopServices_keeps (tree : Nodes) (path : Service)
    (stopped : tree.dataAt path = some (some "0")) :
    (stopServices valid services tree).dataAt path = some (some "0") := by
  induction services generalizing tree with
  | nil => exact stopped
  | cons service rest ih =>
    simp only [stopServices]
    split
    · split
      next after written =>
        apply ih after
        rw [(setData_some written).2]
        split
        · rfl
        · exact stopped
      · exact stopped
    · exact stopped

theorem stopServices_all (tree : Nodes) (legal : Legal valid tree) :
    AllHold services (stopServices valid services tree) "0" ↔
      ∀ service ∈ services, service ∈ tree.nodes := by
  constructor
  · intro held service member
    exact (mem_stopServices valid services tree service).mp (mem_of_dataAt (held service member))
  · intro present
    induction services generalizing tree with
    | nil => simp [AllHold]
    | cons service rest ih =>
      rw [List.forall_mem_cons] at present
      obtain ⟨member,others⟩ := present
      obtain ⟨after,written⟩ := setData_isSome "0" member
      obtain ⟨same,data⟩ := setData_some written
      have steps : stopServices valid (service::rest) tree = stopServices valid rest after := by
        simp [stopServices,legal service member,written]
      rw [steps,AllHold,List.forall_mem_cons]
      constructor
      · apply stopServices_keeps
        rw [data,if_pos rfl]
      · exact ih _ (fun path inside => legal path ((same path).mp inside))
          fun path inside => (same path).mpr (others path inside)

theorem event_legal (deployment : Deployment) (event : ContextEvent)
    (legal : Legal valid deployment.tree) :
    Legal valid (onApplicationEvent valid services deployment event).tree := by
  cases event with
  | refreshed =>
    simp only [onApplicationEvent,start,synToRegistry]
    split
    · exact legal
    · exact synServices_legal valid services deployment.tree legal
  | stopped =>
    simp only [onApplicationEvent,stop]
    split
    · exact legal
    · exact legal
    · exact fun path member => legal path ((mem_stopServices valid services _ path).mp member)
  | restarted => exact legal

theorem event_fit (deployment : Deployment) (event : ContextEvent)
    (legal : Legal valid deployment.tree) :
    Announced valid services deployment event ↔ Fit valid services deployment event := by
  cases event with
  | refreshed =>
    simp only [Announced,Fit,onApplicationEvent,start,synToRegistry]
    by_cases synced : deployment.monitor.isSysToServer = true
    · simp [synced]
    · simp only [synced,Bool.false_eq_true,if_false]
      exact synServices_registrable valid services deployment.tree deployment.tree [] legal
        ⟨fun path => (if_neg fun both => List.not_mem_nil both.1).symm,nofun⟩
  | stopped =>
    simp only [Announced,Fit,onApplicationEvent,stop]
    cases client : deployment.monitor.zk with
    | none => simp
    | some alive =>
      cases alive with
      | false => simp
      | true => simpa using stopServices_all valid services deployment.tree legal
  | restarted => exact Iff.rfl

/-- After every refresh all services hold "1" and after every stop "0" exactly in the
runs all of whose events meet a fitting tree and monitor. -/
theorem run_announced_iff (tree : Nodes) (legal : Legal valid tree) (events : List ContextEvent) :
    Along (onApplicationEvent valid services) (Announced valid services) {tree} events ↔
      Along (onApplicationEvent valid services) (Fit valid services) {tree} events :=
  @along_iff _ _ _ _ _ (fun deployment => Legal valid deployment.tree)
    (fun deployment event legal => event_fit valid services deployment event legal)
    (fun deployment event legal _ => event_legal valid services deployment event legal)
    {tree} events legal

def prepared : Nodes :=
  ((NodeTree.empty.put [] {data := none} trivial).put ["app"] {data := none} (by decide)).put ["svc","app"]
    {data := none} (by decide)

theorem run_announced_iff_prepared :
    Along (onApplicationEvent (fun _ => true) [["list","svc","app"],["all","list","svc","app"]])
      (Announced (fun _ => true) [["list","svc","app"],["all","list","svc","app"]]) {tree := prepared}
      [.refreshed,.stopped] := by
  refine (run_announced_iff (fun _ => true) _ prepared (fun _ _ => rfl) [.refreshed,.stopped]).mpr ⟨?_,?_,trivial⟩
  · refine ⟨.inr (.inr ⟨rfl,by decide,.inl ⟨{data := none},by decide,rfl⟩⟩),?_,trivial⟩
    exact .inr (.inr ⟨rfl,by decide,.inr ⟨by decide,by decide⟩⟩)
  · change ∀ service ∈ _, service ∈ _
    decide +kernel

def ephemeral : Nodes :=
  (NodeTree.empty.put [] {data := none} trivial).put ["app"] {data := none,ephemeral := true} (by decide)

/-- A first start without the parent nodes or below an ephemeral one, a restart over a node
left at "0" and a refresh after a stop all leave the service unannounced. -/
theorem refresh_misses :
    (¬ Along (onApplicationEvent (fun _ => true) [["list","svc","app"]])
      (Announced (fun _ => true) [["list","svc","app"]])
      {tree := NodeTree.empty.put [] {data := none} trivial} [.refreshed]) ∧
    (¬ Along (onApplicationEvent (fun _ => true) [["svc","app"]])
      (Announced (fun _ => true) [["svc","app"]]) {tree := ephemeral} [.refreshed]) ∧
    (¬ Along (onApplicationEvent (fun _ => true) [["list","svc","app"]])
      (Announced (fun _ => true) [["list","svc","app"]])
      {tree := prepared} [.refreshed,.stopped,.restarted,.refreshed]) ∧
    ¬ Along (onApplicationEvent (fun _ => true) [["list","svc","app"]])
      (Announced (fun _ => true) [["list","svc","app"]])
      {tree := prepared} [.refreshed,.stopped,.refreshed] := by
  refine ⟨fun held => ?_,fun held => ?_,fun held => ?_,fun held => ?_⟩
  · exact absurd (held.1 ["list","svc","app"] (by simp)) (by decide +kernel)
  · exact absurd (held.1 ["svc","app"] (by simp)) (by decide +kernel)
  · exact absurd (held.2.2.2.1 ["list","svc","app"] (by simp)) (by decide +kernel)
  · exact absurd (held.2.2.1 ["list","svc","app"] (by simp)) (by decide +kernel)

end YzFramework.Registry

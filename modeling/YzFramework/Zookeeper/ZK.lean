import YzFramework.Zookeeper.ZooKeeper

/-! `ZK`: creating a node together with its parents. -/
namespace YzFramework.Zookeeper.ZK
open Library Library.Script Config
open Config.PropertyRegistry (fullPath getFullPath fullPath_slash fullPath_child)

variable (valid : String → Bool)

def getParentPath (path : String) : String :=
  let before := Text.beforeLast '/' path.toList
  if before = [] then "/" else String.ofList before

theorem getParentPath_length {path : String} (lower : getParentPath path ≠ "/") :
    (getParentPath path).length < path.length := by
  by_cases some : Text.beforeLast '/' path.toList = []
  · exact absurd (if_pos some) lower
  · rw [show getParentPath path = String.ofList (Text.beforeLast '/' path.toList) from if_neg some,
      String.length_ofList,← String.length_toList]
    exact Text.beforeLast_length some

def createRecursive (path : String) (data : Option Bytes) (mode : CreateMode) :
    Script ZooKeeper Unit := do
  let stat ← existsPath valid path
  if stat.isSome then pure ()
  else
    (if _ : getParentPath path ≠ "/" then createRecursive (getParentPath path) none mode
    else pure ())
    let _ ← create valid path data mode
termination_by path.length
decreasing_by exact getParentPath_length ‹_›

inductive Overload
  | withMode (mode : CreateMode)
  | withoutMode

def Overload.mode : Overload → CreateMode
  | withMode mode => mode
  | withoutMode => .persistent

/-- The overload without a mode is a plain `create`. -/
def createParentNodeIfExists (path : String) (data : Option Bytes) :
    Overload → Script ZooKeeper Unit
  | .withMode mode => createRecursive valid path data mode
  | .withoutMode => do
    let _ ← create valid path data .persistent

/-- The path of the node that is created, with the suffix of a sequential one. -/
def target (zk : ZooKeeper) (mode : CreateMode) : NodePath → NodePath
  | [] => []
  | name::parent => placed zk name parent mode::parent

/-- A node called like the last name, with a suffix if it is sequential. -/
def Named (mode : CreateMode) (path created : NodePath) : Prop :=
  if mode.sequential then
    ∃ name parent count, path = name::parent ∧ created = (name++suffix count)::parent
  else created = path

/-- The call succeeds, the ancestors are there, the node was created if it was absent,
and the nodes from before are as they were. -/
def Ensured (zk : ZooKeeper) (text : String) (path : NodePath) (data : Option Bytes)
    (overload : Overload) : Prop :=
  ∃ after, createParentNodeIfExists valid text data overload zk = (.ok (),after) ∧
    (∀ upper, upper <:+ path.tail → upper ∈ after.tree.nodes) ∧
    (path ∉ zk.tree.nodes → ∃ created node, Named overload.mode path created ∧
      created ∉ zk.tree.nodes ∧ after.tree.data created = some node ∧ node.data = data) ∧
    ∀ other node, zk.tree.data other = some node → after.tree.data other = some node

def Lasting (zk : ZooKeeper) (path : NodePath) : Prop :=
  ∀ upper node, upper <:+ path → zk.tree.data upper = some node → node.ephemeral = false

def Fit (zk : ZooKeeper) (path : NodePath) : Overload → Prop
  | .withMode mode => path ∈ zk.tree.nodes ∨
      Lasting zk path ∧ (mode = .persistent ∨ path.tail ∈ zk.tree.nodes) ∧
        target zk mode path ∉ zk.tree.nodes
  | .withoutMode => path ∉ zk.tree.nodes ∧ Lasting zk path ∧ path.tail ∈ zk.tree.nodes

variable {valid}

theorem getParentPath_fullPath (proper : Proper valid) {name : String} {parent : NodePath}
    (names : ∀ segment ∈ name::parent, valid segment = true) :
    getParentPath (fullPath (name::parent)) = fullPath parent := by
  have plain := proper.plain name (names name List.mem_cons_self)
  have unnamed : "" ∉ parent := proper.unnamed fun segment inside =>
    names segment (List.mem_cons_of_mem _ inside)
  by_cases top : parent = []
  · subst top
    have text : (fullPath [name]).toList = []++ '/'::name.toList := by
      rw [fullPath,fullPath,getFullPath,if_pos (by decide),String.toList_append]
      rfl
    rw [getParentPath,text,Text.beforeLast_append _ plain]
    rfl
  · have text : (fullPath (name::parent)).toList = (fullPath parent).toList++ '/'::name.toList := by
      rw [fullPath_child name unnamed top,String.toList_append,String.toList_append,
        List.append_assoc]
      rfl
    obtain ⟨rest,begins⟩ := fullPath_slash parent
    have some : (fullPath parent).toList ≠ [] := by
      rw [begins]
      exact List.cons_ne_nil _ _
    rw [getParentPath,text,Text.beforeLast_append _ plain]
    exact (if_neg some).trans String.ofList_toList

def Keeps (zk after : ZooKeeper) (path : NodePath) : Prop :=
  (∀ other node, zk.tree.data other = some node → after.tree.data other = some node) ∧
    ∀ other ∈ after.tree.nodes, other ∈ zk.tree.nodes ∨ other.length ≤ path.length

theorem keeps_refl (zk : ZooKeeper) (path : NodePath) : Keeps zk zk path :=
  ⟨fun _ _ => id,fun _ => .inl⟩

private theorem keeps_deeper {zk after : ZooKeeper} {path : NodePath} (name : String)
    (keeps : Keeps zk after path) : Keeps zk after (name::path) := by
  refine ⟨keeps.1,fun other member => (keeps.2 other member).imp_right fun short => ?_⟩
  rw [List.length_cons]
  omega

private theorem keeps_trans {zk middle after : ZooKeeper} {path : NodePath} (before : Keeps zk middle path)
    (next : Keeps middle after path) : Keeps zk after path := by
  refine ⟨fun other node found => next.1 other node (before.1 other node found),fun other member => ?_⟩
  rcases next.2 other member with inside | short
  · exact before.2 other inside
  · exact .inr short

section Recursion
variable (proper : Proper valid) {zk : ZooKeeper} (data : Option Bytes) (mode : CreateMode)
include proper

theorem createRecursive_present {path : NodePath} (names : ∀ segment ∈ path, valid segment = true)
    (present : path ∈ zk.tree.nodes) :
    createRecursive valid (fullPath path) data mode zk = (.ok (),zk) := by
  have found : (zk.tree.data path).isSome = true := AList.lookup_isSome.mpr present
  rw [createRecursive,bind_ok _ (existsPath_eq (nodePath_fullPath proper names) zk),
    Option.isSome_map,if_pos found]
  rfl

theorem createRecursive_absent {name : String} {parent : NodePath}
    (names : ∀ segment ∈ name::parent, valid segment = true) (absent : name::parent ∉ zk.tree.nodes) :
    createRecursive valid (fullPath (name::parent)) data mode zk =
      (createRecursive valid (fullPath parent) none mode >>= fun _ =>
        create valid (fullPath (name::parent)) data mode >>= fun _ => pure ()) zk := by
  have parents : ∀ segment ∈ parent, valid segment = true := fun segment inside =>
    names segment (List.mem_cons_of_mem _ inside)
  have missing : ¬ (zk.tree.data (name::parent)).isSome = true := fun found =>
    absent (AList.lookup_isSome.mp found)
  rw [createRecursive,bind_ok _ (existsPath_eq (nodePath_fullPath proper names) zk),
    Option.isSome_map,if_neg missing,getParentPath_fullPath proper names]
  split
  next => rfl
  next top =>
    obtain rfl : parent = [] := fullPath_top (proper.unnamed parents) (not_not.mp top)
    rw [bind_ok _ (createRecursive_present proper none mode parents zk.rooted)]
    rfl

theorem create_keeps {name : String} {parent : NodePath}
    (names : ∀ segment ∈ name::parent, valid segment = true)
    {answer : Except String String} {after : ZooKeeper}
    (ran : create valid (fullPath (name::parent)) data mode zk = (answer,after)) :
    Keeps zk after (name::parent) := by
  have readable := nodePath_fullPath proper names
  by_cases creatable : Creatable zk name parent mode
  · obtain ⟨created,done,holds⟩ := create_ok readable data creatable
    obtain rfl : created = after := congrArg Prod.snd (done.symm.trans ran)
    constructor
    · intro other node found
      rw [holds,if_neg,found]
      exact fun same => creatable.2 (same ▸ NodeTree.mem_of_data found)
    · intro other member
      obtain ⟨node,found⟩ := NodeTree.data_of_mem member
      rw [holds] at found
      split at found
      next same => exact .inr (by simp [same])
      next => exact .inl (NodeTree.mem_of_data found)
  · obtain ⟨fault,failed⟩ := create_fails readable data creatable
    obtain rfl : zk = after := congrArg Prod.snd (failed.symm.trans ran)
    exact keeps_refl zk _

theorem createRecursive_keeps {path : NodePath} (names : ∀ segment ∈ path, valid segment = true)
    {answer : Except String Unit} {after : ZooKeeper}
    (ran : createRecursive valid (fullPath path) data mode zk = (answer,after)) :
    Keeps zk after path := by
  induction path generalizing data answer after with
  | nil =>
    obtain rfl : zk = after := congrArg Prod.snd
      ((createRecursive_present proper data mode names zk.rooted).symm.trans ran)
    exact keeps_refl zk []
  | cons name parent ih =>
    by_cases present : name::parent ∈ zk.tree.nodes
    · obtain rfl : zk = after := congrArg Prod.snd
        ((createRecursive_present proper data mode names present).symm.trans ran)
      exact keeps_refl zk _
    · rw [createRecursive_absent proper data mode names present] at ran
      cases upper : createRecursive valid (fullPath parent) none mode zk with
      | mk answer middle =>
        have parents : ∀ segment ∈ parent, valid segment = true := fun segment inside =>
          names segment (List.mem_cons_of_mem _ inside)
        have before := keeps_deeper name (ih none parents upper)
        cases answer with
        | error fault =>
          rw [bind_error _ upper] at ran
          obtain rfl : middle = after := congrArg Prod.snd ran
          exact before
        | ok done =>
          rw [bind_ok _ upper] at ran
          cases made : create valid (fullPath (name::parent)) data mode middle with
          | mk reply created =>
            have next := keeps_trans before (create_keeps proper data mode names made)
            cases reply with
            | error fault =>
              rw [bind_error _ made] at ran
              obtain rfl : created = after := congrArg Prod.snd ran
              exact next
            | ok place =>
              rw [bind_ok _ made] at ran
              obtain rfl : created = after := congrArg Prod.snd ran
              exact next

theorem createRecursive_ok {name : String} {parent : NodePath}
    (names : ∀ segment ∈ name::parent, valid segment = true) (absent : name::parent ∉ zk.tree.nodes)
    {after : ZooKeeper}
    (ran : createRecursive valid (fullPath (name::parent)) data mode zk = (.ok (),after)) :
    ∃ middle, createRecursive valid (fullPath parent) none mode zk = (.ok (),middle) ∧
      Creatable middle name parent mode ∧
      ∃ reply, create valid (fullPath (name::parent)) data mode middle = (.ok reply,after) := by
  rw [createRecursive_absent proper data mode names absent] at ran
  cases upper : createRecursive valid (fullPath parent) none mode zk with
  | mk answer middle =>
    cases answer with
    | error fault =>
      rw [bind_error _ upper] at ran
      cases ran
    | ok done =>
      rw [bind_ok _ upper] at ran
      by_cases creatable : Creatable middle name parent mode
      · obtain ⟨created,reply,_⟩ := create_ok (nodePath_fullPath proper names) data creatable
        rw [bind_ok _ reply] at ran
        obtain rfl : created = after := congrArg Prod.snd ran
        exact ⟨middle,rfl,creatable,_,reply⟩
      · obtain ⟨fault,failed⟩ := create_fails (nodePath_fullPath proper names) data creatable
        rw [bind_error _ failed] at ran
        cases ran

theorem createRecursive_created {name : String} {parent : NodePath}
    (names : ∀ segment ∈ name::parent, valid segment = true) (absent : name::parent ∉ zk.tree.nodes)
    {after : ZooKeeper}
    (ran : createRecursive valid (fullPath (name::parent)) data mode zk = (.ok (),after)) :
    ∃ created node, Named mode (name::parent) created ∧ created ∉ zk.tree.nodes ∧
      after.tree.data created = some node ∧ node.data = data ∧ node.ephemeral = mode.ephemeral ∧
      created.tail = parent ∧ (mode.sequential = true → name::parent ∉ after.tree.nodes) := by
  obtain ⟨middle,upper,creatable,reply,made⟩ := createRecursive_ok proper data mode names absent ran
  have parents : ∀ segment ∈ parent, valid segment = true := fun segment inside =>
    names segment (List.mem_cons_of_mem _ inside)
  have keeps := createRecursive_keeps proper none mode parents upper
  have stillAbsent : name::parent ∉ middle.tree.nodes := fun member => by
    rcases keeps.2 _ member with inside | short
    · exact absent inside
    · rw [List.length_cons] at short
      omega
  obtain ⟨created,done,holds⟩ := create_ok (nodePath_fullPath proper names) data creatable
  obtain rfl : created = after := congrArg Prod.snd (done.symm.trans made)
  refine ⟨placed middle name parent mode::parent,_,?_,?_,(holds _).trans (if_pos rfl),rfl,rfl,rfl,?_⟩
  · unfold Named placed
    split
    next => exact ⟨name,parent,_,rfl,rfl⟩
    next => rfl
  · intro inside
    obtain ⟨node,found⟩ := NodeTree.data_of_mem inside
    exact creatable.2 (NodeTree.mem_of_data (keeps.1 _ node found))
  · intro sequential member
    obtain ⟨node,found⟩ := NodeTree.data_of_mem member
    rw [holds] at found
    split at found
    next same =>
      have longer := suffix_long name (middle.cversion parent)
      have suffixed : name = name++suffix (middle.cversion parent) := by
        have heads := (List.cons.inj same).1
        rwa [placed,if_pos sequential] at heads
      rw [← suffixed] at longer
      exact lt_irrefl _ longer
    next => exact stillAbsent (NodeTree.mem_of_data found)

omit proper in
theorem lasting_absent {name : String} {parent : NodePath} (absent : name::parent ∉ zk.tree.nodes) :
    Lasting zk (name::parent) ↔ Lasting zk parent := by
  constructor
  · exact fun lasting upper node above found => lasting upper node (above.trans (List.suffix_cons _ _)) found
  · intro lasting upper node above found
    rcases List.suffix_cons_iff.mp above with rfl | higher
    · exact absurd (NodeTree.mem_of_data found) absent
    · exact lasting upper node higher found

omit proper in
theorem lasting_present {path : NodePath} {last : Znode} (found : zk.tree.data path = some last) :
    Lasting zk path ↔ last.ephemeral = false := by
  constructor
  · exact fun lasting => lasting path last List.suffix_rfl found
  · intro last_lasting upper node above held
    by_cases same : path = upper
    · subst same
      rw [← last_lasting,Option.some.inj (held.symm.trans found)]
    · obtain ⟨name,below⟩ := NodeTree.suffix_step above same
      have child := zk.tree.mem_of_suffix below (NodeTree.mem_of_data found)
      exact eq_false_of_ne_true fun ephemeral => zk.childless upper node held ephemeral name child

theorem createRecursive_ok_middle {name : String} {parent : NodePath} {middle : ZooKeeper}
    (names : ∀ segment ∈ name::parent, valid segment = true) (absent : name::parent ∉ zk.tree.nodes)
    (upper : createRecursive valid (fullPath parent) none mode zk = (.ok (),middle)) :
    (∃ after, createRecursive valid (fullPath (name::parent)) data mode zk = (.ok (),after)) ↔
      Creatable middle name parent mode := by
  constructor
  · rintro ⟨after,ran⟩
    obtain ⟨other,also,creatable,_⟩ := createRecursive_ok proper data mode names absent ran
    obtain rfl : middle = other := congrArg Prod.snd (upper.symm.trans also)
    exact creatable
  · intro creatable
    obtain ⟨after,made,_⟩ := create_ok (nodePath_fullPath proper names) data creatable
    refine ⟨after,?_⟩
    rw [createRecursive_absent proper data mode names absent,bind_ok _ upper,bind_ok _ made]
    rfl

theorem createRecursive_ok_seated {name : String} {parent : NodePath}
    (names : ∀ segment ∈ name::parent, valid segment = true) (absent : name::parent ∉ zk.tree.nodes)
    (seated : parent ∈ zk.tree.nodes) :
    (∃ after, createRecursive valid (fullPath (name::parent)) data mode zk = (.ok (),after)) ↔
      Lasting zk parent ∧ placed zk name parent mode::parent ∉ zk.tree.nodes := by
  have parents : ∀ segment ∈ parent, valid segment = true := fun segment inside =>
    names segment (List.mem_cons_of_mem _ inside)
  have upper := createRecursive_present proper none mode parents seated
  obtain ⟨above,found⟩ := NodeTree.data_of_mem seated
  rw [createRecursive_ok_middle proper data mode names absent upper,lasting_present found]
  constructor
  · rintro ⟨⟨other,held,lasting⟩,free⟩
    obtain rfl : above = other := Option.some.inj (found.symm.trans held)
    exact ⟨lasting,free⟩
  · rintro ⟨lasting,free⟩
    exact ⟨⟨above,found,lasting⟩,free⟩

/-- After a parent that was absent: only a persistent one has become a parent. -/
theorem creatable_iff {name segment : String} {upper : NodePath} {middle : ZooKeeper}
    (names : ∀ part ∈ segment::upper, valid part = true) (absent : name::segment::upper ∉ zk.tree.nodes)
    (missing : segment::upper ∉ zk.tree.nodes)
    (ran : createRecursive valid (fullPath (segment::upper)) none mode zk = (.ok (),middle)) :
    Creatable middle name (segment::upper) mode ↔ mode = .persistent := by
  obtain ⟨created,node,named,-,found,-,kind,-,unsuffixed⟩ :=
    createRecursive_created proper none mode names missing ran
  constructor
  · rintro ⟨⟨above,held,lasting⟩,-⟩
    have plain : mode.sequential = false := eq_false_of_ne_true fun sequential =>
      unsuffixed sequential (NodeTree.mem_of_data held)
    rw [Named,plain,if_neg Bool.false_ne_true] at named
    subst named
    have same := Option.some.inj (held.symm.trans found)
    rw [same,kind] at lasting
    cases mode
    simp_all [CreateMode.persistent]
  · rintro rfl
    have here : created = segment::upper := named
    subst here
    have keeps := createRecursive_keeps proper none .persistent names ran
    refine ⟨⟨node,found,kind⟩,fun member => ?_⟩
    rcases keeps.2 _ member with inside | short
    · exact absent inside
    · rw [List.length_cons,List.length_cons] at short
      omega

theorem createRecursive_ok_iff {name : String} {parent : NodePath}
    (names : ∀ segment ∈ name::parent, valid segment = true) (absent : name::parent ∉ zk.tree.nodes) :
    (∃ after, createRecursive valid (fullPath (name::parent)) data mode zk = (.ok (),after)) ↔
      Lasting zk parent ∧ (mode = .persistent ∨ parent ∈ zk.tree.nodes) ∧
        placed zk name parent mode::parent ∉ zk.tree.nodes := by
  induction parent generalizing name data with
  | nil =>
    rw [createRecursive_ok_seated proper data mode names absent zk.rooted]
    simp [zk.rooted]
  | cons segment upper ih =>
    have parents : ∀ part ∈ segment::upper, valid part = true := fun part inside =>
      names part (List.mem_cons_of_mem _ inside)
    by_cases seated : segment::upper ∈ zk.tree.nodes
    · rw [createRecursive_ok_seated proper data mode names absent seated]
      simp [seated]
    · have above := ih none parents seated
      rw [lasting_absent seated]
      constructor
      · rintro ⟨after,ran⟩
        obtain ⟨middle,before,creatable,-⟩ := createRecursive_ok proper data mode names absent ran
        have persistent := (creatable_iff proper mode parents absent seated before).mp creatable
        subst persistent
        exact ⟨(above.mp ⟨middle,before⟩).1,.inl rfl,absent⟩
      · rintro ⟨lasting,either,-⟩
        have persistent := either.resolve_right seated
        subst persistent
        obtain ⟨middle,before⟩ := above.mpr ⟨lasting,.inl rfl,seated⟩
        apply (createRecursive_ok_middle proper data .persistent names absent before).mpr
        exact (creatable_iff proper .persistent parents absent seated before).mpr rfl

theorem recursive_ensured_iff (text : String) {path : NodePath}
    (readable : nodePath valid text = some path) :
    Ensured valid zk text path data (.withMode mode) ↔ Fit zk path (.withMode mode) := by
  obtain ⟨rfl,names⟩ := fullPath_nodePath proper readable
  by_cases present : path ∈ zk.tree.nodes
  · refine iff_of_true ⟨zk,createRecursive_present proper data mode names present,?_,?_,?_⟩ (.inl present)
    · exact fun upper above => zk.tree.mem_of_suffix (above.trans (List.tail_suffix path)) present
    · exact fun absent => absurd present absent
    · exact fun _ _ => id
  · cases path with
    | nil => exact absurd zk.rooted present
    | cons name parent =>
      have fit : Fit zk (name::parent) (.withMode mode) ↔
          Lasting zk parent ∧ (mode = .persistent ∨ parent ∈ zk.tree.nodes) ∧
            placed zk name parent mode::parent ∉ zk.tree.nodes := by
        rw [← lasting_absent present]
        exact or_iff_right present
      rw [fit,← createRecursive_ok_iff proper data mode names present]
      refine exists_congr fun after => ⟨And.left,fun ran => ⟨ran,?_,fun _ => ?_,?_⟩⟩
      · obtain ⟨created,node,-,-,found,-,-,above,-⟩ :=
          createRecursive_created proper data mode names present ran
        have parents : parent <:+ created := above ▸ List.tail_suffix created
        exact fun upper higher =>
          after.tree.mem_of_suffix (higher.trans parents) (NodeTree.mem_of_data found)
      · obtain ⟨created,node,named,fresh,found,same,_⟩ :=
          createRecursive_created proper data mode names present ran
        exact ⟨created,node,named,fresh,found,same⟩
      · exact (createRecursive_keeps proper data mode names ran).1

omit proper in
theorem creatable_persistent_iff (name : String) (parent : NodePath) :
    Creatable zk name parent .persistent ↔ Fit zk (name::parent) .withoutMode := by
  constructor
  · rintro ⟨⟨above,found,lasting⟩,absent⟩
    refine ⟨absent,(lasting_absent absent).mpr ?_,NodeTree.mem_of_data found⟩
    exact (lasting_present found).mpr lasting
  · rintro ⟨absent,lasting,seated⟩
    obtain ⟨above,found⟩ := NodeTree.data_of_mem seated
    exact ⟨⟨above,found,(lasting_present found).mp ((lasting_absent absent).mp lasting)⟩,absent⟩

theorem plain_ensured_iff (text : String) {path : NodePath}
    (readable : nodePath valid text = some path) :
    Ensured valid zk text path data .withoutMode ↔ Fit zk path .withoutMode := by
  obtain ⟨rfl,names⟩ := fullPath_nodePath proper readable
  cases path with
  | nil =>
    refine iff_of_false ?_ fun fit => fit.1 zk.rooted
    rintro ⟨after,ran,-⟩
    have failed : create valid (fullPath []) data .persistent zk = (.error "NodeExists",zk) :=
      validatePath_bind readable zk _
    rw [createParentNodeIfExists,bind_error _ failed] at ran
    cases ran
  | cons name parent =>
    rw [← creatable_persistent_iff]
    constructor
    · rintro ⟨after,ran,-⟩
      by_contra refused
      obtain ⟨fault,failed⟩ := create_fails readable data refused
      rw [createParentNodeIfExists,bind_error _ failed] at ran
      cases ran
    · intro creatable
      obtain ⟨after,made,holds⟩ := create_ok readable data creatable
      have found : after.tree.data (name::parent) = some _ := (holds _).trans (if_pos rfl)
      refine ⟨after,?_,?_,fun _ => ⟨name::parent,_,rfl,creatable.2,found,rfl⟩,?_⟩
      · rw [createParentNodeIfExists,bind_ok _ made]
        rfl
      · exact fun upper above => after.tree.mem_of_suffix (above.trans (List.suffix_cons _ _))
          (NodeTree.mem_of_data found)
      · exact (create_keeps proper data .persistent names made).1

end Recursion

/-- Either overload does what its name says exactly if no node on the path is ephemeral
and: with a mode, the parent is there or the mode is persistent, or else the node is
there; without a mode, the parent is there and the node is not. -/
theorem createParentNodeIfExists_ensured_iff (proper : Proper valid) (zk : ZooKeeper)
    (text : String) (path : NodePath) (readable : nodePath valid text = some path)
    (data : Option Bytes) (overload : Overload) :
    Ensured valid zk text path data overload ↔ Fit zk path overload := by
  cases overload with
  | withMode mode => exact recursive_ensured_iff proper data mode text readable
  | withoutMode => exact plain_ensured_iff proper data text readable

theorem createParentNodeIfExists_ensured_deep :
    Ensured plainName .fresh "/a/b" ["b","a"] (some [1]) (.withMode .persistent) :=
  (createParentNodeIfExists_ensured_iff plainName_proper .fresh "/a/b" ["b","a"] (by decide +kernel)
    (some [1]) (.withMode .persistent)).mpr
    (.inr ⟨fun _ _ _ => ZooKeeper.fresh_lasting,.inl rfl,by decide⟩)

/-- Of a path with a missing parent the node is not created by an ephemeral or
sequential call, nor by the other overload, which also fails if the node is there. -/
theorem missing_parent_fails :
    ¬ Ensured plainName .fresh "/a/b" ["b","a"] none (.withMode ⟨true,false⟩) ∧
    ¬ Ensured plainName .fresh "/a/b" ["b","a"] none (.withMode ⟨false,true⟩) ∧
    ¬ Ensured plainName .fresh "/a/b" ["b","a"] none .withoutMode ∧
    ¬ Ensured plainName .fresh "/" [] none .withoutMode := by
  have readable : nodePath plainName "/a/b" = some ["b","a"] := by decide +kernel
  have absent : ["b","a"] ∉ ZooKeeper.fresh.tree.nodes := by decide
  have orphan : ["a"] ∉ ZooKeeper.fresh.tree.nodes := by decide
  rw [recursive_ensured_iff plainName_proper none _ _ readable,
    recursive_ensured_iff plainName_proper none _ _ readable,
    plain_ensured_iff plainName_proper none _ readable,
    plain_ensured_iff plainName_proper none "/" (show nodePath plainName "/" = some [] from rfl)]
  refine ⟨?_,?_,fun fit => orphan fit.2.2,fun fit => fit.1 ZooKeeper.fresh.rooted⟩
  · rintro (present | ⟨-,persistent | seated,-⟩)
    · exact absent present
    · exact absurd persistent (by decide)
    · exact orphan seated
  · rintro (present | ⟨-,persistent | seated,-⟩)
    · exact absent present
    · exact absurd persistent (by decide)
    · exact orphan seated

end YzFramework.Zookeeper.ZK

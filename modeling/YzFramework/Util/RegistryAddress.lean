import YzFramework.Library.Search
import YzFramework.Library.Text

/-! The addresses that `NetUtils.getIpListByRegistry` reads from a list. `none` is an
exception; `digit` is `Character.digit` in base ten. -/
namespace YzFramework.Util.RegistryAddress
open Library

def MAX_PORT : ℤ := 65535

variable (digit : Char → Option ℕ)

def unsigned : List Char → Option ℕ
  | [] => none
  | text => text.foldlM (fun read c => (digit c).map (10*read+·)) 0

/-- `Integer.parseInt`: an optional sign and digits, for a value of 32 bits. -/
def parseInt (text : String) : Option ℤ :=
  let value : Option ℤ := match text.toList with
    | '-'::rest => (unsigned digit rest).map fun read : ℕ => -(read : ℤ)
    | '+'::rest => (unsigned digit rest).map fun read : ℕ => (read : ℤ)
    | rest => (unsigned digit rest).map fun read : ℕ => (read : ℤ)
  value.filter fun value => -2147483648 ≤ value ∧ value ≤ 2147483647

/-- A host and a port, as `InetSocketAddress` takes them. -/
def address (host : String) (port : Option String) : Option (String × ℤ) := do
  let value ← parseInt digit (← port)
  if 0 ≤ value ∧ value ≤ MAX_PORT then some (host,value) else none

def withoutScheme (add : String) : String :=
  match Search.indexOf "://".toList add.toList with
  | some a => String.ofList (add.toList.drop (a+3))
  | none => add

/-- One pass of the first loop, on the default port and the entries so far. -/
def addIp (state : Option String × List (String × Option String)) (add : String) :
    Option (Option String × List (String × Option String)) :=
  let (defaultPort,ips) := state
  match Text.split (· == ':') (withoutScheme add) with
  | [] => none
  | [host] => some (defaultPort,ips ++ [(host,defaultPort)])
  | host::port::_ =>
    some (if defaultPort.isNone && port != "" then some port else defaultPort,ips ++ [(host,some port)])

def getIpListByRegistry (registryIp : String) : Option (List (String × ℤ)) :=
  ((Text.split (· == ',') registryIp).foldlM addIp (none,[])).map fun result =>
    result.2.filterMap fun ip => address digit ip.1 (ip.2.or result.1)

/-- An item `[scheme://]host[:port]` of a list. -/
structure Item where
  scheme : Option String
  host : String
  port : Option String
  schemePlain : ∀ text, scheme = some text → ',' ∉ text.toList ∧ ¬ "://".toList <:+: text.toList
  hostPlain : ':' ∉ host.toList ∧ ',' ∉ host.toList
  portPlain : ∀ text, port = some text →
    ':' ∉ text.toList ∧ ',' ∉ text.toList ∧ ¬ "//".toList <+: text.toList

namespace Item

def located (item : Item) : String := item.host ++ (item.port.map (":" ++ ·)).getD ""

def text (item : Item) : String := (item.scheme.map (· ++ "://")).getD "" ++ item.located

/-- The item's own port, unless it is empty. -/
def given (item : Item) : Option String := item.port.filter (· ≠ "")

/-- The item is more than a colon. -/
def Complete (item : Item) : Prop := item.host = "" → item.port ≠ some ""

end Item

def firstPort (items : List Item) : Option String := items.findSome? Item.given

theorem located_plain (item : Item) : ¬ "://".toList <:+: item.located.toList := by
  rintro ⟨before,after,same⟩
  have host := item.hostPlain.1
  cases held : item.port with
  | none =>
    apply host
    have letters : item.located.toList = item.host.toList := by simp [Item.located,held]
    rw [← letters,← same]
    simp
  | some port =>
    obtain ⟨plain,_,begins⟩ := item.portPlain port held
    have letters : item.located.toList = item.host.toList ++ ':'::port.toList := by
      simp [Item.located,held]
    have cut : before ++ "://".toList ++ after = before ++ ':'::("//".toList ++ after) := by simp
    rw [letters,cut] at same
    have one := congrArg (List.count ':') same
    rw [List.count_append,List.count_append,List.count_cons_self,List.count_cons_self,
      List.count_eq_zero.mpr host,List.count_eq_zero.mpr plain] at one
    have clean : ':' ∉ "//".toList ++ after := List.count_eq_zero.mp (by omega)
    have split := Text.last_split_unique clean plain same
    exact begins ⟨after,split.2.symm⟩

theorem withoutScheme_text (item : Item) : withoutScheme item.text = item.located := by
  cases held : item.scheme with
  | none =>
    have letters : item.text = item.located := by simp [Item.text,held]
    rw [withoutScheme,letters,Search.indexOf_none.mpr (located_plain item)]
  | some scheme =>
    have letters : item.text.toList = scheme.toList ++ ':'::(['/','/'] ++ item.located.toList) := by
      simp [Item.text,held]
    have found := Search.indexOf_append (by decide : ':' ∉ ['/','/']) (item.schemePlain scheme held).2
      item.located.toList
    rw [← letters] at found
    have rest : item.text.toList.drop (scheme.toList.length+3) = item.located.toList := by
      rw [letters,List.drop_append,List.drop_eq_nil_of_le (by omega)]
      simp
    have pattern : "://".toList = ':'::['/','/'] := by decide
    rw [withoutScheme,pattern,found]
    simp only [rest,String.ofList_toList]

theorem split_located (item : Item) (complete : item.Complete) :
    Text.split (· == ':') item.located = item.host::item.given.toList := by
  have host := item.hostPlain.1
  have alone : Text.split (· == ':') item.host = [item.host] := by
    have separated : ¬ item.host.toList.any (· == ':') = true := by
      rw [List.any_eq_true]
      rintro ⟨c,inside,same⟩
      exact host (beq_iff_eq.mp same ▸ inside)
    rw [Text.split,if_neg separated]
  cases held : item.port with
  | none =>
    have letters : item.located = item.host := by simp [Item.located,held]
    rw [letters,alone,Item.given,held]
    rfl
  | some port =>
    have letters : item.located.toList = item.host.toList ++ ':'::port.toList := by
      simp [Item.located,held]
    by_cases empty : port = ""
    · subst empty
      have named : item.host ≠ "" := fun none => complete none held
      rw [Text.split_ended ':' named host letters,Item.given,held]
      rfl
    · have given : item.given = some port := by simp [Item.given,held,Option.filter,empty]
      have joined : item.located.toList =
          ([item.host].map fun piece => piece.toList ++ [':']).flatten ++ port.toList := by
        rw [letters]
        simp
      rw [Text.split_joined ':' [item.host] port empty (by simpa using host)
        (item.portPlain port held).1 joined,given]
      rfl

theorem addIp_text (item : Item) (complete : item.Complete) (defaultPort : Option String)
    (ips : List (String × Option String)) :
    addIp (defaultPort,ips) item.text =
      some (defaultPort.or item.given,ips ++ [(item.host,item.given.or defaultPort)]) := by
  rw [addIp,withoutScheme_text,split_located item complete]
  cases held : item.given with
  | none => simp
  | some port =>
    have written : port ≠ "" := of_decide_eq_true (Option.filter_eq_some_iff.mp held).2
    cases defaultPort <;> simp [written]

/-- The entries of the first loop: an item without a port takes the default of its time. -/
def entries (defaultPort : Option String) : List Item → List (String × Option String)
  | [] => []
  | item::rest => (item.host,item.given.or defaultPort)::entries (defaultPort.or item.given) rest

theorem firstPort_cons (item : Item) (rest : List Item) :
    firstPort (item::rest) = item.given.or (firstPort rest) := by
  rw [firstPort,List.findSome?_cons]
  cases item.given <;> rfl

private theorem foldlM_addIp (items : List Item) (complete : ∀ item ∈ items, item.Complete)
    (defaultPort : Option String) (ips : List (String × Option String)) :
    (items.map Item.text).foldlM addIp (defaultPort,ips) =
      some (defaultPort.or (firstPort items),ips ++ entries defaultPort items) := by
  induction items generalizing defaultPort ips with
  | nil => simp [firstPort,entries]
  | cons item rest ih =>
    rw [List.forall_mem_cons] at complete
    rw [List.map_cons,List.foldlM_cons,addIp_text item complete.1,Option.bind_eq_bind,
      Option.bind_some,ih complete.2,firstPort_cons,entries,Option.or_assoc]
    simp

/-- A default that was not known yet is filled in by the second loop. -/
theorem entries_or (items : List Item) (defaultPort final : Option String)
    (known : defaultPort.or (firstPort items) = final) :
    (entries defaultPort items).map (fun ip => (ip.1,ip.2.or final)) =
      items.map fun item => (item.host,item.given.or final) := by
  induction items generalizing defaultPort with
  | nil => rfl
  | cons item rest ih =>
    rw [firstPort_cons,← Option.or_assoc] at known
    rw [entries,List.map_cons,List.map_cons,ih _ known,Option.or_assoc]
    have same : defaultPort.or final = final := by
      rw [← known]
      cases defaultPort <;> rfl
    rw [same]

theorem text_plain (item : Item) : ',' ∉ item.text.toList := by
  have host := item.hostPlain.2
  cases scheme : item.scheme with
  | none =>
    cases port : item.port with
    | none => simpa [Item.text,Item.located,scheme,port] using host
    | some port' => simpa [Item.text,Item.located,scheme,port,host] using (item.portPlain port' port).2.1
  | some scheme' =>
    have front := (item.schemePlain scheme' scheme).1
    cases port : item.port with
    | none => simp [Item.text,Item.located,scheme,port,host,front]
    | some port' =>
      simpa [Item.text,Item.located,scheme,port,host,front] using (item.portPlain port' port).2.1

def digit10 (c : Char) : Option ℕ := if c.isDigit then some (c.toNat-48) else none

def EachItem (items : List Item) : Prop :=
  ∃ addresses, getIpListByRegistry digit (Text.chain ',' (items.map Item.text)) = some addresses ∧
    addresses.map Prod.fst = items.map Item.host

def zookeeper : Item where
  scheme := some "zookeeper"
  host := "a"
  port := none
  schemePlain := by
    rintro text ⟨⟩
    decide +kernel
  hostPlain := by decide
  portPlain := nofun

def numbered (host port : String) (hostPlain : ':' ∉ host.toList ∧ ',' ∉ host.toList)
    (portPlain : ':' ∉ port.toList ∧ ',' ∉ port.toList ∧ ¬ "//".toList <+: port.toList) : Item where
  scheme := none
  host := host
  port := some port
  schemePlain := nofun
  hostPlain := hostPlain
  portPlain := by
    rintro text ⟨⟩
    exact portPlain

end YzFramework.Util.RegistryAddress

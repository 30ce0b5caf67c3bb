import YzFramework.Library.LinkedMap
import YzFramework.Library.Run
import YzFramework.Library.Text

/-! `CookieHttpSessionStrategy`: the sessions of one browser, kept in a cookie.
A session is named by an alias; a cookie with one word in it is the session of the
default alias. The servlet container is seen through the parts of a request that
are read and the cookies that are added to the response. -/
namespace YzFramework.Http
open Library Library.Run Library.Text

structure Cookie where
  name : String
  value : String
  maxAge : ℤ
  httpOnly : Bool
  secure : Bool
  path : String
deriving DecidableEq

/-- What is read of a request, and the attribute with the ids written in it. -/
structure Request where
  cookies : Option (List (String × String))
  parameter : String → Option String
  isSecure : Bool
  sessionIdsWritten : List String := []

structure CookieHttpSessionStrategy where
  cookieName : String := "SESSIONID"
  sessionParam : Option String := some "_s"
  isServlet3Plus : Bool := true
deriving DecidableEq

def DEFAULT_ALIAS : String := "0"

def wordChar (c : Char) : Bool := c.isAlphanum || c == '_'

def ALIAS_PATTERN (text : String) : Bool :=
  1 ≤ text.toList.length && text.toList.length ≤ 50 && text.toList.all fun c => wordChar c || c == '-'

/-- The words of the cookie, two by two; an odd one at the end is dropped. -/
def pairUp : List String → List (String × String)
  | sessionAlias::id::rest => (sessionAlias,id)::pairUp rest
  | _ => []

/-- A word that `StringTokenizer` gives back as it is. -/
def Token (text : String) : Prop := text ≠ "" ∧ ' ' ∉ text.toList

instance (text : String) : Decidable (Token text) := inferInstanceAs (Decidable (_ ∧ _))

structure Session where
  id : String
  token : Token id

namespace CookieHttpSessionStrategy

variable (strategy : CookieHttpSessionStrategy)

def getCookie (request : Request) (name : String) : Option String := (request.cookies.getD []).lookup name

def getSessionIds (request : Request) : LinkedMap String String :=
  match tokens (· == ' ') ((getCookie request strategy.cookieName).getD "") with
  | [id] => .single DEFAULT_ALIAS id
  | words => .ofPairs (pairUp words)

def getCurrentSessionAlias (request : Request) : String :=
  match strategy.sessionParam with
  | none => DEFAULT_ALIAS
  | some sessionParam =>
    match request.parameter sessionParam with
    | none => DEFAULT_ALIAS
    | some u => if ALIAS_PATTERN u then u else DEFAULT_ALIAS

def getRequestedSessionId (request : Request) : Option String :=
  (strategy.getSessionIds request).get (strategy.getCurrentSessionAlias request)

def cookiePath : String := "/"

def createSessionCookie (request : Request) (sessionIds : LinkedMap String String) : Cookie :=
  let sessionCookie : Cookie :=
    {name := strategy.cookieName,value := "",maxAge := -1,httpOnly := strategy.isServlet3Plus,
      secure := request.isSecure,path := cookiePath}
  match sessionIds.pairs with
  | [] => {sessionCookie with maxAge := 0}
  | [(_,id)] => {sessionCookie with value := id}
  | pairs => {sessionCookie with value := chain ' ' (pairs.flatMap fun pair => [pair.1,pair.2])}

/-- The request with its attribute, and the cookies added to the response so far. -/
def onNewSession (session : Session) (request : Request) (response : List Cookie) : Request × List Cookie :=
  if session.id ∈ request.sessionIdsWritten then (request,response)
  else
    let request := {request with sessionIdsWritten := session.id::request.sessionIdsWritten}
    let sessionIds := (strategy.getSessionIds request).put (strategy.getCurrentSessionAlias request) session.id
    (request,response ++ [strategy.createSessionCookie request sessionIds])

def onInvalidateSession (request : Request) (response : List Cookie) : List Cookie :=
  let sessionIds := (strategy.getSessionIds request).remove (strategy.getCurrentSessionAlias request)
  response ++ [strategy.createSessionCookie request sessionIds]

end CookieHttpSessionStrategy

/-- What the application does with sessions while it answers a request. -/
inductive SessionEvent
  | new (session : Session)
  | invalidate

structure Visit where
  parameter : String → Option String
  isSecure : Bool
  events : List SessionEvent

structure StoredCookie where
  value : String
  secure : Bool
deriving DecidableEq

/-- The cookies of a browser by name. -/
abbrev Jar := LinkedMap String StoredCookie

namespace Jar

def receive (jar : Jar) (cookie : Cookie) : Jar :=
  if cookie.maxAge = 0 then jar.remove cookie.name else jar.put cookie.name ⟨cookie.value,cookie.secure⟩

/-- A secure cookie goes with a secure request only. -/
def sent (jar : Jar) (isSecure : Bool) : List (String × String) :=
  (jar.pairs.filter fun pair => !pair.2.secure || isSecure).map fun pair => (pair.1,pair.2.value)

def request (jar : Jar) (visit : Visit) : Request where
  cookies := if (jar.sent visit.isSecure).isEmpty then none else some (jar.sent visit.isSecure)
  parameter := visit.parameter
  isSecure := visit.isSecure

end Jar

namespace CookieHttpSessionStrategy

variable (strategy : CookieHttpSessionStrategy)

def handle : Request × List Cookie → SessionEvent → Request × List Cookie
  | (request,response), .new session => strategy.onNewSession session request response
  | (request,response), .invalidate => (request,strategy.onInvalidateSession request response)

/-- One request of the browser and the cookies that come back. -/
def visit (jar : Jar) (visit : Visit) : Jar :=
  (final strategy.handle (jar.request visit,[]) visit.events).2.foldl Jar.receive jar

end CookieHttpSessionStrategy

/-- What the cookie is for: sessions by alias. The last one left takes the default alias. -/
abbrev Sessions := LinkedMap String String

namespace Sessions

def settle (sessions : Sessions) : Sessions :=
  match sessions.pairs with
  | [(_,id)] => .single DEFAULT_ALIAS id
  | _ => sessions

/-- A visit under an alias: the ids it has written and the outcome of its last event.
Every event starts from the sessions that the request came with. -/
def handle (sessions : Sessions) (sessionAlias : String) :
    List String × Sessions → SessionEvent → List String × Sessions
  | (written,outcome), .new session =>
    if session.id ∈ written then (written,outcome)
    else (session.id::written,settle (sessions.put sessionAlias session.id))
  | (written,_), .invalidate => (written,settle (sessions.remove sessionAlias))

def visit (sessions : Sessions) (sessionAlias : String) (events : List SessionEvent) : Sessions :=
  (final (sessions.handle sessionAlias) ([],sessions) events).2

end Sessions

theorem pairUp_flatMap (pairs : List (String × String)) :
    pairUp (pairs.flatMap fun pair => [pair.1,pair.2]) = pairs := by
  induction pairs with
  | nil => rfl
  | cons pair rest ih => rw [List.flatMap_cons,List.cons_append,List.cons_append,List.nil_append,pairUp,ih]

private theorem mem_pairUp {words : List String} {pair : String × String} (inside : pair ∈ pairUp words) :
    pair.1 ∈ words ∧ pair.2 ∈ words := by
  induction words using pairUp.induct with
  | case1 sessionAlias id rest ih =>
    rcases List.mem_cons.mp inside with rfl | later
    · simp
    · exact (ih later).imp (fun held => by simp [held]) (fun held => by simp [held])
  | case2 words short =>
    rw [pairUp] at inside
    · cases inside
    · exact short

theorem tokens_token {text : String} (token : Token text) : tokens (· == ' ') text = [text] :=
  tokens_self token.1 (plain_iff.mpr token.2)

private theorem token_of_tokens {text word : String} (inside : word ∈ tokens (· == ' ') text) : Token word := by
  refine ⟨?_,plain_iff.mp (tokens_plain inside)⟩
  obtain ⟨part,listed,rfl⟩ := List.mem_map.mp inside
  intro empty
  have shown : part = [] := by simpa using congrArg String.toList empty
  subst shown
  simp at listed

theorem token_default : Token DEFAULT_ALIAS := by decide

/-- Aliases and ids without blanks, as the strategy reads and writes them. -/
def WellFormed (sessions : Sessions) : Prop := ∀ pair ∈ sessions.pairs, Token pair.1 ∧ Token pair.2

instance (sessions : Sessions) : Decidable (WellFormed sessions) := List.decidableBAll _ _

namespace CookieHttpSessionStrategy

variable (strategy : CookieHttpSessionStrategy)

/-- The cookie's text as the map it stands for. -/
def read (value : Option String) : Sessions :=
  match tokens (· == ' ') (value.getD "") with
  | [id] => .single DEFAULT_ALIAS id
  | words => .ofPairs (pairUp words)

/-- The sessions of a browser with this jar. -/
def sessionsOf (jar : Jar) : Sessions := read ((jar.get strategy.cookieName).map StoredCookie.value)

/-- The request is one that the session cookie goes with. -/
def Sent (jar : Jar) (isSecure : Bool) : Prop :=
  ∀ cookie ∈ jar.get strategy.cookieName, cookie.secure = true → isSecure = true

private theorem lookup_sent {jar : Jar} {isSecure : Bool} {name : String}
    (sent : ∀ cookie ∈ jar.get name, cookie.secure = true → isSecure = true) :
    (jar.sent isSecure).lookup name = (jar.get name).map StoredCookie.value := by
  unfold LinkedMap.get Jar.sent at *
  generalize jar.pairs = pairs at sent
  induction pairs with
  | nil => rfl
  | cons pair rest ih =>
    rw [LinkedMap.lookup_pair] at sent ⊢
    by_cases same : name = pair.1
    · rw [if_pos same] at sent ⊢
      have taken : (!pair.2.secure || isSecure) = true := by
        cases secure : pair.2.secure with
        | false => rfl
        | true => exact sent pair.2 rfl secure
      rw [List.filter_cons,if_pos taken,List.map_cons,LinkedMap.lookup_pair,if_pos same]
      rfl
    · rw [if_neg same] at sent ⊢
      rw [List.filter_cons]
      split
      · rw [List.map_cons,LinkedMap.lookup_pair,if_neg same]
        exact ih sent
      · exact ih sent

theorem getSessionIds_request {jar : Jar} {visit : Visit} (sent : strategy.Sent jar visit.isSecure) :
    strategy.getSessionIds (jar.request visit) = strategy.sessionsOf jar := by
  have found : getCookie (jar.request visit) strategy.cookieName =
      (jar.get strategy.cookieName).map StoredCookie.value := by
    rw [← lookup_sent sent]
    unfold getCookie Jar.request
    cases jar.sent visit.isSecure <;> rfl
  unfold getSessionIds sessionsOf read
  rw [found]

theorem read_wellFormed (value : Option String) : WellFormed (read value) := by
  have words : ∀ word ∈ tokens (· == ' ') (value.getD ""), Token word := fun word => token_of_tokens
  unfold read
  split
  next id one =>
    intro pair inside
    obtain rfl := List.mem_singleton.mp inside
    exact ⟨token_default,words id (by rw [one]; exact List.mem_singleton_self id)⟩
  next =>
    intro pair inside
    obtain ⟨first,second⟩ := mem_pairUp (LinkedMap.mem_ofPairs inside)
    exact ⟨words _ first,words _ second⟩

theorem tokens_chained {sessions : Sessions} (wellFormed : WellFormed sessions) :
    tokens (· == ' ') (chain ' ' (sessions.pairs.flatMap fun pair => [pair.1,pair.2])) =
      sessions.pairs.flatMap fun pair => [pair.1,pair.2] := by
  rw [tokens_chain (by decide)]
  have each : ∀ word ∈ sessions.pairs.flatMap fun pair => [pair.1,pair.2], Token word := by
    intro word inside
    obtain ⟨pair,held,which⟩ := List.mem_flatMap.mp inside
    obtain ⟨first,second⟩ := wellFormed pair held
    rcases List.mem_cons.mp which with rfl | last
    · exact first
    · rw [List.mem_singleton.mp last]
      exact second
  rw [List.flatMap_congr fun word inside => tokens_token (each word inside)]
  exact List.flatMap_singleton' _

theorem receive_value (jar : Jar) (request : Request) {sessions : Sessions} (held : sessions.pairs ≠ []) :
    (jar.receive (strategy.createSessionCookie request sessions)).get strategy.cookieName =
      some ⟨(strategy.createSessionCookie request sessions).value,request.isSecure⟩ := by
  have named : (strategy.createSessionCookie request sessions).name = strategy.cookieName ∧
      (strategy.createSessionCookie request sessions).secure = request.isSecure ∧
      (strategy.createSessionCookie request sessions).maxAge ≠ 0 := by
    unfold createSessionCookie
    split
    next none => exact absurd none held
    all_goals exact ⟨rfl,rfl,by simp⟩
  rw [Jar.receive,if_neg named.2.2,LinkedMap.get_put,named.1,named.2.1,if_pos rfl]

theorem receive_none (jar : Jar) (request : Request) :
    (jar.receive (strategy.createSessionCookie request .empty)).get strategy.cookieName = none := by
  have expired : (strategy.createSessionCookie request .empty).maxAge = 0 := rfl
  rw [Jar.receive,if_pos expired,LinkedMap.get_remove]
  exact if_pos rfl

/-- A cookie that has come back goes with the requests of the scheme it came by. -/
theorem receive_sent (jar : Jar) (request : Request) (sessions : Sessions) :
    strategy.Sent (jar.receive (strategy.createSessionCookie request sessions)) request.isSecure := by
  intro cookie stored secure
  by_cases none : sessions.pairs = []
  · obtain rfl : sessions = .empty := LinkedMap.ext none
    rw [receive_none] at stored
    cases stored
  · rw [receive_value strategy jar request none] at stored
    cases stored
    exact secure

/-- A cookie that comes back is read as the sessions it was made of, settled. -/
theorem read_receive (jar : Jar) (request : Request) {sessions : Sessions} (wellFormed : WellFormed sessions) :
    strategy.sessionsOf (jar.receive (strategy.createSessionCookie request sessions)) =
      Sessions.settle sessions := by
  unfold sessionsOf
  match shape : sessions.pairs with
  | [] =>
    have none : sessions = .empty := LinkedMap.ext shape
    subst none
    rw [receive_none]
    rfl
  | [(sessionAlias,id)] =>
    have token : Token id := (wellFormed (sessionAlias,id) (by simp [shape])).2
    rw [receive_value strategy jar request (by simp [shape])]
    unfold createSessionCookie Sessions.settle read
    rw [shape,Option.map_some,Option.getD_some,tokens_token token]
  | first::second::rest =>
    have words := tokens_chained wellFormed
    have whole := LinkedMap.ofPairs_pairs sessions
    rw [receive_value strategy jar request (by simp [shape])]
    unfold createSessionCookie Sessions.settle read
    rw [shape] at words whole ⊢
    rw [Option.map_some,Option.getD_some,words]
    change LinkedMap.ofPairs (pairUp ((first::second::rest).flatMap fun pair => [pair.1,pair.2])) = sessions
    rw [pairUp_flatMap,whole]

theorem receive_other (jar : Jar) (request : Request) (sessions : Sessions) {name : String}
    (other : name ≠ strategy.cookieName) :
    (jar.receive (strategy.createSessionCookie request sessions)).get name = jar.get name := by
  have named : (strategy.createSessionCookie request sessions).name = strategy.cookieName := by
    unfold createSessionCookie
    split <;> rfl
  unfold Jar.receive
  split
  · rw [LinkedMap.get_remove,named,if_neg other]
  · rw [LinkedMap.get_put,named,if_neg other]

theorem settle_eq_iff {sessions : Sessions} : sessions.settle = sessions ↔
    ∀ sessionAlias id, sessions.pairs = [(sessionAlias,id)] → sessionAlias = DEFAULT_ALIAS := by
  constructor
  · intro same sessionAlias id shape
    have pairs := congrArg LinkedMap.pairs same
    rw [Sessions.settle,shape] at pairs
    exact congrArg Prod.fst (List.cons.inj pairs).1.symm
  · intro default
    unfold Sessions.settle
    split
    next sessionAlias id shape =>
      obtain rfl := default sessionAlias id shape
      exact LinkedMap.ext shape.symm
    next => rfl

theorem settle_length (sessions : Sessions) : sessions.settle.pairs.length = sessions.pairs.length := by
  unfold Sessions.settle
  split
  next shape => rw [shape]; rfl
  next => rfl

/-- What a cookie is made of can be read back unless it is one session under an alias
of its own. -/
theorem sessionsOf_receive_iff (jar : Jar) (request : Request) {sessions : Sessions}
    (wellFormed : WellFormed sessions) :
    strategy.sessionsOf (jar.receive (strategy.createSessionCookie request sessions)) = sessions ↔
      ∀ sessionAlias id, sessions.pairs = [(sessionAlias,id)] → sessionAlias = DEFAULT_ALIAS := by
  rw [strategy.read_receive jar request wellFormed,settle_eq_iff]

theorem sessionsOf_receive_two : sessionsOf {} (Jar.receive .empty (createSessionCookie {}
    {cookies := none,parameter := fun _ => none,isSecure := true} ⟨[("0","a"),("1","b")],by decide⟩)) =
      ⟨[("0","a"),("1","b")],by decide⟩ := by
  apply (sessionsOf_receive_iff {} .empty _ (by decide)).mpr
  intro sessionAlias id shape
  cases shape

theorem sessionsOf_wellFormed (jar : Jar) : WellFormed (strategy.sessionsOf jar) := read_wellFormed _

def aliasOf (visit : Visit) : String :=
  strategy.getCurrentSessionAlias {cookies := none,parameter := visit.parameter,isSecure := visit.isSecure}

private theorem aliasPattern_token {text : String} (matched : ALIAS_PATTERN text = true) : Token text := by
  simp only [ALIAS_PATTERN,Bool.and_eq_true,decide_eq_true_eq] at matched
  constructor
  · rintro rfl
    simp at matched
  · intro blank
    have bad := List.all_eq_true.mp matched.2 ' ' blank
    revert bad
    decide

theorem getCurrentSessionAlias_token (request : Request) : Token (strategy.getCurrentSessionAlias request) := by
  unfold getCurrentSessionAlias
  split
  · exact token_default
  · split
    · exact token_default
    · split
      next matched => exact aliasPattern_token matched
      next => exact token_default

theorem put_wellFormed {sessions : Sessions} (wellFormed : WellFormed sessions) {sessionAlias id : String}
    (named : Token sessionAlias) (token : Token id) : WellFormed (sessions.put sessionAlias id) := by
  intro pair inside
  rcases LinkedMap.mem_putPairs inside with rfl | old
  · exact ⟨named,token⟩
  · exact wellFormed pair old

theorem remove_wellFormed {sessions : Sessions} (wellFormed : WellFormed sessions) (sessionAlias : String) :
    WellFormed (sessions.remove sessionAlias) :=
  fun pair inside => wellFormed pair (List.mem_of_mem_filter inside)

/-- While a request is answered: it is still the request that came, apart from the
ids written, and the response so far leaves the browser with the abstract outcome. -/
structure Answering (jar : Jar) (visit : Visit) (concrete : Request × List Cookie)
    (outcome : List String × Sessions) : Prop where
  request : concrete.1 = {jar.request visit with sessionIdsWritten := outcome.1}
  outcome : strategy.sessionsOf (concrete.2.foldl Jar.receive jar) = outcome.2
  others : ∀ name, name ≠ strategy.cookieName → (concrete.2.foldl Jar.receive jar).get name = jar.get name
  sent : strategy.Sent (concrete.2.foldl Jar.receive jar) visit.isSecure

private theorem answering_add {jar : Jar} {visit : Visit} {concrete : Request × List Cookie}
    {outcome : List String × Sessions} (answering : strategy.Answering jar visit concrete outcome)
    {written : List String} {sessions : Sessions} (wellFormed : WellFormed sessions) :
    strategy.Answering jar visit
      ({jar.request visit with sessionIdsWritten := written},
        concrete.2 ++ [strategy.createSessionCookie {jar.request visit with sessionIdsWritten := written} sessions])
      (written,Sessions.settle sessions) where
  request := rfl
  outcome := by
    rw [List.foldl_append,List.foldl_cons,List.foldl_nil]
    exact strategy.read_receive _ _ wellFormed
  others := by
    intro name other
    rw [List.foldl_append,List.foldl_cons,List.foldl_nil,strategy.receive_other _ _ _ other]
    exact answering.others name other
  sent := by
    rw [List.foldl_append,List.foldl_cons,List.foldl_nil]
    exact strategy.receive_sent _ _ _

theorem handle_answering {jar : Jar} {visit : Visit} (sent : strategy.Sent jar visit.isSecure) {concrete : Request × List Cookie}
    {outcome : List String × Sessions} (answering : strategy.Answering jar visit concrete outcome)
    (event : SessionEvent) :
    strategy.Answering jar visit (strategy.handle concrete event)
      ((strategy.sessionsOf jar).handle (strategy.aliasOf visit) outcome event) := by
  obtain ⟨request,response⟩ := concrete
  obtain ⟨written,sessions⟩ := outcome
  obtain rfl : request = {jar.request visit with sessionIdsWritten := written} := answering.request
  have read (written : List String) :
      strategy.getSessionIds {jar.request visit with sessionIdsWritten := written} = strategy.sessionsOf jar :=
    strategy.getSessionIds_request sent
  cases event with
  | new session =>
    by_cases repeated : session.id ∈ written
    · rw [handle,onNewSession,if_pos repeated,Sessions.handle,if_pos repeated]
      exact answering
    · rw [handle,onNewSession,if_neg repeated,Sessions.handle,if_neg repeated]
      dsimp only
      rw [read]
      exact strategy.answering_add answering (put_wellFormed (strategy.sessionsOf_wellFormed jar)
        (strategy.getCurrentSessionAlias_token _) session.token)
  | invalidate =>
    rw [handle,onInvalidateSession,Sessions.handle]
    dsimp only
    rw [read]
    exact strategy.answering_add answering (remove_wellFormed (strategy.sessionsOf_wellFormed jar) _)

theorem visit_answering {jar : Jar} {visit : Visit} (sent : strategy.Sent jar visit.isSecure) :
    strategy.Answering jar visit (final strategy.handle (jar.request visit,[]) visit.events)
      (final ((strategy.sessionsOf jar).handle (strategy.aliasOf visit)) ([],strategy.sessionsOf jar)
        visit.events) := by
  have start : strategy.Answering jar visit (jar.request visit,[]) ([],strategy.sessionsOf jar) :=
    ⟨rfl,rfl,fun _ _ => rfl,sent⟩
  have answered := final_simulates (fun concrete outcome event answering =>
    @handle_answering strategy jar visit sent concrete outcome answering event) _ _ visit.events start
  exact answered

/-- The session cookie goes with the first request, and once one is secure all later ones are. -/
def Upgrades (jar : Jar) : List Visit → Prop
  | [] => True
  | visit::rest => strategy.Sent jar visit.isSecure ∧
      (visit::rest).IsChain fun earlier later => earlier.isSecure = true → later.isSecure = true

private theorem upgrades_visit {jar : Jar} {visit : Visit} {rest : List Visit}
    (upgrades : strategy.Upgrades jar (visit::rest)) : strategy.Upgrades (strategy.visit jar visit) rest := by
  obtain ⟨sent,chained⟩ := upgrades
  cases rest with
  | nil => trivial
  | cons next rest =>
    rw [List.isChain_cons_cons] at chained
    refine ⟨fun cookie stored secure => chained.1 ?_,chained.2⟩
    exact (strategy.visit_answering sent).sent cookie stored secure

/-- Over any requests a browser makes, with any session events in each, its cookie
stands for the sessions that the events say, a request is given the one under its
alias, and the other cookies stay. -/
theorem browse_refines (jar : Jar) (visits : List Visit) (upgrades : strategy.Upgrades jar visits) :
    strategy.sessionsOf (final strategy.visit jar visits) =
        final (fun sessions visit => Sessions.visit sessions (strategy.aliasOf visit) visit.events)
          (strategy.sessionsOf jar) visits ∧
      (∀ next : Visit, strategy.Sent (final strategy.visit jar visits) next.isSecure →
        strategy.getRequestedSessionId ((final strategy.visit jar visits).request next) =
          (final (fun sessions visit => Sessions.visit sessions (strategy.aliasOf visit) visit.events)
            (strategy.sessionsOf jar) visits).get (strategy.aliasOf next)) ∧
      ∀ name, name ≠ strategy.cookieName → (final strategy.visit jar visits).get name = jar.get name := by
  induction visits generalizing jar with
  | nil =>
    refine ⟨rfl,fun next sent => ?_,fun _ _ => rfl⟩
    rw [final_nil] at sent ⊢
    rw [getRequestedSessionId,strategy.getSessionIds_request sent]
    rfl
  | cons visit rest ih =>
    have answered := strategy.visit_answering upgrades.1
    obtain ⟨later,requested,kept⟩ := ih (strategy.visit jar visit) (strategy.upgrades_visit upgrades)
    have outcome : strategy.sessionsOf (strategy.visit jar visit) =
      Sessions.visit (strategy.sessionsOf jar) (strategy.aliasOf visit) visit.events := answered.outcome
    rw [outcome] at later requested
    exact ⟨later,requested,fun name other => (kept name other).trans (answered.others name other)⟩

/-- A login over http, a second one over https, and the end of the first session. -/
theorem browse_refines_upgraded :
    sessionsOf {} (final (visit {}) .empty [⟨fun _ => none,false,[.new ⟨"a",by decide⟩]⟩,
      ⟨fun _ => some "1",true,[.new ⟨"b",by decide⟩]⟩,⟨fun _ => none,true,[.invalidate]⟩]) = .single "0" "b" :=
  (browse_refines {} .empty [⟨fun _ => none,false,[.new ⟨"a",by decide⟩]⟩,
    ⟨fun _ => some "1",true,[.new ⟨"b",by decide⟩]⟩,⟨fun _ => none,true,[.invalidate]⟩]
    ⟨nofun,by simp⟩).1.trans (by decide)

end CookieHttpSessionStrategy

end YzFramework.Http

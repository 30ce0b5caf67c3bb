import YzFramework.Http.CookieHttpSessionStrategy
import YzFramework.Library.Word
import Mathlib.Data.BitVec

/-! The aliases that `CookieHttpSessionStrategy` gives to further sessions: one more
than the largest alias that reads as a number in base 16. -/
namespace YzFramework.Http
open Library Library.Run Library.Text Library.Word
open Nat (toDigits digitChar)

/-- `Long.toHexString`. -/
def toHexString (value : Long) : String := String.ofList (toDigits 16 value.toNat)

variable (digits : Digits 16)

/-- `Long.decode` of the text behind `0x`; `none` is its exception. -/
def decode (hex : String) : Option Long :=
  match hex.toList with
  | '-'::_ => none
  | '+'::_ => none
  | text => (digits.unsigned text).bind fun n => if n < 2^63 then some (BitVec.ofNat 64 n) else none

def safeParse (hex : String) : Long := (decode digits hex).getD 0

def larger (lastAlias : Long) (sessionAlias : String) : Long :=
  let selectedAlias := safeParse digits sessionAlias
  if lastAlias.slt selectedAlias then selectedAlias else lastAlias

namespace CookieHttpSessionStrategy

variable (strategy : CookieHttpSessionStrategy)

def getNewSessionAlias (request : Request) : String :=
  let sessionAliases := (strategy.getSessionIds request).keys
  if sessionAliases.isEmpty then DEFAULT_ALIAS
  else toHexString (sessionAliases.foldl (larger digits) 0+1)

end CookieHttpSessionStrategy

theorem zero_small : (0 : Long).toNat < 2^63 := by decide

theorem safeParse_small (hex : String) : (safeParse digits hex).toNat < 2^63 := by
  have parsed : ∀ value, decode digits hex = some value → value.toNat < 2^63 := by
    intro value
    unfold decode
    split
    · rintro ⟨⟩
    · rintro ⟨⟩
    · intro read
      obtain ⟨n,_,checked⟩ := Option.bind_eq_some_iff.mp read
      split at checked
      next small =>
        obtain rfl := Option.some.inj checked
        rw [BitVec.toNat_ofNat]
        omega
      next => cases checked
  unfold safeParse
  cases read : decode digits hex with
  | none => exact zero_small
  | some value => exact parsed value read

private theorem slt_iff {left right : Long} (small : left.toNat < 2^63) (small' : right.toNat < 2^63) :
    left.slt right = true ↔ left.toNat < right.toNat := by
  rw [BitVec.slt_iff_toInt_lt,toInt_of_small left (by omega),toInt_of_small right (by omega)]
  omega

/-- The loop ends with an upper bound that is itself zero or a number read. -/
theorem foldl_larger (aliases : List String) {start : Long} (small : start.toNat < 2^63) :
    (aliases.foldl (larger digits) start).toNat < 2^63 ∧
      start.toNat ≤ (aliases.foldl (larger digits) start).toNat ∧
      (∀ sessionAlias ∈ aliases,
        (safeParse digits sessionAlias).toNat ≤ (aliases.foldl (larger digits) start).toNat) ∧
      (aliases.foldl (larger digits) start = start ∨
        ∃ sessionAlias ∈ aliases, safeParse digits sessionAlias = aliases.foldl (larger digits) start) := by
  induction aliases generalizing start with
  | nil => exact ⟨small,le_refl _,by simp,Or.inl rfl⟩
  | cons first rest ih =>
    have parsed := safeParse_small digits first
    by_cases grows : start.slt (safeParse digits first) = true
    · have step : larger digits start first = safeParse digits first := if_pos grows
      obtain ⟨bound,above,all,reached⟩ := ih parsed
      rw [List.foldl_cons,step]
      rw [slt_iff small parsed] at grows
      refine ⟨bound,by omega,List.forall_mem_cons.mpr ⟨above,all⟩,Or.inr ?_⟩
      rcases reached with same | ⟨sessionAlias,inside,same⟩
      · exact ⟨first,List.mem_cons_self,same.symm⟩
      · exact ⟨sessionAlias,List.mem_cons_of_mem _ inside,same⟩
    · have step : larger digits start first = start := if_neg grows
      obtain ⟨bound,above,all,reached⟩ := ih small
      rw [List.foldl_cons,step]
      rw [slt_iff small parsed] at grows
      refine ⟨bound,above,List.forall_mem_cons.mpr ⟨by omega,all⟩,reached.imp id ?_⟩
      rintro ⟨sessionAlias,inside,same⟩
      exact ⟨sessionAlias,List.mem_cons_of_mem _ inside,same⟩

theorem not_sign {n : ℕ} {c : Char} (inside : c ∈ toDigits 16 n) : wordChar c = true := by
  induction n using Nat.strong_induction_on with
  | _ n ih =>
    have each : ∀ d, d < 16 → wordChar (digitChar d) = true := by decide
    by_cases small : n < 16
    · rw [Nat.toDigits_of_lt_base small,List.mem_singleton] at inside
      rw [inside]
      exact each n small
    · rw [Nat.toDigits_of_base_le (by decide) (by omega),List.mem_append,List.mem_singleton] at inside
      rcases inside with upper | rfl
      · exact ih (n/16) (by omega) upper
      · exact each _ (Nat.mod_lt n (by decide))

theorem safeParse_toHexString {value : Long} (small : value.toNat < 2^63) :
    safeParse digits (toHexString value) = value := by
  have read : decode digits (toHexString value) = some value := by
    unfold decode toHexString
    rw [String.toList_ofList]
    split
    next rest shape => exact absurd (not_sign (c := '-') (by rw [shape]; exact List.mem_cons_self)) (by decide)
    next rest shape => exact absurd (not_sign (c := '+') (by rw [shape]; exact List.mem_cons_self)) (by decide)
    next =>
      rw [digits.unsigned_toDigits (by decide),Option.bind_some,if_pos small,BitVec.ofNat_toNat,BitVec.setWidth_eq]
  rw [safeParse,read,Option.getD_some]

/-- An alias of this form passes the pattern, so that a request can select it. -/
theorem aliasPattern_toHexString (value : Long) : ALIAS_PATTERN (toHexString value) = true := by
  have shown : 0 < (toDigits 16 value.toNat).length := Nat.length_toDigits_pos
  have short : (toDigits 16 value.toNat).length ≤ 16 :=
    (Nat.length_toDigits_le_iff (by decide) (by decide)).mpr value.isLt
  have words : (toDigits 16 value.toNat).all (fun c => wordChar c || c == '-') = true :=
    List.all_eq_true.mpr fun c inside => by rw [not_sign inside,Bool.true_or]
  rw [ALIAS_PATTERN,toHexString,String.toList_ofList,words]
  simp only [Bool.and_true,Bool.and_eq_true,decide_eq_true_eq]
  omega

/-- The number one more than the largest one is nobody's alias, unless it is too large to
be read back: then its text may be there already. -/
def Exhausted (aliases : List String) : Prop :=
  (∃ sessionAlias ∈ aliases, (safeParse digits sessionAlias).toNat = 2^63-1) ∧ "8000000000000000" ∈ aliases

instance (aliases : List String) : Decidable (Exhausted digits aliases) := inferInstanceAs (Decidable (_ ∧ _))

private theorem next_mem (aliases : List String) :
    toHexString (aliases.foldl (larger digits) 0+1) ∈ aliases ↔ Exhausted digits aliases := by
  obtain ⟨bound,_,all,reached⟩ := foldl_larger digits aliases zero_small
  have next : (aliases.foldl (larger digits) 0+1).toNat = (aliases.foldl (larger digits) 0).toNat+1 := by
    rw [BitVec.toNat_add]
    change ((aliases.foldl (larger digits) 0).toNat+1) % 2^64 = _
    omega
  by_cases last : (aliases.foldl (larger digits) 0).toNat = 2^63-1
  · have name : toHexString (aliases.foldl (larger digits) 0+1) = "8000000000000000" := by
      rw [toHexString,next,last]
      decide
    rw [name]
    refine ⟨fun inside => ⟨?_,inside⟩,And.right⟩
    rcases reached with zero | ⟨sessionAlias,inside,same⟩
    · rw [zero] at last
      exact absurd last (by decide)
    · exact ⟨sessionAlias,inside,by rw [same]; exact last⟩
  · have small : (aliases.foldl (larger digits) 0+1).toNat < 2^63 := by omega
    constructor
    · intro inside
      have above := all _ inside
      rw [safeParse_toHexString digits small] at above
      omega
    · rintro ⟨⟨sessionAlias,inside,largest⟩,_⟩
      have above := all sessionAlias inside
      omega

namespace CookieHttpSessionStrategy

variable (strategy : CookieHttpSessionStrategy)

theorem getNewSessionAlias_mem {jar : Jar} {visit : Visit} (sent : strategy.Sent jar visit.isSecure) :
    strategy.getNewSessionAlias digits (jar.request visit) ∈ (strategy.sessionsOf jar).keys ↔
      Exhausted digits (strategy.sessionsOf jar).keys := by
  unfold getNewSessionAlias
  rw [strategy.getSessionIds_request sent]
  change (if (strategy.sessionsOf jar).keys.isEmpty then DEFAULT_ALIAS else _) ∈ _ ↔ _
  by_cases none : (strategy.sessionsOf jar).keys = []
  · rw [none]
    simp [Exhausted]
  · rw [if_neg (by simpa using none)]
    exact next_mem digits _

theorem getNewSessionAlias_pattern (request : Request) :
    ALIAS_PATTERN (strategy.getNewSessionAlias digits request) = true := by
  unfold getNewSessionAlias
  dsimp only
  split
  · decide
  · exact aliasPattern_toHexString _

/-- A login under the new alias adds a session behind those there are, which stay as they
are, exactly when the numbers are not exhausted. -/
theorem newSession_added_iff {sessionParam : String} (configured : strategy.sessionParam = some sessionParam)
    (jar : Jar) (visit : Visit) (sent : strategy.Sent jar visit.isSecure) (session : Session)
    (opened : visit.events = [.new session])
    (selected : visit.parameter sessionParam = some (strategy.getNewSessionAlias digits (jar.request visit))) :
    (strategy.sessionsOf (strategy.visit jar visit)).pairs = (strategy.sessionsOf jar).pairs ++
        [(strategy.getNewSessionAlias digits (jar.request visit),session.id)] ↔
      ¬ Exhausted digits (strategy.sessionsOf jar).keys := by
  have refined := (strategy.visit_answering sent).outcome
  have current : strategy.aliasOf visit = strategy.getNewSessionAlias digits (jar.request visit) := by
    simp only [aliasOf,getCurrentSessionAlias,configured,selected,
      strategy.getNewSessionAlias_pattern digits,if_pos]
  change strategy.sessionsOf (strategy.visit jar visit) = _ at refined
  rw [opened,current] at refined
  rw [refined,← strategy.getNewSessionAlias_mem digits sent]
  change (Sessions.settle ((strategy.sessionsOf jar).put _ session.id)).pairs = _ ↔ _
  constructor
  · intro added inside
    have keys := LinkedMap.keys_put (strategy.sessionsOf jar)
      (strategy.getNewSessionAlias digits (jar.request visit)) session.id
    rw [if_pos inside] at keys
    have same := congrArg List.length keys
    have longer := congrArg List.length added
    simp only [settle_length,LinkedMap.keys,List.length_map,List.length_append,List.length_singleton] at same longer
    omega
  · intro fresh
    have put := LinkedMap.put_fresh fresh session.id
    rw [settle_eq_iff.mpr,put]
    intro sessionAlias id shape
    rw [put] at shape
    have alone : (strategy.sessionsOf jar).pairs = [] := by
      have short := congrArg List.length shape
      rw [List.length_append] at short
      exact List.eq_nil_of_length_eq_zero (by simpa using short)
    rw [alone,List.nil_append] at shape
    have first : strategy.getNewSessionAlias digits (jar.request visit) = DEFAULT_ALIAS := by
      have none : (strategy.getSessionIds (jar.request visit)).keys = [] := by
        rw [strategy.getSessionIds_request sent]
        exact congrArg (List.map Prod.fst) alone
      rw [getNewSessionAlias,none]
      rfl
    rw [← first]
    exact (congrArg Prod.fst (List.cons.inj shape).1).symm

/-- A login behind a link with the alias that is new when the link is made. -/
def link (secure : Bool) (jar : Jar) (session : Session) : Visit where
  parameter _ := some (strategy.getNewSessionAlias digits
    (jar.request {parameter := fun _ => none,isSecure := secure,events := []}))
  isSecure := secure
  events := [.new session]

def login (secure : Bool) (jar : Jar) (session : Session) : Jar :=
  strategy.visit jar (strategy.link digits secure jar session)

theorem login_sent (secure : Bool) (jar : Jar) (session : Session) (sent : strategy.Sent jar secure) :
    strategy.Sent (strategy.login digits secure jar session) secure := by
  have answered : strategy.Answering jar (strategy.link digits secure jar session) _ _ := strategy.visit_answering sent
  exact answered.sent

theorem newSession_added_second :
    (sessionsOf {} (login Digits.hex {} true ⟨[("SESSIONID",⟨"a",true⟩)],by decide⟩ ⟨"b",by decide⟩)).pairs =
      [("0","a"),("1","b")] :=
  ((newSession_added_iff Digits.hex {} rfl ⟨[("SESSIONID",⟨"a",true⟩)],by decide⟩ (link Digits.hex {} true
    ⟨[("SESSIONID",⟨"a",true⟩)],by decide⟩ ⟨"b",by decide⟩) (fun _ _ _ => rfl) ⟨"b",by decide⟩ rfl rfl).mpr (by decide +kernel)).trans (by decide +kernel)

end CookieHttpSessionStrategy

def numbered (i : ℕ) : String := toHexString (BitVec.ofNat 64 i)

theorem safeParse_numbered {i : ℕ} (small : i < 2^63) : (safeParse digits (numbered i)).toNat = i := by
  have value : (BitVec.ofNat 64 i).toNat = i := by
    rw [BitVec.toNat_ofNat]
    omega
  rw [numbered,safeParse_toHexString digits (by omega),value]

private theorem foldl_numbered {n : ℕ} (some : 0 < n) (few : n ≤ 2^63) :
    ((List.range n).map numbered).foldl (larger digits) 0 = BitVec.ofNat 64 (n-1) := by
  obtain ⟨_,_,all,reached⟩ := foldl_larger digits ((List.range n).map numbered) zero_small
  have above := all (numbered (n-1)) (List.mem_map_of_mem (List.mem_range.mpr (by omega)))
  rw [safeParse_numbered digits (by omega)] at above
  apply BitVec.eq_of_toNat_eq
  rw [BitVec.toNat_ofNat]
  rcases reached with zero | ⟨_,inside,same⟩
  · rw [zero] at above ⊢
    change n-1 ≤ 0 at above
    change 0 = _
    omega
  · obtain ⟨i,below,rfl⟩ := List.mem_map.mp inside
    rw [List.mem_range] at below
    rw [← same,safeParse_numbered digits (by omega)] at above ⊢
    omega

theorem numbered_fresh {n : ℕ} (few : n ≤ 2^63) : ¬ Exhausted digits ((List.range n).map numbered) := by
  rintro ⟨_,inside⟩
  obtain ⟨i,below,same⟩ := List.mem_map.mp inside
  rw [List.mem_range] at below
  have value : (BitVec.ofNat 64 i).toNat = i := by
    rw [BitVec.toNat_ofNat]
    omega
  have last : "8000000000000000" = String.ofList (toDigits 16 (2^63)) := by decide
  rw [numbered,toHexString,value,last,String.ofList_inj] at same
  have read := digits.unsigned_toDigits (by decide) i
  rw [same,digits.unsigned_toDigits (by decide),Option.some.injEq] at read
  omega

namespace CookieHttpSessionStrategy

variable (strategy : CookieHttpSessionStrategy)

theorem getNewSessionAlias_numbered {jar : Jar} {visit : Visit} (sent : strategy.Sent jar visit.isSecure)
    {n : ℕ} (few : n ≤ 2^63)
    (keys : (strategy.sessionsOf jar).keys = (List.range n).map numbered) :
    strategy.getNewSessionAlias digits (jar.request visit) = numbered n := by
  have names : (strategy.getSessionIds (jar.request visit)).keys = (List.range n).map numbered := by
    rw [strategy.getSessionIds_request sent]
    exact keys
  unfold getNewSessionAlias
  rw [names]
  cases n with
  | zero => rfl
  | succ n =>
    have some : ((List.range (n+1)).map numbered).isEmpty = false := by simp
    dsimp only
    rw [some,if_neg (by decide),foldl_numbered digits (by omega) few,Nat.add_sub_cancel,numbered,
      BitVec.ofNat_add]
    rfl

/-- Logins one after another over one scheme, each under the new alias, number the sessions
from zero in base 16 and keep them all. -/
theorem logins_numbered {sessionParam : String} (configured : strategy.sessionParam = some sessionParam)
    {jar : Jar} (noSession : (strategy.sessionsOf jar).pairs = []) {secure : Bool} (sent : strategy.Sent jar secure)
    (sessions : List Session) (few : sessions.length ≤ 2^63) :
    (strategy.sessionsOf (final (strategy.login digits secure) jar sessions)).keys =
        (List.range sessions.length).map numbered ∧
      (strategy.sessionsOf (final (strategy.login digits secure) jar sessions)).values = sessions.map Session.id := by
  have along (sessions : List Session) : strategy.Sent (final (strategy.login digits secure) jar sessions) secure :=
    @final_always _ _ (strategy.login digits secure) (strategy.Sent · secure)
      (strategy.login_sent digits secure) jar sessions sent
  induction sessions using List.reverseRecOn with
  | nil => simp [LinkedMap.keys,LinkedMap.values,noSession]
  | append_singleton before session ih =>
    rw [List.length_append,List.length_singleton] at few
    obtain ⟨keys,values⟩ := ih (by omega)
    have sent := along before
    rw [final,List.foldl_append,List.foldl_cons,List.foldl_nil]
    change (strategy.sessionsOf
        (strategy.login digits secure (final (strategy.login digits secure) jar before) session)).keys = _ ∧
      (strategy.sessionsOf
        (strategy.login digits secure (final (strategy.login digits secure) jar before) session)).values = _
    generalize final (strategy.login digits secure) jar before = jar at keys values sent
    have fresh : ¬ Exhausted digits (strategy.sessionsOf jar).keys := by
      rw [keys]
      exact numbered_fresh digits (by omega)
    have name : strategy.getNewSessionAlias digits (jar.request (strategy.link digits secure jar session)) =
        numbered before.length := strategy.getNewSessionAlias_numbered digits sent (by omega) keys
    have added := (strategy.newSession_added_iff digits configured jar (strategy.link digits secure jar session) sent
      session rfl rfl).mpr fresh
    rw [name] at added
    rw [login,LinkedMap.keys,LinkedMap.values,added,List.map_append,List.map_append,List.map_append]
    rw [List.length_append,List.length_singleton,List.range_succ,List.map_append,← keys,← values]
    exact ⟨rfl,rfl⟩

theorem logins_numbered_two :
    (sessionsOf {} (final (login Digits.hex {} true) .empty [⟨"a",by decide⟩,⟨"b",by decide⟩])).keys =
        (List.range 2).map numbered ∧
      (sessionsOf {} (final (login Digits.hex {} true) .empty [⟨"a",by decide⟩,⟨"b",by decide⟩])).values =
        ["a","b"] :=
  logins_numbered Digits.hex {} rfl (by decide +kernel) (fun _ stored => by cases stored) [⟨"a",by decide⟩,⟨"b",by decide⟩]
    (by decide)

end CookieHttpSessionStrategy

end YzFramework.Http

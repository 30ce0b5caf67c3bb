import YzFramework.Redis.Commands
import YzFramework.Library.Text

/-! `multiValueSet` and multi_value_set.lua: texts of a key and a value, each set with the
same time to live. -/
namespace YzFramework.Redis.MultiValueSet
open Library Library.Store Library.Script

/-- What becomes of a null that Spring hands to the Redis client. -/
inductive Null
  | refused
  | omitted
  | empty
deriving DecidableEq

def Null.sent (params : List (Option String)) : Null → Option (List String)
  | .refused => if none ∈ params then none else some (params.filterMap id)
  | .omitted => some (params.filterMap id)
  | .empty => some (params.map fun text => text.getD "")

/-- `SET` with `EX`, and with `NX`, `XX` or neither; an argument from a table may be nil. -/
def setEx (engine : Engine) (guard : Guard) (key value seconds : Option String) :
    Script Database Bool := fun store =>
  match key,value,seconds with
  | some key,some value,some seconds =>
    match readInteger seconds with
    | none => (.error "ERR value is not an integer or out of range",store)
    | some n =>
      if n ≤ 0 ∨ engine.expires n = false then
        (.error "ERR invalid expire time in 'set' command",store)
      else (.ok (guard.admits (store key)),write guard store key (.string ⟨value,some (1000*n)⟩))
  | _,_,_ => (.error "Lua redis() command arguments must be strings or integers",store)

/-- `string.gmatch` with `([^|]+)`. -/
def gmatch (text : String) : List String := Text.tokens (· == '|') text

/-- Whatever is not `NX` is `XX`. -/
def guardOf : Option String → Guard
  | some nx_xx => if nx_xx = "NX" then .absent else .present
  | none => .always

def loop (engine : Engine) (ARGV : List String) : List String → Script Database String
  | [] => return "OK"
  | entry::rest => do
    let kv := gmatch entry
    let _ ← setEx engine (guardOf ARGV[1]?) kv[0]? kv[1]? ARGV[0]?
    loop engine ARGV rest

/-- The keys and the arguments a script receives. -/
def received (null : Null) (keys args : List (Option String)) :
    Except String (List String × List String) :=
  match null.sent (keys++args) with
  | none => .error "NullPointerException"
  | some params =>
    if params.length < keys.length then
      .error "ERR Number of keys can't be greater than number of args"
    else .ok (params.take keys.length,params.drop keys.length)

def multiValueSet (engine : Engine) (null : Null) (keyValues : Option (List (Option String)))
    (ttl nxxx : Option String) : Script Database (Option String) :=
  match keyValues with
  | none => return none
  | some keyValues =>
    if keyValues.isEmpty then return none
    else do
      let (KEYS,ARGV) ← received null keyValues [ttl,nxxx]
      let result ← loop engine ARGV KEYS
      return some result

def nxxxOf : Guard → Option String
  | .always => none
  | .absent => some "NX"
  | .present => some "XX"

/-- The commands the call stands for, in order. -/
def setInOrder (engine : Engine) (guard : Guard) (ttl : String) :
    List (String × String) → Script Database String
  | [] => return "OK"
  | (key,value)::rest => do
    let _ ← setEx engine guard (some key) (some value) (some ttl)
    setInOrder engine guard ttl rest

def Keyed (entries : List (String × String)) : Prop :=
  ∀ entry ∈ entries, entry.1 ≠ "" ∧ '|' ∉ entry.1.toList

instance (entries : List (String × String)) : Decidable (Keyed entries) :=
  inferInstanceAs (Decidable (∀ entry ∈ entries, _ ∧ _))

def keyValuesOf (entries : List (String × String)) : List (Option String) :=
  entries.map fun entry => some (entry.1++"|"++entry.2)

/-- The call answers as the commands do and leaves what they leave. -/
def SetsInOrder (engine : Engine) (null : Null) (entries : List (String × String)) (ttl : String)
    (guard : Guard) (store : Database) : Prop :=
  let called := multiValueSet engine null (some (keyValuesOf entries)) (some ttl) (nxxxOf guard) store
  let expected := setInOrder engine guard ttl entries store
  (∀ reply, called.1 = .ok (some reply) ↔ expected.1 = .ok reply) ∧ called.2 = expected.2

/-- A call that fails leaves the store as it was. -/
def Unharmed (engine : Engine) (null : Null) (keyValues : Option (List (Option String)))
    (ttl nxxx : Option String) (store : Database) : Prop :=
  ∀ fault after, multiValueSet engine null keyValues ttl nxxx store = (.error fault,after) →
    after = store

def seconds (engine : Engine) (ttl : String) : Option ℤ :=
  (readInteger ttl).filter fun n => decide (0 < n) && engine.expires n

/-- Values have more than separators, and none at all where the value stays. -/
def Clean (guard : Guard) (store : Database) (entries : List (String × String)) : Prop :=
  (∀ entry ∈ entries, ∃ c ∈ entry.2.toList, c ≠ '|') ∧
    ∀ key value, guard.admits (store key) = true → deciding guard entries key = some value →
      '|' ∉ value.toList

/-- A null is left out, or sent empty, which is read as `XX`, while all keys are there. -/
def NullFits (null : Null) (guard : Guard) (store : Database) (entries : List (String × String)) :
    Prop :=
  guard = .always → null = .omitted ∨ null = .empty ∧ ∀ entry ∈ entries, store entry.1 ≠ none

/-- The entries before the first without a key or a value. -/
def complete : List String → List (String × String)
  | [] => []
  | entry::rest =>
    match gmatch entry with
    | key::value::_ => (key,value)::complete rest
    | _ => []

/-- Before an entry without a key or a value only what is there already is set. -/
def Harmless (engine : Engine) (null : Null) (keyValues : List (Option String))
    (ttl nxxx : Option String) (store : Database) : Prop :=
  ∀ KEYS ARGV, received null keyValues [ttl,nxxx] = .ok (KEYS,ARGV) →
    ∀ n, ARGV[0]?.bind (seconds engine) = some n → (∃ entry ∈ KEYS, (gmatch entry).length < 2) →
      ∀ key value, (guardOf ARGV[1]?).admits (store key) = true →
        deciding (guardOf ARGV[1]?) (complete KEYS) key = some value →
          store key = some (.string ⟨value,some (1000*n)⟩)

section Loops

variable {engine : Engine} {store : Database} {ttl : Option String} {n : ℤ}

theorem setEx_sets (lasting : ttl.bind (seconds engine) = some n) (guard : Guard) (key value : String) :
    setEx engine guard (some key) (some value) ttl store =
      (.ok (guard.admits (store key)),write guard store key (.string ⟨value,some (1000*n)⟩)) := by
  obtain ⟨ttl,rfl,taken⟩ := Option.bind_eq_some_iff.mp lasting
  obtain ⟨read,fit⟩ := Option.filter_eq_some_iff.mp taken
  rw [Bool.and_eq_true,decide_eq_true_eq] at fit
  have valid : ¬ (n ≤ 0 ∨ engine.expires n = false) := by simp [fit]
  simp only [setEx,read,if_neg valid]

theorem setEx_fails (guard : Guard) {key value : Option String}
    (unfit : key = none ∨ value = none ∨ ttl.bind (seconds engine) = none) :
    ∃ fault, setEx engine guard key value ttl store = (.error fault,store) := by
  unfold setEx
  split
  next key value ttl =>
    simp only [reduceCtorEq,false_or,Option.bind_some] at unfit
    split
    next => exact ⟨_,rfl⟩
    next n read =>
      have refused : n ≤ 0 ∨ engine.expires n = false := by
        have rejected := (Option.filter_eq_none_iff.mp unfit) n read
        simpa [Bool.and_eq_true,imp_iff_not_or] using rejected
      rw [if_pos refused]
      exact ⟨_,rfl⟩
  next => exact ⟨_,rfl⟩

def entryOf (n : ℤ) (value : String) : Held := .string ⟨value,some (1000*n)⟩

def entriesOf (n : ℤ) (entries : List (String × String)) : List (String × Held) :=
  entries.map fun entry => (entry.1,entryOf n entry.2)

theorem setInOrder_spec (lasting : ttl.bind (seconds engine) = some n) (guard : Guard) {text : String}
    (given : ttl = some text) (entries : List (String × String)) :
    setInOrder engine guard text entries store =
      (.ok "OK",writeAll guard (entriesOf n entries) store) := by
  subst given
  induction entries generalizing store with
  | nil => rfl
  | cons first rest ih =>
    exact (bind_ok _ (setEx_sets lasting guard first.1 first.2)).trans ih

theorem loop_spec {ARGV : List String} (lasting : ARGV[0]?.bind (seconds engine) = some n)
    (KEYS : List String) :
    ((loop engine ARGV KEYS store).1 = .ok "OK" ∧ (∀ entry ∈ KEYS, 2 ≤ (gmatch entry).length) ∨
      (∃ fault, (loop engine ARGV KEYS store).1 = .error fault) ∧
        ∃ entry ∈ KEYS, (gmatch entry).length < 2) ∧
      (loop engine ARGV KEYS store).2 =
        writeAll (guardOf ARGV[1]?) (entriesOf n (complete KEYS)) store := by
  induction KEYS generalizing store with
  | nil => exact ⟨.inl ⟨rfl,nofun⟩,rfl⟩
  | cons entry rest ih =>
    have step : loop engine ARGV (entry::rest) store = (setEx engine (guardOf ARGV[1]?)
        (gmatch entry)[0]? (gmatch entry)[1]? ARGV[0]? >>= fun _ => loop engine ARGV rest) store := rfl
    rw [List.forall_mem_cons,complete]
    rcases parts : gmatch entry with _ | ⟨key,_ | ⟨value,others⟩⟩
    · obtain ⟨fault,failed⟩ := @setEx_fails engine store ARGV[0]? (guardOf ARGV[1]?) none none (.inl rfl)
      rw [parts] at step
      rw [step.trans (bind_error _ failed)]
      exact ⟨.inr ⟨⟨fault,rfl⟩,entry,List.mem_cons_self,by simp [parts]⟩,rfl⟩
    · obtain ⟨fault,failed⟩ :=
        @setEx_fails engine store ARGV[0]? (guardOf ARGV[1]?) (some key) none (.inr (.inl rfl))
      rw [parts] at step
      rw [step.trans (bind_error _ failed)]
      exact ⟨.inr ⟨⟨fault,rfl⟩,entry,List.mem_cons_self,by simp [parts]⟩,rfl⟩
    · rw [parts] at step
      rw [step.trans (bind_ok _ (setEx_sets lasting (guardOf ARGV[1]?) key value))]
      refine ⟨ih.1.imp (fun full => ⟨full.1,by simp,full.2⟩) fun short => ⟨short.1,?_⟩,ih.2⟩
      obtain ⟨_,other,listed,below⟩ := short
      exact ⟨other,List.mem_cons_of_mem _ listed,below⟩

theorem loop_ok_iff {ARGV : List String} (lasting : ARGV[0]?.bind (seconds engine) = some n)
    (KEYS : List String) : (loop engine ARGV KEYS store).1 = .ok "OK" ↔
      ∀ entry ∈ KEYS, 2 ≤ (gmatch entry).length := by
  obtain ⟨answers,_⟩ := @loop_spec engine store n ARGV lasting KEYS
  rcases answers with ⟨ok,full⟩ | ⟨⟨fault,failed⟩,entry,listed,short⟩
  · exact iff_of_true ok full
  · rw [failed]
    exact iff_of_false nofun fun full => absurd (full entry listed) (by omega)

theorem loop_fails_iff {ARGV : List String} (lasting : ARGV[0]?.bind (seconds engine) = some n)
    (KEYS : List String) : (∃ fault, (loop engine ARGV KEYS store).1 = .error fault) ↔
      ∃ entry ∈ KEYS, (gmatch entry).length < 2 := by
  obtain ⟨answers,_⟩ := @loop_spec engine store n ARGV lasting KEYS
  rcases answers with ⟨ok,full⟩ | ⟨failed,short⟩
  · rw [ok]
    apply iff_of_false nofun
    rintro ⟨entry,listed,below⟩
    exact absurd (full entry listed) (by omega)
  · exact iff_of_true failed short

theorem loop_refuses {ARGV : List String} (unfit : ARGV[0]?.bind (seconds engine) = none)
    {KEYS : List String} (some : KEYS ≠ []) : ∃ fault, loop engine ARGV KEYS store = (.error fault,store) := by
  cases KEYS with
  | nil => contradiction
  | cons entry rest =>
    obtain ⟨fault,failed⟩ := @setEx_fails engine store ARGV[0]? (guardOf ARGV[1]?) (gmatch entry)[0]?
      (gmatch entry)[1]? (.inr (.inr unfit))
    exact ⟨fault,bind_error _ failed⟩

theorem setInOrder_refuses {text : String} (unfit : seconds engine text = none) (guard : Guard)
    {entries : List (String × String)} (some : entries ≠ []) :
    ∃ fault, setInOrder engine guard text entries store = (.error fault,store) := by
  cases entries with
  | nil => contradiction
  | cons first rest =>
    obtain ⟨fault,failed⟩ := @setEx_fails engine store (.some text) guard (.some first.1) (.some first.2)
      (.inr (.inr unfit))
    exact ⟨fault,bind_error _ failed⟩

end Loops

def cut (value : String) : String := (gmatch value).headD ""

theorem gmatch_entry {entry : String × String} (keyed : entry.1 ≠ "" ∧ '|' ∉ entry.1.toList) :
    gmatch (entry.1++"|"++entry.2) = entry.1::gmatch entry.2 :=
  Text.tokens_append keyed.1 (Text.plain_iff.mpr keyed.2) '|' rfl (by simp)

theorem gmatch_ne_nil {value : String} : gmatch value ≠ [] ↔ ∃ c ∈ value.toList, c ≠ '|' := by
  rw [gmatch,Ne,Text.tokens_eq_nil]
  simp

theorem cut_eq_iff {value : String} (some : gmatch value ≠ []) :
    cut value = value ↔ '|' ∉ value.toList := by
  constructor
  · intro same inside
    have first : cut value ∈ gmatch value := by
      obtain ⟨head,rest,parts⟩ := List.exists_cons_of_ne_nil some
      rw [cut,parts]
      exact List.mem_cons_self
    rw [same] at first
    exact absurd (Text.tokens_plain first '|' inside) (by decide)
  · intro plain
    have written : value ≠ "" := by
      rintro rfl
      exact some rfl
    rw [cut,gmatch,Text.tokens_self written (Text.plain_iff.mpr plain)]
    rfl

def cutAll (entries : List (String × String)) : List (String × String) :=
  entries.map fun entry => (entry.1,cut entry.2)

def textsOf (entries : List (String × String)) : List String :=
  entries.map fun entry => entry.1++"|"++entry.2

theorem complete_textsOf {entries : List (String × String)} (keyed : Keyed entries)
    (full : ∀ entry ∈ entries, gmatch entry.2 ≠ []) :
    complete (textsOf entries) = cutAll entries := by
  induction entries with
  | nil => rfl
  | cons first rest ih =>
    rw [Keyed,List.forall_mem_cons] at keyed
    rw [List.forall_mem_cons] at full
    have later := ih keyed.2 full.2
    obtain ⟨value,others,parts⟩ := List.exists_cons_of_ne_nil full.1
    rw [textsOf] at later ⊢
    rw [List.map_cons,complete,gmatch_entry keyed.1,parts,later]
    simp [cutAll,cut,parts]

theorem deciding_entriesOf (guard : Guard) (n : ℤ) (entries : List (String × String)) (key : String) :
    deciding guard (entriesOf n entries) key = (deciding guard entries key).map (entryOf n) :=
  deciding_map guard (entryOf n) entries key

theorem deciding_cutAll (guard : Guard) (entries : List (String × String)) (key : String) :
    deciding guard (cutAll entries) key = (deciding guard entries key).map cut :=
  deciding_map guard cut entries key

theorem entryOf_injective (n : ℤ) : Function.Injective (entryOf n) := fun _ _ same =>
  congrArg Entry.value (Held.string.inj same)

theorem writeAll_kept_iff {guard : Guard} {n : ℤ} {entries : List (String × String)} {store : Database} :
    writeAll guard (entriesOf n entries) store = store ↔ ∀ key value, guard.admits (store key) = true →
      deciding guard entries key = some value → store key = some (.string ⟨value,some (1000*n)⟩) := by
  rw [writeAll_eq_self_iff]
  constructor
  · intro there key value admitted stays
    exact there key _ admitted (by rw [deciding_entriesOf,stays]; rfl)
  · intro there key held admitted stays
    rw [deciding_entriesOf] at stays
    obtain ⟨value,decided,rfl⟩ := Option.map_eq_some_iff.mp stays
    exact there key value admitted decided

/-- Where values are cut, the stores agree if no value that stays is. -/
theorem writeAll_cut_iff (guard : Guard) (n : ℤ) (entries : List (String × String)) (store : Database) :
    writeAll guard (entriesOf n (cutAll entries)) store = writeAll guard (entriesOf n entries) store ↔
      ∀ key value, guard.admits (store key) = true → deciding guard entries key = some value →
        cut value = value := by
  constructor
  · intro same key value admitted stays
    have here := congrFun same key
    rw [writeAll_apply,writeAll_apply,if_pos admitted,if_pos admitted,deciding_entriesOf,
      deciding_entriesOf,deciding_cutAll,stays] at here
    exact entryOf_injective n (Option.some.inj here)
  · intro uncut
    funext key
    rw [writeAll_apply,writeAll_apply,deciding_entriesOf,deciding_entriesOf,deciding_cutAll]
    by_cases admitted : guard.admits (store key) = true
    · rw [if_pos admitted,if_pos admitted]
      cases stays : deciding guard entries key with
      | none => rfl
      | some value => rw [Option.map_some,uncut key value admitted stays]
    · rw [if_neg admitted,if_neg admitted]

theorem writeAll_present_iff (n : ℤ) (entries : List (String × String)) (store : Database) :
    writeAll .present (entriesOf n (cutAll entries)) store =
        writeAll .always (entriesOf n entries) store ↔
      (∀ entry ∈ entries, store entry.1 ≠ none) ∧
        ∀ key value, deciding .always entries key = some value → cut value = value := by
  have there : (∀ entry ∈ entries, store entry.1 ≠ none) →
      writeAll .present (entriesOf n (cutAll entries)) store =
        writeAll .always (entriesOf n (cutAll entries)) store := by
    intro held
    apply writeAll_present
    intro entry listed
    simp only [entriesOf,cutAll,List.map_map,List.mem_map] at listed
    obtain ⟨given,member,rfl⟩ := listed
    exact held given member
  have uncut : writeAll .always (entriesOf n (cutAll entries)) store =
      writeAll .always (entriesOf n entries) store ↔
        ∀ key value, deciding .always entries key = some value → cut value = value := by
    simp [writeAll_cut_iff,Guard.admits]
  constructor
  · intro same
    have held : ∀ entry ∈ entries, store entry.1 ≠ none := by
      intro entry listed absent
      have here := congrFun same entry.1
      have decided := (deciding_isSome .always entries entry.1).mpr ⟨entry,listed,rfl⟩
      obtain ⟨value,stays⟩ := Option.isSome_iff_exists.mp decided
      rw [writeAll_apply,writeAll_apply,absent,deciding_entriesOf,deciding_entriesOf,stays] at here
      cases here
    exact ⟨held,uncut.mp ((there held).symm.trans same)⟩
  · intro both
    exact (there both.1).trans (uncut.mpr both.2)

theorem received_sent {null : Null} {keys texts : List String} {args : List (Option String)}
    (sent : null.sent (keys.map some++args) = some (keys++texts)) :
    received null (keys.map some) args = .ok (keys,texts) := by
  have long : ¬ (keys++texts).length < (keys.map some).length := by simp
  rw [received,sent]
  simp only [if_neg long]
  rw [List.length_map,List.take_left,List.drop_left]

theorem received_texts (null : Null) (keys args : List String) :
    received null (keys.map some) (args.map some) = .ok (keys,args) := by
  apply received_sent
  cases null <;> simp [Null.sent,Function.comp_def]

theorem received_null (null : Null) (keys args : List String) :
    received null (keys.map some) (args.map some++[none]) =
      match null with
      | .refused => .error "NullPointerException"
      | .omitted => .ok (keys,args)
      | .empty => .ok (keys,args++[""]) := by
  cases null with
  | refused => simp [received,Null.sent]
  | omitted => exact received_sent (by simp [Null.sent])
  | empty => exact received_sent (by simp [Null.sent,Function.comp_def])

section Call

variable {engine : Engine} {null : Null} {store : Database} {keyValues : List (Option String)}
  {ttl nxxx : Option String}

theorem multiValueSet_received (some : keyValues ≠ []) {KEYS ARGV : List String}
    (got : received null keyValues [ttl,nxxx] = .ok (KEYS,ARGV)) :
    multiValueSet engine null (.some keyValues) ttl nxxx store =
      ((loop engine ARGV KEYS store).1.map .some,(loop engine ARGV KEYS store).2) := by
  have nonempty : ¬ keyValues.isEmpty = true := fun empty => some (List.isEmpty_iff.mp empty)
  simp only [multiValueSet,if_neg nonempty,got]
  exact bind_map _ rfl

theorem multiValueSet_refused (some : keyValues ≠ []) {fault : String}
    (got : received null keyValues [ttl,nxxx] = .error fault) :
    multiValueSet engine null (.some keyValues) ttl nxxx store = (.error fault,store) := by
  have nonempty : ¬ keyValues.isEmpty = true := fun empty => some (List.isEmpty_iff.mp empty)
  simp only [multiValueSet,if_neg nonempty,got]
  rfl

end Call

section Alike

variable {engine : Engine} {null : Null} {store : Database} {entries : List (String × String)}
  {ttl : String} {guard : Guard}

theorem keyValuesOf_eq (entries : List (String × String)) :
    keyValuesOf entries = (textsOf entries).map some := by
  rw [keyValuesOf,textsOf,List.map_map]
  rfl

theorem keyValuesOf_ne_nil (some : entries ≠ []) : keyValuesOf entries ≠ [] := fun empty =>
  some (List.map_eq_nil_iff.mp empty)

private theorem setsInOrder_refused (some : entries ≠ []) (unfit : seconds engine ttl = none)
    (got : (∃ more, received null (keyValuesOf entries) [.some ttl,nxxxOf guard] =
        .ok (textsOf entries,ttl::more)) ∨
      ∃ fault, received null (keyValuesOf entries) [.some ttl,nxxxOf guard] = .error fault) :
    SetsInOrder engine null entries ttl guard store := by
  obtain ⟨expected,alsoFailed⟩ := @setInOrder_refuses engine store ttl unfit guard entries some
  have nonempty := keyValuesOf_ne_nil some
  rw [SetsInOrder,alsoFailed]
  rcases got with ⟨more,got⟩ | ⟨fault,got⟩
  · have texts : textsOf entries ≠ [] := fun empty => some (List.map_eq_nil_iff.mp empty)
    obtain ⟨fault,failed⟩ := @loop_refuses engine store (ttl::more) unfit _ texts
    rw [multiValueSet_received nonempty got,failed]
    exact ⟨fun reply => iff_of_false nofun nofun,rfl⟩
  · rw [multiValueSet_refused nonempty got]
    exact ⟨fun reply => iff_of_false nofun nofun,rfl⟩

private theorem setsInOrder_received (some : entries ≠ []) (keyed : Keyed entries) {n : ℤ}
    (lasting : seconds engine ttl = .some n) {more : List String}
    (got : received null (keyValuesOf entries) [.some ttl,nxxxOf guard] = .ok (textsOf entries,ttl::more)) :
    SetsInOrder engine null entries ttl guard store ↔
      (∀ entry ∈ entries, gmatch entry.2 ≠ []) ∧
        writeAll (guardOf more[0]?) (entriesOf n (cutAll entries)) store =
          writeAll guard (entriesOf n entries) store := by
  have left := (@loop_spec engine store n (ttl::more) lasting (textsOf entries)).2
  have answered := @loop_ok_iff engine store n (ttl::more) lasting (textsOf entries)
  have full : (∀ entry ∈ textsOf entries, 2 ≤ (gmatch entry).length) ↔
      ∀ entry ∈ entries, gmatch entry.2 ≠ [] := by
    rw [textsOf,List.forall_mem_map]
    apply forall₂_congr
    intro entry listed
    rw [gmatch_entry (keyed entry listed),List.length_cons,← List.length_pos_iff]
    omega
  rw [full] at answered
  rw [SetsInOrder,multiValueSet_received (keyValuesOf_ne_nil some) got,
    @setInOrder_spec engine store (.some ttl) n lasting guard ttl rfl]
  simp only [Script.map_some_eq,left]
  constructor
  · intro both
    have cutAlike := answered.mp ((both.1 "OK").mpr rfl)
    rw [← complete_textsOf keyed cutAlike]
    exact ⟨cutAlike,both.2⟩
  · intro both
    rw [answered.mpr both.1,complete_textsOf keyed both.1]
    exact ⟨fun reply => Iff.rfl,both.2⟩

private theorem clean_iff : Clean guard store entries ↔ (∀ entry ∈ entries, gmatch entry.2 ≠ []) ∧
    ∀ key value, guard.admits (store key) = true → deciding guard entries key = some value →
      cut value = value := by
  simp only [Clean,← gmatch_ne_nil]
  refine and_congr_right fun full => forall_congr' fun key => forall_congr' fun value =>
    forall_congr' fun _ => forall_congr' fun stays => ?_
  exact (cut_eq_iff (full _ (deciding_mem stays))).symm

/-- The texts arrive, and with them the guard that the script reads off; a null guard is
refused, left out, or read as `XX`. -/
theorem received_call (null : Null) (guard : Guard) (entries : List (String × String)) (ttl : String) :
    (guard = .always ∧ null = .refused ∧
      ∃ fault, received null (keyValuesOf entries) [some ttl,nxxxOf guard] = .error fault) ∨
    ∃ more, received null (keyValuesOf entries) [some ttl,nxxxOf guard] =
        .ok (textsOf entries,ttl::more) ∧
      (guardOf more[0]? = guard ∧ (guard = .always → null = .omitted) ∨
        guard = .always ∧ null = .empty ∧ guardOf more[0]? = .present) := by
  rw [keyValuesOf_eq]
  cases guard with
  | absent => exact .inr ⟨["NX"],received_texts null _ [ttl,"NX"],.inl ⟨rfl,nofun⟩⟩
  | present => exact .inr ⟨["XX"],received_texts null _ [ttl,"XX"],.inl ⟨by decide,nofun⟩⟩
  | always =>
    have got := received_null null (textsOf entries) [ttl]
    cases null with
    | refused => exact .inl ⟨rfl,rfl,_,got⟩
    | omitted => exact .inr ⟨[],got,.inl ⟨rfl,fun _ => rfl⟩⟩
    | empty => exact .inr ⟨[""],got,.inr ⟨rfl,rfl,by decide⟩⟩

/-- The call sets in order if and only if it is clean, and a null does no harm, under every
time to live that Redis takes. -/
theorem setsInOrder_iff (some : entries ≠ []) (keyed : Keyed entries) :
    SetsInOrder engine null entries ttl guard store ↔
      (seconds engine ttl ≠ none → Clean guard store entries ∧ NullFits null guard store entries) := by
  have got := received_call null guard entries ttl
  rw [clean_iff]
  cases lasting : seconds engine ttl with
  | none =>
    refine iff_of_true (setsInOrder_refused some lasting ?_) fun fits => (fits rfl).elim
    exact got.elim (fun refused => .inr refused.2.2) fun sent => .inl (sent.imp fun _ => And.left)
  | some n =>
    rw [forall_prop_of_true (Option.some_ne_none n)]
    rcases got with ⟨rfl,rfl,fault,got⟩ | ⟨more,got,⟨seen,omitted⟩ | ⟨rfl,rfl,seen⟩⟩
    · refine iff_of_false ?_ fun fits => ?_
      · rintro ⟨answered,-⟩
        rw [multiValueSet_refused (keyValuesOf_ne_nil some) got,
          @setInOrder_spec engine store (.some ttl) n lasting .always ttl rfl] at answered
        exact nomatch (answered "OK").mpr rfl
      · rcases fits.2 rfl with other | other
        · cases other
        · cases other.1
    · rw [setsInOrder_received some keyed lasting got,seen,writeAll_cut_iff guard n]
      exact (and_iff_left fun always => .inl (omitted always)).symm
    · rw [setsInOrder_received some keyed lasting got,seen,writeAll_present_iff n]
      constructor
      · rintro ⟨full,held,uncut⟩
        exact ⟨⟨full,fun key value _ stays => uncut key value stays⟩,fun _ => .inr ⟨rfl,held⟩⟩
      · rintro ⟨⟨full,uncut⟩,fits⟩
        refine ⟨full,?_,fun key value stays => uncut key value rfl stays⟩
        exact (fits rfl).elim nofun And.right

end Alike

section Failure

variable {engine : Engine} {null : Null} {store : Database} {keyValues : List (Option String)}
  {ttl nxxx : Option String} {KEYS ARGV : List String}

private theorem harmless_received (got : received null keyValues [ttl,nxxx] = .ok (KEYS,ARGV)) :
    Harmless engine null keyValues ttl nxxx store ↔ ∀ n, ARGV[0]?.bind (seconds engine) = some n →
      (∃ entry ∈ KEYS, (gmatch entry).length < 2) →
        writeAll (guardOf ARGV[1]?) (entriesOf n (complete KEYS)) store = store := by
  simp only [writeAll_kept_iff]
  refine ⟨fun kept => kept KEYS ARGV got,fun kept _ _ given => ?_⟩
  cases got.symm.trans given
  exact kept

private theorem unharmed_received (some : keyValues ≠ [])
    (got : received null keyValues [ttl,nxxx] = .ok (KEYS,ARGV)) :
    Unharmed engine null (.some keyValues) ttl nxxx store ↔
      ((∃ fault, (loop engine ARGV KEYS store).1 = .error fault) →
        (loop engine ARGV KEYS store).2 = store) := by
  rw [Unharmed,multiValueSet_received some got]
  constructor
  · rintro kept ⟨fault,failed⟩
    exact kept fault _ (by rw [failed]; rfl)
  · intro kept fault after same
    obtain ⟨answer,rfl⟩ := Prod.mk.inj same
    cases failed : (loop engine ARGV KEYS store).1 with
    | ok reply => simp [failed,Except.map] at answer
    | error fault => exact kept ⟨fault,failed⟩

private theorem unharmed_refused (some : keyValues ≠ []) {fault : String}
    (got : received null keyValues [ttl,nxxx] = .error fault) :
    Unharmed engine null (.some keyValues) ttl nxxx store := by
  intro other after ran
  rw [multiValueSet_refused some got] at ran
  exact (Prod.mk.inj ran).2.symm

private theorem unharmed_iff : Unharmed engine null (some keyValues) ttl nxxx store ↔
    (keyValues ≠ [] → Harmless engine null keyValues ttl nxxx store) := by
  by_cases empty : keyValues = []
  · subst empty
    refine iff_of_true ?_ fun some => (some rfl).elim
    intro fault after ran
    cases ran
  · rw [forall_prop_of_true empty]
    cases got : received null keyValues [ttl,nxxx] with
    | error fault =>
      apply iff_of_true (unharmed_refused empty got)
      intro KEYS ARGV given
      cases got.symm.trans given
    | ok sent =>
      obtain ⟨KEYS,ARGV⟩ := sent
      rw [harmless_received got,unharmed_received empty got]
      cases lasting : ARGV[0]?.bind (seconds engine) with
      | none =>
        refine iff_of_true ?_ fun n same => by cases same
        rintro ⟨fault,failed⟩
        have some : KEYS ≠ [] := by
          rintro rfl
          cases failed
        obtain ⟨_,refused⟩ := @loop_refuses engine store ARGV lasting KEYS some
        rw [refused]
      | some n =>
        have left := (@loop_spec engine store n ARGV lasting KEYS).2
        rw [loop_fails_iff lasting,left]
        constructor
        · intro kept m same
          cases same
          exact kept
        · exact fun kept => kept n rfl

end Failure

/-- A call sets its entries in order if and only if they are clean and a null does no
harm, and fails without a change if and only if nothing new is set before it fails. -/
theorem multiValueSet_iff (engine : Engine) (null : Null) (store : Database) :
    (∀ entries ttl guard, entries ≠ [] → Keyed entries →
      (SetsInOrder engine null entries ttl guard store ↔
        (seconds engine ttl ≠ none → Clean guard store entries ∧ NullFits null guard store entries))) ∧
    ∀ keyValues ttl nxxx, Unharmed engine null keyValues ttl nxxx store ↔
      ∀ texts, keyValues = some texts → texts ≠ [] → Harmless engine null texts ttl nxxx store := by
  refine ⟨fun _ _ _ some keyed => setsInOrder_iff some keyed,fun keyValues ttl nxxx => ?_⟩
  cases keyValues with
  | none =>
    refine iff_of_true ?_ nofun
    intro fault after ran
    cases ran
  | some texts =>
    rw [unharmed_iff]
    refine ⟨fun kept given same => ?_,fun kept => kept texts rfl⟩
    cases same
    exact kept

theorem multiValueSet_iff_new :
    SetsInOrder decimal .refused [("user:1","Ann"),("user:2","Bob")] "60" .absent fun _ => none := by
  apply ((multiValueSet_iff decimal .refused fun _ => none).1
    [("user:1","Ann"),("user:2","Bob")] "60" .absent (by simp) (by decide)).mpr
  refine fun _ => ⟨⟨by simp,fun key value _ stays => ?_⟩,nofun⟩
  have plain : ∀ entry ∈ [("user:1","Ann"),("user:2","Bob")], '|' ∉ entry.2.toList := by decide
  exact plain _ (deciding_mem stays)

theorem minute : seconds decimal "60" = some 60 := by
  have read : readInteger "60" = some 60 := @readInteger_toString 60 (by decide)
  rw [seconds,read]
  decide

/-- A value with the separator is cut, and an empty value fails after the key before it
was set. -/
theorem value_cut : ¬ SetsInOrder decimal .refused [("user:1","Ann|Bob")] "60" .absent (fun _ => none) ∧
    ¬ Unharmed decimal .refused (some [some "user:1|Ann",some "user:2|"]) (some "60") (some "NX")
      (fun _ => none) := by
  constructor
  · intro sets
    have clean := ((setsInOrder_iff (by simp) (by decide)).mp sets (by simp [minute])).1
    exact absurd (clean.2 "user:1" "Ann|Bob" rfl rfl) (by decide)
  · intro kept
    have there := unharmed_iff.mp kept (by simp) ["user:1|Ann","user:2|"] ["60","NX"] rfl 60 minute
      ⟨"user:2|",by simp,by decide +kernel⟩ "user:1" "Ann" rfl (by decide +kernel)
    cases there

end YzFramework.Redis.MultiValueSet

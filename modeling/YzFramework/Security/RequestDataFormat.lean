import YzFramework.Library.Search
import YzFramework.Library.Text

/-! The request format of an `ApiRequestDataHandler` whose keys are configured, over
repeated runs of `init`. -/
namespace YzFramework.Security.RequestDataFormat
open Library

structure Keys where
  apiKey : String
  messageKey : String
  fromKey : String
  signKey : String

structure Handler where
  md5Key : String
  keys : Keys
  md5KeyPre64 : Option String := none
  md5KeyBack64 : Option String := none
  requestDataFormat : String := "api=%s&message=%s&from=%s&sign=%s"

def replace (text target replacement : String) : String :=
  String.ofList (Search.replace target.toList replacement.toList text.toList)

/-- The four replacements of `init`, one in the result of the other. -/
def rename (keys : Keys) (text : String) : String :=
  replace (replace (replace (replace text "api" keys.apiKey) "message" keys.messageKey)
    "from" keys.fromKey) "sign" keys.signKey

/-- `substring` throws for a shorter key. -/
def init (handler : Handler) : Option Handler :=
  if 64 ≤ handler.md5Key.toList.length then
    some { handler with
      md5KeyPre64 := some (String.ofList (handler.md5Key.toList.take 64))
      md5KeyBack64 := some (String.ofList (handler.md5Key.toList.drop 64))
      requestDataFormat := rename handler.keys handler.requestDataFormat }
  else none

/-- One run by the constructor, and any number of others. -/
def runs : ℕ → Handler → Option Handler
  | 0, handler => some handler
  | n+1, handler => (init handler).bind (runs n)

def Keys.format (keys : Keys) : String :=
  keys.apiKey ++ "=%s&" ++ keys.messageKey ++ "=%s&" ++ keys.fromKey ++ "=%s&" ++ keys.signKey ++ "=%s"

def Keys.map (f : String → String) (keys : Keys) : Keys :=
  ⟨f keys.apiKey,f keys.messageKey,f keys.fromKey,f keys.signKey⟩

def words : Keys := ⟨"api","message","from","sign"⟩

/-- Every run leaves the format of the keys, and another run changes nothing. -/
def Right (md5Key : String) (keys : Keys) : Prop :=
  ∀ n, ∃ after, runs (n+1) { md5Key, keys } = some after ∧
    after.requestDataFormat = keys.format ∧ init after = some after

/-- The words are renamed to the keys, and the keys to themselves. -/
def Settled (keys : Keys) : Prop :=
  (words.map (rename keys)).format = keys.format ∧ (keys.map (rename keys)).format = keys.format

structure Keys.Free (keys : Keys) (text : String) : Prop where
  api : "api".toList <:+: text.toList → keys.apiKey = "api"
  message : "message".toList <:+: text.toList → keys.messageKey = "message"
  origin : "from".toList <:+: text.toList → keys.fromKey = "from"
  sign : "sign".toList <:+: text.toList → keys.signKey = "sign"

/-- No key contains one of the four words, unless this is the word's own key. -/
structure Keys.Apart (keys : Keys) : Prop where
  apiKey : keys.Free keys.apiKey
  messageKey : keys.Free keys.messageKey
  fromKey : keys.Free keys.fromKey
  signKey : keys.Free keys.signKey

/-- A replaced word has none of the separators of the format, and is longer than one character. -/
structure Word (target : String) : Prop where
  long : 1 < target.toList.length
  equals : '=' ∉ target.toList
  percent : '%' ∉ target.toList
  separator : '&' ∉ target.toList

theorem replace_format {target : String} (word : Word target) (replacement : String) (keys : Keys) :
    replace keys.format target replacement =
      (keys.map fun key => replace key target replacement).format := by
  have some : target.toList ≠ [] := List.ne_nil_of_length_pos (Nat.lt_of_succ_lt word.long)
  have letter : Search.replace target.toList replacement.toList ['s'] = ['s'] :=
    Search.replace_none (fun inside => by
      have size := inside.length_le
      have long := word.long
      simp at size
      omega) _
  have none : Search.replace target.toList replacement.toList [] = [] := rfl
  apply String.toList_inj.mp
  have written : ∀ keys : Keys, keys.format.toList = keys.apiKey.toList ++ '='::([] ++ '%'::(['s'] ++ '&'::
      (keys.messageKey.toList ++ '='::([] ++ '%'::(['s'] ++ '&'::
      (keys.fromKey.toList ++ '='::([] ++ '%'::(['s'] ++ '&'::
      (keys.signKey.toList ++ '='::([] ++ '%'::['s'])))))))))) := by
    intro keys
    simp [Keys.format]
  rw [replace,String.toList_ofList,written,written]
  simp only [Search.replace_append some word.equals,Search.replace_append some word.percent,
    Search.replace_append some word.separator,letter,none]
  simp [Keys.map,replace]

theorem rename_format (keys other : Keys) :
    rename keys other.format = (other.map (rename keys)).format := by
  have api : Word "api" := ⟨by decide,by decide,by decide,by decide⟩
  have message : Word "message" := ⟨by decide,by decide,by decide,by decide⟩
  have origin : Word "from" := ⟨by decide,by decide,by decide,by decide⟩
  have sign : Word "sign" := ⟨by decide,by decide,by decide,by decide⟩
  rw [rename,replace_format api,replace_format message,replace_format origin,replace_format sign]
  simp only [Keys.map,rename]

def initialized (md5Key : String) (keys : Keys) : Handler where
  md5Key := md5Key
  keys := keys
  md5KeyPre64 := some (String.ofList (md5Key.toList.take 64))
  md5KeyBack64 := some (String.ofList (md5Key.toList.drop 64))
  requestDataFormat := (words.map (rename keys)).format

theorem init_first {md5Key : String} (long : 64 ≤ md5Key.toList.length) (keys : Keys) :
    init { md5Key, keys } = some (initialized md5Key keys) := by
  have written : "api=%s&message=%s&from=%s&sign=%s" = words.format := by decide
  simp only [init,if_pos long,written,rename_format,initialized]

theorem init_again {md5Key : String} (long : 64 ≤ md5Key.toList.length) {keys : Keys}
    (first : (words.map (rename keys)).format = keys.format) :
    init (initialized md5Key keys) = some (initialized md5Key keys) ↔
      (keys.map (rename keys)).format = keys.format := by
  simp only [init,initialized,if_pos long,first,rename_format,Option.some.injEq,Handler.mk.injEq,
    true_and]

theorem right_iff {md5Key : String} (long : 64 ≤ md5Key.toList.length) (keys : Keys) :
    Right md5Key keys ↔ Settled keys := by
  constructor
  · intro right
    obtain ⟨after,ran,format,again⟩ := right 0
    rw [runs,init_first long,Option.bind_some,runs,Option.some.injEq] at ran
    subst ran
    exact ⟨format,(init_again long format).mp again⟩
  · rintro ⟨first,second⟩ n
    have again := (init_again long first).mpr second
    have stays : ∀ n, runs n (initialized md5Key keys) = some (initialized md5Key keys) := by
      intro n
      induction n with
      | zero => rfl
      | succ n ih => rw [runs,again,Option.bind_some,ih]
    refine ⟨initialized md5Key keys,?_,first,again⟩
    rw [runs,init_first long,Option.bind_some,stays]

structure Keys.Plain (keys : Keys) : Prop where
  apiKey : '=' ∉ keys.apiKey.toList
  messageKey : '=' ∉ keys.messageKey.toList
  fromKey : '=' ∉ keys.fromKey.toList
  signKey : '=' ∉ keys.signKey.toList

theorem count_format (keys : Keys) : keys.format.toList.count '=' =
    keys.apiKey.toList.count '=' + keys.messageKey.toList.count '=' +
      keys.fromKey.toList.count '=' + keys.signKey.toList.count '=' + 4 := by
  have mark : "=%s&".toList.count '=' = 1 := by decide
  have last : "=%s".toList.count '=' = 1 := by decide
  simp only [Keys.format,String.toList_append,List.count_append,mark,last]
  omega

theorem format_eq_iff {keys : Keys} (plain : keys.Plain) (other : Keys) :
    other.format = keys.format ↔ other = keys := by
  refine ⟨fun same => ?_,fun same => same ▸ rfl⟩
  have marks := count_format other
  rw [same,count_format keys,List.count_eq_zero.mpr plain.apiKey,List.count_eq_zero.mpr plain.messageKey,
    List.count_eq_zero.mpr plain.fromKey,List.count_eq_zero.mpr plain.signKey] at marks
  have letters := congrArg String.toList same
  have written : ∀ keys : Keys, keys.format.toList =
      ((keys.apiKey.toList ++ '='::("%s&".toList ++ keys.messageKey.toList)) ++
        '='::("%s&".toList ++ keys.fromKey.toList)) ++ '='::("%s&".toList ++ keys.signKey.toList) ++
        "=%s".toList := by
    intro keys
    simp [Keys.format]
  have clean : ∀ key : String, '=' ∉ key.toList → '=' ∉ "%s&".toList ++ key.toList := by
    intro key outside
    simp [outside]
  have none : ∀ key : String, key.toList.count '=' = 0 → '=' ∉ key.toList := fun key => List.count_eq_zero.mp
  rw [written,written] at letters
  have first := List.append_cancel_right letters
  obtain ⟨upper,sign⟩ := Text.last_split_unique (clean _ (none other.signKey (by omega)))
    (clean _ plain.signKey) first
  obtain ⟨upper,origin⟩ := Text.last_split_unique (clean _ (none other.fromKey (by omega)))
    (clean _ plain.fromKey) upper.symm
  obtain ⟨api,message⟩ := Text.last_split_unique (clean _ (none other.messageKey (by omega)))
    (clean _ plain.messageKey) upper.symm
  have back : ∀ first second : String, "%s&".toList ++ first.toList = "%s&".toList ++ second.toList →
      first = second := fun first second same => String.toList_inj.mp (List.append_cancel_left same)
  cases other
  cases keys
  rw [Keys.mk.injEq]
  exact ⟨(String.toList_inj.mp api).symm,(back _ _ message).symm,(back _ _ origin).symm,(back _ _ sign).symm⟩

theorem settled_iff {keys : Keys} (plain : keys.Plain) :
    Settled keys ↔ words.map (rename keys) = keys ∧ keys.map (rename keys) = keys := by
  rw [Settled,format_eq_iff plain,format_eq_iff plain]

theorem replace_kept {text target replacement : String} (some : target.toList ≠ [])
    (kept : target.toList <:+: text.toList → replacement = target) :
    replace text target replacement = text := by
  rw [replace]
  by_cases inside : target.toList <:+: text.toList
  · rw [kept inside,Search.replace_self some,String.ofList_toList]
  · rw [Search.replace_none inside,String.ofList_toList]

theorem replace_word {target replacement : String} (some : target.toList ≠ []) :
    replace target target replacement = replacement := by
  rw [replace,Search.replace_whole some,String.ofList_toList]

theorem rename_free {keys : Keys} {text : String} (free : keys.Free text) : rename keys text = text := by
  rw [rename,replace_kept (by decide) free.api,replace_kept (by decide) free.message,
    replace_kept (by decide) free.origin,replace_kept (by decide) free.sign]

theorem settled_of_apart {keys : Keys} (apart : keys.Apart) : Settled keys := by
  obtain ⟨api,message,origin,sign⟩ := apart
  have other : ∀ text target replacement : String, target.toList ≠ [] →
      ¬ target.toList <:+: text.toList → replace text target replacement = text :=
    fun _ _ _ some outside => replace_kept some fun inside => absurd inside outside
  have first : rename keys "api" = keys.apiKey := by
    rw [rename,replace_word (by decide),replace_kept (by decide) api.message,
      replace_kept (by decide) api.origin,replace_kept (by decide) api.sign]
  have second : rename keys "message" = keys.messageKey := by
    rw [rename,other "message" "api" _ (by decide) (by decide +kernel),replace_word (by decide),
      replace_kept (by decide) message.origin,replace_kept (by decide) message.sign]
  have third : rename keys "from" = keys.fromKey := by
    rw [rename,other "from" "api" _ (by decide) (by decide +kernel),other "from" "message" _ (by decide) (by decide +kernel),
      replace_word (by decide),replace_kept (by decide) origin.sign]
  have fourth : rename keys "sign" = keys.signKey := by
    rw [rename,other "sign" "api" _ (by decide) (by decide +kernel),other "sign" "message" _ (by decide) (by decide +kernel),
      other "sign" "from" _ (by decide) (by decide +kernel),replace_word (by decide)]
  constructor
  · simp only [Keys.map,words,first,second,third,fourth]
  · simp only [Keys.map,rename_free api,rename_free message,rename_free origin,rename_free sign]

/-- Keys that are apart from the words give the right format after any number of runs. -/
theorem requestDataFormat_right (md5Key : String) (long : 64 ≤ md5Key.toList.length) (keys : Keys)
    (apart : keys.Apart) : Right md5Key keys :=
  (right_iff long keys).mpr (settled_of_apart apart)

theorem requestDataFormat_right_renamed :
    Right (String.ofList (List.replicate 64 'k')) ⟨"method","message","source","digest"⟩ := by
  have free : ∀ key ∈ ["method","message","source","digest"],
      (⟨"method","message","source","digest"⟩ : Keys).Free key := by
    intro key listed
    simp only [List.mem_cons,List.not_mem_nil,or_false] at listed
    rcases listed with rfl | rfl | rfl | rfl
    all_goals constructor
    all_goals decide +kernel
  exact requestDataFormat_right _ (by decide) _
    ⟨free _ (by simp),free _ (by simp),free _ (by simp),free _ (by simp)⟩

/-- An empty key can restore another word, which is then renamed in its turn. -/
theorem right_not_apart : ∃ keys : Keys, Right (String.ofList (List.replicate 64 'k')) keys ∧ ¬ keys.Apart := by
  refine ⟨⟨"api","sfromign","","sfromign"⟩,(right_iff (by decide) _).mpr ⟨by decide +kernel,by decide +kernel⟩,?_⟩
  intro apart
  exact absurd (apart.messageKey.origin (by decide +kernel)) (by decide)

/-- A word in its own key is renamed again by the second run, and one in another's key
by the first. -/
theorem not_right :
    let md5Key := String.ofList (List.replicate 64 'k')
    ¬ Right md5Key ⟨"apiName","message","from","sign"⟩ ∧ ¬ Right md5Key ⟨"messageApi","body","from","sign"⟩ := by
  have long : 64 ≤ (String.ofList (List.replicate 64 'k')).toList.length := by decide
  constructor
  · intro right
    exact absurd ((right_iff long _).mp right).2 (by decide +kernel)
  · intro right
    exact absurd ((right_iff long _).mp right).1 (by decide +kernel)

end YzFramework.Security.RequestDataFormat

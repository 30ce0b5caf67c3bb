import YzFramework.Doc.Placeholder

/-! `WordUtil.replaceText` for texts: the runs of a paragraph, into which runs are put while
the loop goes over them. -/
namespace YzFramework.Doc.ReplaceText
open Library Search Pattern Placeholder
open Properties (Text unit units)

/-- A run may have no text. -/
abbrev Runs := List (Option Text)

/-- What the loop goes on with: `pending` is `beginRun` with `compareText`, which are set together. -/
structure State where
  runs : Runs
  i : ℕ
  pending : Option (ℕ × Text)
  endRun : Option ℕ

def tags (find : Text → List (ℕ × ℕ)) (text : Text) : List Text :=
  (find text).map fun (start,stop) => (text.drop start).take (stop-start)

/-- The matches of a run: the string in which they are blanked out, where the text behind the
last one begins, and the texts that were put before the run. Each goes before the one put
in last; an index of −1 makes `substring` throw. -/
def insertTags (compile : Compile) (replaceText : Text) :
    List Text → Text → ℕ → List Text → Option (Text × ℕ × List Text)
  | [],string,start,inserted => some (string,start,inserted)
  | tag::tags,string,start,inserted =>
    if (trim string).length = tag.length then some (string,start,inserted)
    else do
      let stop ← indexOf tag string
      let string ← replaceFirst compile tag (List.replicate tag.length space) string
      let text ← substring string start stop
      insertTags compile replaceText tags string (stop+tag.length)
        (replaceText::if text = [] then inserted else text::inserted)

def insertTexts (compile : Compile) (paramName replaceText runText : Text) : Option (List Text) := do
  let find ← compile paramName
  let (string,start,inserted) ← insertTags compile replaceText (tags find runText) runText 0 []
  some (if 0 < start ∧ start < string.length then string.drop start::inserted else inserted)

/-- A run before which something was put is emptied. -/
def insertRuns (runs : Runs) (i : ℕ) (inserted : List Text) : Runs :=
  if inserted = [] then runs else runs.take i ++ (inserted.map some ++ some []::runs.drop (i+1))

/-- The runs behind `beginRun` are emptied, as many as given. -/
def clear : ℕ → ℕ → Runs → Runs
  | 0,_,runs => runs
  | n+1,beginRun,runs => clear n (beginRun+1) (runs.set (beginRun+1) (some []))

/-- A run that starts with the bracket begins anew. -/
def opened (runText : Text) (state : State) : Option (ℕ × Text) :=
  if starts runText then some (state.i,[]) else state.pending

/-- The search for a placeholder through the runs. -/
def compareRun (paramName replaceText runText : Text) (state : State) : State :=
  match opened runText state with
  | none => state
  | some (beginRun,compareText) =>
    let endRun := if (trim runText).getLast? = some closing then some state.i else state.endRun
    let compareText := compareText ++ runText
    if trim compareText = paramName then
      let runs := state.runs.set beginRun (some (replace paramName replaceText compareText))
      -- With an `endRun` of −1 nothing is emptied.
      { state with
        runs := clear (endRun.getD 0-beginRun) beginRun runs
        pending := some (max beginRun (endRun.getD 0),compareText)
        endRun }
    else { state with pending := some (beginRun,compareText), endRun }

/-- One pass of the loop; `none` is an exception. -/
def visit (compile : Compile) (paramName replaceText : Text) (state : State) : Option State :=
  match state.runs[state.i]?.join with
  | none => some { state with i := state.i+1 }
  | some runText =>
    if trim runText = [] then some { state with i := state.i+1 }
    else do
      let inserted ← insertTexts compile paramName replaceText runText
      let state := compareRun paramName replaceText runText
        { state with runs := insertRuns state.runs state.i inserted }
      some { state with i := state.i+1 }

/-- The loop, as far as the number of passes reaches. -/
def loop (compile : Compile) (paramName replaceText : Text) : ℕ → State → Option Runs
  | 0,_ => none
  | fuel+1,state =>
    if state.runs.length ≤ state.i then some state.runs
    else (visit compile paramName replaceText state).bind (loop compile paramName replaceText fuel)

def replaceText (compile : Compile) (paramName replaceText : Text) (fuel : ℕ) (runs : Runs) : Option Runs :=
  loop compile paramName replaceText fuel ⟨runs,0,none,none⟩

def texts (runs : Runs) : List Text := runs.map (·.getD [])

/-- It returns, and if the runs are cut cleanly, every occurrence is replaced. -/
def Right (compile : Compile) (key : Key) (value : Text) (runs : Runs) : Prop :=
  ∃ final, (∃ fuel, replaceText compile key.paramName value fuel runs = some final) ∧
    (Clean key.paramName (texts runs) →
      (texts final).flatten = replace key.paramName value (texts runs).flatten)

/-- Nothing is found in the run, or something as long as the run without the blanks around. -/
def Quiet (compile : Compile) (paramName text : Text) : Prop :=
  ∃ find, compile paramName = some find ∧ ∀ tag ∈ (tags find text).head?, tag.length = (trim text).length

/-- Just the occurrences are found in the run, and before one that it ends with. -/
def Literally (compile : Compile) (paramName text : Text) : Prop :=
  ∃ find, compile paramName = some find ∧
    ∀ part, part = text ∨ part ++ paramName = text → find part = occurrences paramName part

/-- The run has the placeholder once, at its end. -/
def Ending (paramName text : Text) : Prop := ∃ before, text = before ++ paramName ∧ ¬ paramName <:+: before

/-- Replaced by itself, the run throws or is put behind the place the loop is at. -/
def Returning (compile : Compile) (paramName text : Text) : Prop :=
  ∀ inserted, insertTexts compile paramName text text = some inserted → text ∈ inserted.tail

/-- In no run something other than the occurrences is replaced, and just at its end. -/
def Known (compile : Compile) (key : Key) (runs : Runs) : Prop :=
  ∀ text, some text ∈ runs → trim text ≠ [] → Quiet compile key.paramName text ∨
    Literally compile key.paramName text ∨ Returning compile key.paramName text

structure Safe (compile : Compile) (key : Key) (runs : Runs) : Prop where
  quiet : ∀ text, some text ∈ runs → trim text ≠ [] → Quiet compile key.paramName text ∨
    Literally compile key.paramName text ∧ Ending key.paramName text
  good : Clean key.paramName (texts runs) → Good key.paramName (texts runs)

variable {compile : Compile} {paramName value runText : Text} {key : Key}

theorem insertTexts_quiet (quiet : Quiet compile paramName runText) (value : Text) :
    insertTexts compile paramName value runText = some [] := by
  obtain ⟨find,compiled,first⟩ := quiet
  have passed : insertTags compile value (tags find runText) runText 0 [] = some (runText,0,[]) := by
    cases found : tags find runText with
    | nil => rfl
    | cons tag rest =>
      rw [found] at first
      rw [insertTags,if_pos (first tag rfl).symm]
  simp [insertTexts,compiled,passed]

/-- What is found first in a run in which just the occurrences are found. -/
theorem find_first {find : Text → List (ℕ × ℕ)} {before after : Text}
    (finds : find (before ++ key.paramName ++ after) = occurrences key.paramName (before ++ key.paramName ++ after))
    (absent : ¬ key.paramName <:+: before) :
    (find (before ++ key.paramName ++ after)).head? = some (before.length,before.length+key.paramName.length) ∧
      (tags find (before ++ key.paramName ++ after)).head? = some key.paramName := by
  have head : (find (before ++ key.paramName ++ after)).head? =
      some (before.length,before.length+key.paramName.length) := by
    rw [finds,occurrences,occurrencesFrom_head key.some,key.indexOf_first absent,Option.map_some,Nat.zero_add]
  refine ⟨head,?_⟩
  rw [tags,List.head?_map,head,Option.map_some]
  simp

/-- Every pass puts texts before those that were put in already. -/
theorem insertTags_front {tags : List Text} {string string' : Text} {start start' : ℕ} {inserted inserted' : List Text}
    (done : insertTags compile value tags string start inserted = some (string',start',inserted')) :
    (string' = string ∧ start' = start ∧ inserted' = inserted) ∨ ∃ more, more ≠ [] ∧ inserted' = more ++ inserted := by
  induction tags generalizing string start inserted with
  | nil =>
    cases done
    exact .inl ⟨rfl,rfl,rfl⟩
  | cons tag tags ih =>
    rw [insertTags] at done
    split at done
    next =>
      cases done
      exact .inl ⟨rfl,rfl,rfl⟩
    next =>
      obtain ⟨stop,_,done⟩ := Option.bind_eq_some_iff.mp done
      obtain ⟨blanked,_,done⟩ := Option.bind_eq_some_iff.mp done
      obtain ⟨text,_,done⟩ := Option.bind_eq_some_iff.mp done
      refine .inr ?_
      have front : ∃ more, (value::if text = [] then inserted else text::inserted) = value::more ++ inserted := by
        split
        · exact ⟨[],rfl⟩
        · exact ⟨[text],rfl⟩
      obtain ⟨more,shape⟩ := front
      rw [shape] at done
      rcases ih done with ⟨_,_,rfl⟩ | ⟨others,some,rfl⟩
      · exact ⟨value::more,List.cons_ne_nil _ _,rfl⟩
      · exact ⟨others ++ (value::more),List.append_ne_nil_of_left_ne_nil some _,by simp⟩

/-- The first pass for a run that has more than the placeholder. -/
theorem insertTags_first {find : Text → List (ℕ × ℕ)} {before : Text} (after : Text) (compiled : compile key.paramName = some find)
    (finds : find (before ++ key.paramName ++ after) = occurrences key.paramName (before ++ key.paramName ++ after))
    (absent : ¬ key.paramName <:+: before)
    (mixed : (trim (before ++ key.paramName ++ after)).length ≠ key.paramName.length) (value : Text) :
    insertTags compile value (tags find (before ++ key.paramName ++ after)) (before ++ key.paramName ++ after) 0 [] =
      insertTags compile value (tags find (before ++ key.paramName ++ after)).tail
        (before ++ List.replicate key.paramName.length space ++ after) (before.length+key.paramName.length)
        (value::if before = [] then [] else [before]) := by
  obtain ⟨head,first⟩ := find_first finds absent
  obtain ⟨rest,shape⟩ := List.head?_eq_some_iff.mp first
  have cut : substring (before ++ List.replicate key.paramName.length space ++ after) 0 before.length = some before := by
    rw [← Nat.zero_add before.length]
    exact substring_eq (Nat.zero_le _) (by rw [List.drop_zero,List.append_assoc,List.take_left])
  rw [shape,insertTags,if_neg mixed,key.indexOf_first absent]
  simp only [Option.bind_eq_bind,Option.bind_some]
  rw [replaceFirst_head compiled head,Option.bind_some,cut]
  rfl

theorem insertTexts_ending {before : Text} (literally : Literally compile key.paramName (before ++ key.paramName))
    (some_ : trim before ≠ []) (absent : ¬ key.paramName <:+: before) (value : Text) :
    insertTexts compile key.paramName value (before ++ key.paramName) = some [value,before] := by
  obtain ⟨find,compiled,finds⟩ := literally
  have nonempty : before ≠ [] := fun empty => some_ (by rw [empty]; rfl)
  have whole := finds _ (.inl rfl)
  have index := key.indexOf_first absent []
  rw [List.append_nil] at index
  have alone : (tags find (before ++ key.paramName)).tail = [] := by
    rw [tags,whole,occurrences,occurrencesFrom_end key.some index]
    rfl
  have mixed : (trim (before ++ key.paramName)).length ≠ key.paramName.length := by
    have longer := (trim_longer some_ (trim_self key.trimmed ▸ key.some)).2
    rw [trim_self key.trimmed] at longer
    omega
  have first := insertTags_first [] compiled (by simpa using whole) absent (by simpa using mixed) value
  simp only [List.append_nil] at first
  rw [alone,insertTags,if_neg nonempty] at first
  rw [insertTexts,compiled]
  simp only [Option.bind_eq_bind,Option.bind_some]
  rw [first,Option.bind_some,if_neg]
  simp only [List.length_append,List.length_replicate]
  omega

/-- A run with something behind the placeholder leaves a replacement behind the place the
loop is at. -/
theorem insertTexts_behind {text : Text} {inserted : List Text} (literally : Literally compile key.paramName text)
    (loud : ¬ Quiet compile key.paramName text) (open_ : ¬ Ending key.paramName text)
    (done : insertTexts compile key.paramName value text = some inserted) : value ∈ inserted.tail := by
  obtain ⟨find,compiled,finds⟩ := literally
  have whole := finds _ (.inl rfl)
  have inside : key.paramName <:+: text := by
    by_contra absent
    refine loud ⟨find,compiled,fun tag first => ?_⟩
    rw [tags,whole,occurrences_none key.some absent] at first
    cases first
  obtain ⟨before,after,rfl,absent⟩ := first_occurrence key.some inside
  have behind : after ≠ [] := fun empty => open_ ⟨before,by rw [empty,List.append_nil],absent⟩
  have mixed : (trim (before ++ key.paramName ++ after)).length ≠ key.paramName.length := fun same =>
    loud ⟨find,compiled,fun tag first => by
      rw [(find_first whole absent).2] at first
      cases first
      exact same.symm⟩
  rw [insertTexts,compiled] at done
  simp only [Option.bind_eq_bind,Option.bind_some] at done
  rw [insertTags_first after compiled whole absent mixed] at done
  obtain ⟨⟨string,start,front⟩,passed,last⟩ := Option.bind_eq_some_iff.mp done
  cases last
  rcases insertTags_front passed with ⟨rfl,rfl,rfl⟩ | ⟨more,some,rfl⟩
  · have positive := List.length_pos_of_ne_nil behind
    have first := List.length_pos_of_ne_nil key.some
    rw [if_pos (by simp only [List.length_append,List.length_replicate]; omega)]
    exact List.mem_cons_self
  · obtain ⟨first,more,rfl⟩ := List.exists_cons_of_ne_nil some
    have present : value ∈ more ++ value::if before = [] then [] else [before] :=
      List.mem_append_right _ List.mem_cons_self
    by_cases tail : 0 < start ∧ start < string.length
    · rw [if_pos tail]
      exact List.mem_cons_of_mem _ present
    · rw [if_neg tail]
      exact present

theorem clear_behind (runs : Runs) {n beginRun j : ℕ} (far : beginRun+n < j) : (clear n beginRun runs)[j]? = runs[j]? := by
  induction n generalizing beginRun runs with
  | zero => rfl
  | succ n ih =>
    rw [clear,ih _ (by omega),List.getElem?_set_ne (by omega)]

theorem insertRuns_behind {runs : Runs} {i j : ℕ} {run : Option Text} (far : i < j) (present : runs[j]? = some run)
    (inserted : List Text) : ∃ k, i < k ∧ (insertRuns runs i inserted)[k]? = some run := by
  rw [insertRuns]
  split
  · exact ⟨j,far,present⟩
  · obtain ⟨bound,_⟩ := List.getElem?_eq_some_iff.mp present
    refine ⟨j+inserted.length,by omega,?_⟩
    have front : (runs.take i).length = i := by
      rw [List.length_take]
      omega
    rw [List.getElem?_append_right (by omega),List.getElem?_append_right (by rw [List.length_map]; omega),
      List.length_map,front]
    have place : j+inserted.length-i-inserted.length = (j-i-1)+1 := by omega
    rw [place,List.getElem?_cons_succ,List.getElem?_drop,← present]
    congr 1
    omega

theorem insertRuns_inside {runs : Runs} {i : ℕ} {value : Text} {inserted : List Text} (bound : i < runs.length)
    (behind : value ∈ inserted.tail) : ∃ k, i < k ∧ (insertRuns runs i inserted)[k]? = some (some value) := by
  cases inserted with
  | nil => cases behind
  | cons first inserted =>
    obtain ⟨n,place⟩ := List.mem_iff_getElem?.mp behind
    rw [List.tail_cons] at place
    refine ⟨i+(n+1),by omega,?_⟩
    obtain ⟨short,_⟩ := List.getElem?_eq_some_iff.mp place
    have front : (runs.take i).length = i := by
      rw [List.length_take]
      omega
    rw [insertRuns,if_neg (List.cons_ne_nil _ _),List.getElem?_append_right (by omega),front,Nat.add_sub_cancel_left,
      List.map_cons,List.cons_append,List.getElem?_cons_succ,
      List.getElem?_append_left (by rw [List.length_map]; exact short),List.getElem?_map,place]
    rfl

/-- A run with this text is still ahead, and what was begun is not. -/
structure Stuck (text : Text) (state : State) : Prop where
  ahead : ∃ j, state.i ≤ j ∧ state.runs[j]? = some (some text)
  begun : ∀ beginRun compareText, state.pending = some (beginRun,compareText) → beginRun ≤ state.i
  ended : ∀ endRun, state.endRun = some endRun → endRun ≤ state.i

theorem compareRun_stuck (paramName value runText : Text) (state : State) {text : Text} {j : ℕ} (far : state.i < j)
    (present : state.runs[j]? = some (some text))
    (begun : ∀ beginRun compareText, state.pending = some (beginRun,compareText) → beginRun ≤ state.i)
    (ended : ∀ endRun, state.endRun = some endRun → endRun ≤ state.i) :
    Stuck text { compareRun paramName value runText state with i := state.i+1 } := by
  have first : ∀ beginRun compareText, opened runText state = some (beginRun,compareText) → beginRun ≤ state.i := by
    intro beginRun compareText same
    rw [opened] at same
    split at same
    · cases same
      exact Nat.le_refl _
    · exact begun _ _ same
  rw [compareRun]
  cases open_ : opened runText state with
  | none => exact ⟨⟨j,far,present⟩,fun _ _ same => Nat.le_succ_of_le (begun _ _ same),
      fun _ same => Nat.le_succ_of_le (ended _ same)⟩
  | some begin_ =>
    obtain ⟨beginRun,compareText⟩ := begin_
    have low := first _ _ open_
    have last : ∀ endRun, (if (trim runText).getLast? = some closing then some state.i else state.endRun) = some endRun →
        endRun ≤ state.i := by
      intro endRun same
      split at same
      · cases same
        exact Nat.le_refl _
      · exact ended _ same
    generalize (if (trim runText).getLast? = some closing then some state.i else state.endRun) = endRun at last
    have high : endRun.getD 0 ≤ state.i := by
      cases endRun with
      | none => exact Nat.zero_le _
      | some endRun => exact last _ rfl
    dsimp only
    split
    · refine ⟨⟨j,far,?_⟩,?_,fun _ same => Nat.le_succ_of_le (last _ same)⟩
      · dsimp only
        rw [clear_behind _ (by omega),List.getElem?_set_ne (by omega),present]
      · rintro _ _ same
        cases same
        dsimp only
        omega
    · refine ⟨⟨j,far,present⟩,?_,fun _ same => Nat.le_succ_of_le (last _ same)⟩
      rintro _ _ same
      cases same
      exact Nat.le_succ_of_le low

theorem visit_stuck {text : Text} (nonblank : trim text ≠ []) (again : Returning compile paramName text)
    {state state' : State} (stuck : Stuck text state) (next : visit compile paramName text state = some state') :
    Stuck text state' := by
  obtain ⟨j,ahead,present⟩ := stuck.ahead
  have onward : state.i ≠ j → Stuck text { state with i := state.i+1 } := fun other =>
    ⟨⟨j,Nat.lt_of_le_of_ne ahead other,present⟩,fun _ _ same => Nat.le_succ_of_le (stuck.begun _ _ same),
      fun _ same => Nat.le_succ_of_le (stuck.ended _ same)⟩
  rw [visit] at next
  split at next
  next empty =>
    cases next
    apply onward
    rintro rfl
    rw [present] at empty
    cases empty
  next runText found =>
    split at next
    next blank =>
      cases next
      apply onward
      rintro rfl
      rw [present] at found
      cases found
      exact nonblank blank
    next =>
      obtain ⟨inserted,done,next⟩ := Option.bind_eq_some_iff.mp next
      cases next
      -- Runs are put in at the loop's place, so that what was behind it stays behind.
      have behind : ∃ k, state.i < k ∧ (insertRuns state.runs state.i inserted)[k]? = some (some text) := by
        rcases Nat.lt_or_eq_of_le ahead with far | rfl
        · exact insertRuns_behind far present inserted
        · rw [present] at found
          cases found
          exact insertRuns_inside (List.getElem?_eq_some_iff.mp present).1 (again inserted done)
      obtain ⟨k,far,kept⟩ := behind
      have state_i : (compareRun paramName text runText { state with runs := insertRuns state.runs state.i inserted }).i =
          state.i := by
        rw [compareRun]
        split
        · rfl
        · dsimp only
          split <;> rfl
      have after := compareRun_stuck paramName text runText
        { state with runs := insertRuns state.runs state.i inserted } far kept stuck.begun stuck.ended
      rw [state_i]
      exact after

/-- A run that is put in again behind itself is never passed. -/
theorem loop_stuck {text : Text} (nonblank : trim text ≠ []) (again : Returning compile paramName text)
    (fuel : ℕ) {state : State} (stuck : Stuck text state) : loop compile paramName text fuel state = none := by
  induction fuel generalizing state with
  | zero => rfl
  | succ fuel ih =>
    obtain ⟨j,ahead,present⟩ := stuck.ahead
    have bound := (List.getElem?_eq_some_iff.mp present).1
    rw [loop,if_neg (by omega),Option.bind_eq_none_iff]
    exact fun state' next => ih (visit_stuck nonblank again stuck next)

/-- The runs the loop has before it, as the items it makes of them. -/
inductive Shows (compile : Compile) (paramName : Text) : Runs → List Item → Prop
  | nil : Shows compile paramName [] []
  | skip {run : Option Text} {rest : Runs} {items : List Item} (blank : trim (run.getD []) = [])
      (shows : Shows compile paramName rest items) : Shows compile paramName (run::rest) (.run (run.getD [])::items)
  | run {text : Text} {rest : Runs} {items : List Item} (nonblank : trim text ≠ []) (quiet : Quiet compile paramName text)
      (shows : Shows compile paramName rest items) : Shows compile paramName (some text::rest) (.run text::items)
  | put {before : Text} {rest : Runs} {items : List Item} (nonblank : trim before ≠ [])
      (absent : ¬ paramName <:+: before) (literally : Literally compile paramName (before ++ paramName))
      (shows : Shows compile paramName (some before::some []::rest) items) :
      Shows compile paramName (some (before ++ paramName)::rest) (.put::items)

/-- The runs from `start` on that are pending; else no text can follow with which what was
compared comes to the placeholder. -/
def Holds (paramName : Text) (start : ℕ) (hold : Runs) (begun : Option (ℕ × Text)) : Option (Text × Text) → Prop
  | none => hold = [] ∧ ∀ beginRun compareText, begun = some (beginRun,compareText) →
      paramName.length ≤ (trim compareText).length
  | some (before,compareText) => before = (texts hold).flatten ∧ begun = some (start,compareText) ∧ trim compareText ≠ []

def Comes (compile : Compile) (paramName value : Text) (state : State) (text : Text) : Prop :=
  ∃ fuel final, loop compile paramName value fuel state = some final ∧ (texts final).flatten = text

theorem Comes.next {state state' : State} {text : Text} (bound : state.i < state.runs.length)
    (next : visit compile paramName value state = some state') (comes : Comes compile paramName value state' text) :
    Comes compile paramName value state text := by
  obtain ⟨fuel,final,done,same⟩ := comes
  refine ⟨fuel+1,final,?_,same⟩
  rw [loop,if_neg (by omega),next,Option.bind_some,done]

theorem clear_block (front mid rest : Runs) (run : Option Text) :
    clear mid.length front.length (front ++ run::(mid ++ rest)) =
      front ++ run::(List.replicate mid.length (some []) ++ rest) := by
  induction mid generalizing front run with
  | nil => rfl
  | cons other mid ih =>
    have shape : (front ++ run::(other::mid ++ rest)).set (front.length+1) (some []) =
        (front ++ [run]) ++ some []::(mid ++ rest) := by
      rw [List.set_append_right _ _ (by omega),Nat.add_sub_cancel_left]
      simp
    have later := ih (front ++ [run]) (some [])
    rw [List.length_append,List.length_singleton] at later
    rw [List.length_cons,clear,shape,later,List.replicate_succ]
    simp

theorem compareRun_found {done hold rest : Runs} {state : State} {compareText : Text}
    (runs : state.runs = done ++ hold ++ some runText::rest) (place : state.i = done.length+hold.length)
    (open_ : opened runText state = some (done.length,compareText)) (nonblank : trim runText ≠ [])
    (found : trim (compareText ++ runText) = key.paramName) (value : Text) :
    compareRun key.paramName value runText state =
      { runs := done ++ some (replace key.paramName value (compareText ++ runText))::
          (List.replicate hold.length (some []) ++ rest)
        i := state.i
        pending := some (state.i,compareText ++ runText)
        endRun := some state.i } := by
  have ended : (trim runText).getLast? = some closing := by
    have tail : key.paramName = (opening::key.units) ++ [closing] := by rw [Key.paramName,List.cons_append]
    rw [← trim_last compareText nonblank,found,tail,List.getLast?_concat]
  obtain ⟨run,mid,shape⟩ := List.exists_cons_of_ne_nil
    (List.append_ne_nil_of_right_ne_nil hold (List.cons_ne_nil (some runText) []))
  have size : mid.length = hold.length := by
    have sizes := congrArg List.length shape
    rw [List.length_append,List.length_singleton,List.length_cons] at sizes
    omega
  have whole : state.runs = done ++ run::(mid ++ rest) := by
    rw [runs,← List.cons_append,← shape]
    simp
  have set_ : state.runs.set done.length (some (replace key.paramName value (compareText ++ runText))) =
      done ++ some (replace key.paramName value (compareText ++ runText))::(mid ++ rest) := by
    rw [whole,List.set_append_right _ _ (Nat.le_refl _),Nat.sub_self,List.set_cons_zero]
  have width : state.i-done.length = mid.length := by omega
  rw [compareRun,open_]
  dsimp only
  rw [if_pos found,if_pos ended,Option.getD_some,set_,width,clear_block,size,Nat.max_eq_right (by omega)]

theorem compareRun_idle {state : State} (open_ : opened runText state = none) (paramName value : Text) :
    compareRun paramName value runText state = state ∧ state.pending = none := by
  constructor
  · rw [compareRun,open_]
  · rw [opened] at open_
    split at open_
    · cases open_
    · exact open_

theorem compareRun_missed {state : State} {start : ℕ} {compareText : Text}
    (open_ : opened runText state = some (start,compareText)) (missed : trim (compareText ++ runText) ≠ paramName)
    (value : Text) : ∃ endRun, compareRun paramName value runText state =
      { state with pending := some (start,compareText ++ runText), endRun } := by
  rw [compareRun,open_]
  dsimp only
  rw [if_neg missed]
  exact ⟨_,rfl⟩

/-- With every text too long for the placeholder nothing is replaced, nor will it be. -/
theorem compareRun_outgrown (state : State) (long : ∀ beginRun compareText,
      opened runText state = some (beginRun,compareText) → paramName.length < (trim (compareText ++ runText)).length)
    (value : Text) (start : ℕ) : (compareRun paramName value runText state).runs = state.runs ∧
      Holds paramName start [] (compareRun paramName value runText state).pending none := by
  cases open_ : opened runText state with
  | none =>
    obtain ⟨idle,none_⟩ := compareRun_idle open_ paramName value
    rw [idle,none_]
    exact ⟨rfl,rfl,fun _ _ same => by cases same⟩
  | some pair =>
    obtain ⟨beginRun,compareText⟩ := pair
    have longer := long _ _ open_
    have missed : trim (compareText ++ runText) ≠ paramName := fun same => by
      rw [same] at longer
      exact Nat.lt_irrefl _ longer
    obtain ⟨endRun,compared⟩ := compareRun_missed open_ missed value
    rw [compared]
    exact ⟨rfl,rfl,fun _ _ same => by cases same; exact Nat.le_of_lt longer⟩

theorem visit_blank {state : State} {run : Option Text} (present : state.runs[state.i]? = some run)
    (blank : trim (run.getD []) = []) (compile : Compile) (paramName value : Text) :
    visit compile paramName value state = some { state with i := state.i+1 } := by
  rw [visit,present]
  cases run with
  | none => rfl
  | some text => exact if_pos blank

theorem visit_text {state : State} {text : Text} {inserted : List Text} (present : state.runs[state.i]? = some (some text))
    (nonblank : trim text ≠ []) (done : insertTexts compile paramName value text = some inserted) :
    visit compile paramName value state = some { compareRun paramName value text
      { state with runs := insertRuns state.runs state.i inserted } with i := state.i+1 } := by
  have place (state : State) : (compareRun paramName value text state).i = state.i := by
    rw [compareRun]
    split
    · rfl
    · dsimp only
      split <;> rfl
  rw [visit,present]
  change (if trim text = [] then _ else _) = _
  rw [if_neg nonblank,done]
  simp only [Option.bind_eq_bind,Option.bind_some,place]

/-- What was compared is long enough, so that the placeholder comes with no other text. -/
theorem outgrown {compareText : Text} (long : key.paramName.length ≤ (trim compareText).length) (nonblank : trim runText ≠ []) :
    key.paramName.length < (trim (compareText ++ runText)).length := by
  have first : trim compareText ≠ [] := fun empty => by
    rw [empty] at long
    exact absurd long (Nat.not_le.mpr (List.length_pos_of_ne_nil key.some))
  have longer := (trim_longer first nonblank).1
  omega

theorem texts_append (first second : Runs) :
    (texts (first ++ second)).flatten = (texts first).flatten ++ (texts second).flatten := by
  rw [texts,List.map_append,List.flatten_append]
  rfl

theorem Holds.raw {start : ℕ} {hold : Runs} {begun : Option (ℕ × Text)} {pending : Option (Text × Text)}
    (holds : Holds paramName start hold begun pending) : raw pending = (texts hold).flatten := by
  cases pending with
  | none =>
    rw [holds.1]
    rfl
  | some pair => exact holds.1

theorem run_present {done hold rest : Runs} {run : Option Text} {state : State} (runs : state.runs = done ++ hold ++ run::rest)
    (place : state.i = done.length+hold.length) : state.runs[state.i]? = some run := by
  rw [runs,place,← List.length_append,List.getElem?_append_right (Nat.le_refl _),Nat.sub_self]
  rfl

theorem visit_quiet {state : State} {text : Text} (present : state.runs[state.i]? = some (some text))
    (nonblank : trim text ≠ []) (quiet : Quiet compile paramName text) (value : Text) :
    visit compile paramName value state = some { compareRun paramName value text state with i := state.i+1 } := by
  rw [visit_text present nonblank (insertTexts_quiet quiet value),insertRuns,if_pos rfl]

/-- Seen from any place before these runs, the loop returns with what the items come to. -/
def Onward (compile : Compile) (key : Key) (value : Text) (rest : Runs) (items : List Item) : Prop :=
  ∀ (done hold : Runs) (state : State) (pending : Option (Text × Text)), state.runs = done ++ hold ++ rest →
    state.i = done.length+hold.length → Holds key.paramName done.length hold state.pending pending →
    Comes compile key.paramName value state ((texts done).flatten ++ rewrite key.paramName value pending items)

variable {rest : Runs} {items : List Item}

theorem Onward.skip {run : Option Text} (onward : Onward compile key value rest items)
    (blank : trim (run.getD []) = []) : Onward compile key value (run::rest) (.run (run.getD [])::items) := by
  intro done hold state pending runs place holds
  have present := run_present runs place
  refine Comes.next (List.getElem?_eq_some_iff.mp present).1 (visit_blank present blank _ _ _) ?_
  cases pending with
  | none =>
    obtain ⟨rfl,dead⟩ := holds
    have later := onward (done ++ [run]) [] { state with i := state.i+1 } none (by simpa using runs) (by simpa using place)
      ⟨rfl,dead⟩
    rw [rewrite,if_pos blank]
    rw [texts_append,List.append_assoc] at later
    simpa [texts] using later
  | some pair =>
    obtain ⟨before,compareText⟩ := pair
    obtain ⟨rfl,begun,live⟩ := holds
    have longer : state.i+1 = done.length+(hold ++ [run]).length := by
      rw [List.length_append,List.length_singleton,place,Nat.add_assoc]
    have text : (texts hold).flatten ++ run.getD [] = (texts (hold ++ [run])).flatten := by
      rw [texts_append]
      simp [texts]
    rw [rewrite,if_pos blank]
    exact onward done (hold ++ [run]) { state with i := state.i+1 } (some (_,compareText)) (by simpa using runs) longer
      ⟨text,begun,live⟩

/-- The run is compared with those that are held: the placeholder is there, or goes on. -/
theorem Onward.compared (onward : Onward compile key value rest items) {done : Runs} (hold : Runs) {state : State}
    {text compareText : Text} (runs : state.runs = done ++ hold ++ some text::rest)
    (place : state.i = done.length+hold.length) (open_ : opened text state = some (done.length,compareText))
    (nonblank : trim text ≠ []) : Comes compile key.paramName value
      { compareRun key.paramName value text state with i := state.i+1 } ((texts done).flatten ++
        if trim (compareText ++ text) = key.paramName then
          replace key.paramName value (compareText ++ text) ++ rewrite key.paramName value none items
        else rewrite key.paramName value (some ((texts hold).flatten ++ text,compareText ++ text)) items) := by
  split
  next found =>
    rw [compareRun_found runs place open_ nonblank found]
    have later := onward (done ++ some (replace key.paramName value (compareText ++ text))::List.replicate hold.length (some []))
      [] { runs := done ++ some (replace key.paramName value (compareText ++ text))::
            (List.replicate hold.length (some []) ++ rest)
           i := state.i+1
           pending := some (state.i,compareText ++ text)
           endRun := some state.i } none (by simp) (by simp; omega)
      ⟨rfl,fun _ _ same => by cases same; rw [found]⟩
    have emptied : (texts (some (replace key.paramName value (compareText ++ text))::List.replicate hold.length (some []))).flatten =
        replace key.paramName value (compareText ++ text) := by
      simp [texts]
    rwa [texts_append,emptied,List.append_assoc] at later
  next missed =>
    obtain ⟨endRun,compared⟩ := compareRun_missed open_ missed value
    have longer : state.i+1 = done.length+(hold ++ [some text]).length := by
      rw [List.length_append,List.length_singleton,place,Nat.add_assoc]
    have held : (texts hold).flatten ++ text = (texts (hold ++ [some text])).flatten := by
      rw [texts_append]
      simp [texts]
    have live : trim (compareText ++ text) ≠ [] := by
      intro empty
      exact nonblank (trim_nil.mpr fun u inside => trim_nil.mp empty u (List.mem_append_right _ inside))
    rw [compared]
    exact onward done (hold ++ [some text]) _ (some (_,compareText ++ text)) (by simpa using runs) longer ⟨held,rfl,live⟩

theorem Onward.run {text : Text} (onward : Onward compile key value rest items) (nonblank : trim text ≠ [])
    (quiet : Quiet compile key.paramName text) : Onward compile key value (some text::rest) (.run text::items) := by
  intro done hold state pending runs place holds
  have present := run_present runs place
  refine Comes.next (List.getElem?_eq_some_iff.mp present).1 (visit_quiet present nonblank quiet value) ?_
  -- What was held is given up where a run begins anew.
  by_cases begun : starts text = true
  · have open_ : opened text state = some ((done ++ hold).length,[]) := by
      rw [opened,if_pos begun,place,List.length_append]
    have compared := onward.compared [] (by simpa using runs) (by simpa using place) open_ nonblank
    rw [texts_append,List.append_assoc] at compared
    rw [rewrite_starts nonblank begun,holds.raw]
    exact compared
  · have open_ : opened text state = state.pending := if_neg begun
    cases pending with
    | some pair =>
      obtain ⟨before,compareText⟩ := pair
      obtain ⟨rfl,begins,_⟩ := holds
      have compared := onward.compared hold runs place (open_.trans begins) nonblank
      rw [rewrite,if_neg nonblank,if_neg begun]
      exact compared
    | none =>
      obtain ⟨rfl,dead⟩ := holds
      obtain ⟨kept,after⟩ := compareRun_outgrown state
        (fun beginRun compareText same => outgrown (dead _ _ (open_.symm.trans same)) nonblank) value (done.length+1)
      have later := onward (done ++ [some text]) [] { compareRun key.paramName value text state with i := state.i+1 } none
        (by simpa [kept] using runs) (by simpa using place) (by rw [List.length_append]; exact after)
      rw [texts_append,List.append_assoc] at later
      rw [rewrite,if_neg nonblank,if_neg begun]
      simpa [texts] using later

/-- The replacement goes before the text, with which the loop goes on. -/
theorem Onward.put {before : Text} (onward : Onward compile key value (some before::some []::rest) items)
    (nonblank : trim before ≠ []) (absent : ¬ key.paramName <:+: before)
    (literally : Literally compile key.paramName (before ++ key.paramName)) :
    Onward compile key value (some (before ++ key.paramName)::rest) (.put::items) := by
  intro done hold state pending runs place holds
  have present := run_present runs place
  have some_ : trim (before ++ key.paramName) ≠ [] := fun empty =>
    nonblank (trim_nil.mpr fun u inside => trim_nil.mp empty u (List.mem_append_left _ inside))
  refine Comes.next (List.getElem?_eq_some_iff.mp present).1
    (visit_text present some_ (insertTexts_ending literally nonblank absent value)) ?_
  have front : state.runs.take state.i = done ++ hold := by
    rw [runs,place,← List.length_append,List.take_left]
  have behind : state.runs.drop (state.i+1) = rest := by
    rw [runs,place,← List.length_append,← List.drop_drop,List.drop_left]
    rfl
  have put : insertRuns state.runs state.i [value,before] =
      (done ++ hold ++ [some value]) ++ [] ++ some before::some []::rest := by
    rw [insertRuns,if_neg (List.cons_ne_nil _ _),front,behind]
    simp
  have longer : ∀ compareText : Text,
      key.paramName.length < (trim (compareText ++ (before ++ key.paramName))).length := by
    intro compareText
    have more : trim (compareText ++ before) ≠ [] := fun empty =>
      nonblank (trim_nil.mpr fun u inside => trim_nil.mp empty u (List.mem_append_right _ inside))
    have grown := (trim_longer more (trim_self key.trimmed ▸ key.some)).2
    rwa [trim_self key.trimmed,List.append_assoc] at grown
  obtain ⟨kept,after⟩ := compareRun_outgrown { state with runs := insertRuns state.runs state.i [value,before] }
    (fun _ compareText _ => longer compareText) value (done ++ hold ++ [some value]).length
  have later := onward (done ++ hold ++ [some value]) [] { compareRun key.paramName value (before ++ key.paramName)
      { state with runs := insertRuns state.runs state.i [value,before] } with i := state.i+1 } none
    (kept.trans put) (by rw [place]; simp [Nat.add_assoc]) after
  have text : (texts (done ++ hold ++ [some value])).flatten = (texts done).flatten ++ ((texts hold).flatten ++ value) := by
    rw [texts_append,texts_append,List.append_assoc]
    simp [texts]
  rw [text,List.append_assoc] at later
  rw [rewrite_put,holds.raw]
  exact later

theorem loop_shows (shows : Shows compile key.paramName rest items) (value : Text) :
    Onward compile key value rest items := by
  induction shows with
  | nil =>
    intro done hold state pending runs place holds
    refine ⟨1,state.runs,?_,?_⟩
    · rw [loop,if_pos]
      rw [runs,place,List.append_nil,List.length_append]
    · rw [runs,List.append_nil,texts_append,rewrite_nil,holds.raw]
  | skip blank shows ih => exact ih.skip blank
  | run nonblank quiet shows ih => exact ih.run nonblank quiet
  | put nonblank absent literally shows ih => exact ih.put nonblank absent literally

theorem loop_unique {fuel fuel' : ℕ} {state : State} {final final' : Runs}
    (done : loop compile paramName value fuel state = some final)
    (done' : loop compile paramName value fuel' state = some final') : final = final' := by
  induction fuel generalizing fuel' state with
  | zero => cases done
  | succ fuel ih =>
    cases fuel' with
    | zero => cases done'
    | succ fuel' =>
      rw [loop] at done done'
      split at done
      next last =>
        rw [if_pos last] at done'
        exact Option.some.inj (done.symm.trans done')
      next more =>
        rw [if_neg more] at done'
        obtain ⟨next,visited,done⟩ := Option.bind_eq_some_iff.mp done
        rw [visited] at done'
        exact ih done done'

/-- The items come to the text of the only result there is. -/
theorem right_shows {runs : Runs} (shows : Shows compile key.paramName runs items) (value : Text) :
    Right compile key value runs ↔ (Clean key.paramName (texts runs) →
      rewrite key.paramName value none items = replace key.paramName value (texts runs).flatten) := by
  obtain ⟨fuel,final,done,comes⟩ := loop_shows shows value [] [] ⟨runs,0,none,none⟩ none rfl rfl
    ⟨rfl,fun _ _ same => by cases same⟩
  have text : (texts final).flatten = rewrite key.paramName value none items := comes
  constructor
  · rintro ⟨other,⟨fuel',done'⟩,right⟩ clean
    obtain rfl := loop_unique done done'
    rw [← text]
    exact right clean
  · intro right
    exact ⟨final,⟨fuel,done⟩,fun clean => text.trans (right clean)⟩

private theorem Literally.quiet_whole {before : Text}
    (literally : Literally compile key.paramName (before ++ key.paramName))
    (absent : ¬ key.paramName <:+: before) (blank : trim before = []) :
    Quiet compile key.paramName (before ++ key.paramName) := by
  obtain ⟨find,compiled,finds⟩ := literally
  refine ⟨find,compiled,fun tag first => ?_⟩
  have whole := finds _ (.inl rfl)
  rw [← List.append_nil (before ++ key.paramName)] at whole first ⊢
  rw [(find_first whole absent).2] at first
  cases first
  rw [trim_blanks (trim_nil.mp blank) key.trimmed key.some blank_nil]

private theorem Literally.quiet_before {before : Text}
    (literally : Literally compile key.paramName (before ++ key.paramName))
    (absent : ¬ key.paramName <:+: before) : Quiet compile key.paramName before := by
  obtain ⟨find,compiled,finds⟩ := literally
  refine ⟨find,compiled,fun tag first => ?_⟩
  rw [tags,finds before (.inr rfl),occurrences_none key.some absent] at first
  cases first

private theorem shows_of {runs : Runs}
    (quiet : ∀ text, some text ∈ runs → trim text ≠ [] → Quiet compile key.paramName text ∨
    Literally compile key.paramName text ∧ Ending key.paramName text) : ∃ items, Shows compile key.paramName runs items := by
  induction runs with
  | nil => exact ⟨[],.nil⟩
  | cons run rest ih =>
    obtain ⟨items,shows⟩ := ih fun text inside => quiet text (List.mem_cons_of_mem _ inside)
    by_cases blank : trim (run.getD []) = []
    · exact ⟨_,.skip blank shows⟩
    · cases run with
      | none => exact absurd rfl blank
      | some text =>
        rcases quiet text List.mem_cons_self blank with still | ⟨literally,before,rfl,absent⟩
        · exact ⟨_,.run blank still shows⟩
        · by_cases empty : trim before = []
          · exact ⟨_,.run blank (literally.quiet_whole absent empty) shows⟩
          · exact ⟨_,.put empty absent literally (.run empty (literally.quiet_before absent) (.skip rfl shows))⟩

theorem Shows.shown {runs : Runs} (shows : Shows compile key.paramName runs items) :
    ∃ mark, mark ≠ opening ∧ Shown key.paramName mark (texts runs) items := by
  induction shows with
  | nil => exact ⟨closing,by decide,.nil⟩
  | skip blank shows ih =>
    obtain ⟨mark,other,shown⟩ := ih
    exact ⟨mark,other,.run _ shown⟩
  | run nonblank quiet shows ih =>
    obtain ⟨mark,other,shown⟩ := ih
    exact ⟨mark,other,.run _ shown⟩
  | @put before rest items nonblank absent literally shows ih =>
    by_cases taken : before.head? = some closing
    · exact ⟨space,by decide,.put _ _ nonblank (by rw [taken]; decide) absent⟩
    · exact ⟨closing,by decide,.put _ _ nonblank taken absent⟩

/-- A run that is put in for itself comes again and again. -/
theorem right_quiet {runs : Runs} (known : Known compile key runs) (right : ∀ value, Right compile key value runs) :
    ∀ text, some text ∈ runs → trim text ≠ [] → Quiet compile key.paramName text ∨
      Literally compile key.paramName text ∧ Ending key.paramName text := by
  intro text inside nonblank
  by_contra bad
  rw [not_or,not_and] at bad
  obtain ⟨loud,open_⟩ := bad
  have again : Returning compile key.paramName text := by
    rcases (known text inside nonblank).resolve_left loud with literally | again
    · exact fun inserted done => insertTexts_behind literally loud (open_ literally) done
    · exact again
  obtain ⟨j,present⟩ := List.mem_iff_getElem?.mp inside
  obtain ⟨final,⟨fuel,done⟩,_⟩ := right text
  have stuck : Stuck text ⟨runs,0,none,none⟩ :=
    ⟨⟨j,Nat.zero_le _,present⟩,(fun _ _ same => by cases same),fun _ same => by cases same⟩
  rw [replaceText,loop_stuck nonblank again fuel stuck] at done
  cases done

/-- The condition is enough whatever the regular expression finds, and needed unless it
finds something else, and just at the end of a run. -/
theorem replaceText_right_iff (compile : Compile) (key : Key) (runs : Runs) :
    (Safe compile key runs → ∀ value, Right compile key value runs) ∧
      (Known compile key runs → (∀ value, Right compile key value runs) → Safe compile key runs) := by
  constructor
  · intro safe value
    obtain ⟨items,shows⟩ := shows_of safe.quiet
    obtain ⟨mark,other,shown⟩ := shows.shown
    exact (right_shows shows value).mpr fun clean => (rewrite_iff shown clean other).1 (safe.good clean) value
  · intro known right
    have quiet := right_quiet known right
    obtain ⟨items,shows⟩ := shows_of quiet
    obtain ⟨mark,other,shown⟩ := shows.shown
    exact ⟨quiet,fun clean => (rewrite_iff shown clean other).2 ((right_shows shows [mark]).mp (right [mark]) clean)⟩

/-- Regular expressions without special characters. -/
def literal : Compile := fun pattern => some (occurrences pattern)

def sample : Key := ⟨units "k",by decide,by decide⟩

theorem replaceText_fails : ¬ Right literal sample (units "R") [some (units "a<k>")] := by
  rintro ⟨final,⟨fuel,done⟩,right⟩
  have actual : replaceText literal sample.paramName (units "R") 4 [some (units "a<k>")] =
      some [some (units "R"),some (units "a"),some []] := by decide
  obtain rfl := loop_unique done actual
  have clean : Clean sample.paramName (texts [some (units "a<k>")]) := by
    intro before after same
    refine .inl ⟨[],before,after,[],?_,rfl⟩
    rw [← same]
    rfl
  exact absurd (right clean) (by decide)

end YzFramework.Doc.ReplaceText



import YzFramework.Library.Pattern

/-! A placeholder in a text that is cut into runs: the runs that are read together to find
it, and when this finds what the whole text has. -/
namespace YzFramework.Doc.Placeholder
open Library Search Pattern
open Properties (Text)

structure Key where
  units : Text
  opens : opening ∉ units
  closes : closing ∉ units

def Key.paramName (key : Key) : Text := opening::(key.units ++ [closing])

/-- The text from run to run: a run, or a replacement that stands for itself. -/
inductive Item where
  | run (text : Text)
  | put

def starts (text : Text) : Bool := (trim text).head? = some opening

def raw (pending : Option (Text × Text)) : Text := (pending.map Prod.fst).getD []

/-- The text the items come to. Pending are the runs from the last one with an opening
bracket on, and what of them is compared with the placeholder. -/
def rewrite (paramName replaceText : Text) : Option (Text × Text) → List Item → Text
  | pending,[] => raw pending
  | pending,.put::items => raw pending ++ replaceText ++ rewrite paramName replaceText none items
  | pending,.run text::items =>
    if trim text = [] then
      match pending with
      | none => text ++ rewrite paramName replaceText none items
      | some (before,compare) => rewrite paramName replaceText (some (before ++ text,compare)) items
    else if starts text then
      raw pending ++ if trim text = paramName then
        replace paramName replaceText text ++ rewrite paramName replaceText none items
      else rewrite paramName replaceText (some (text,text)) items
    else
      match pending with
      | none => text ++ rewrite paramName replaceText none items
      | some (before,compare) =>
        if trim (compare ++ text) = paramName then
          replace paramName replaceText (compare ++ text) ++ rewrite paramName replaceText none items
        else rewrite paramName replaceText (some (before ++ text,compare ++ text)) items

/-- Read on from what is compared so far, the runs come to the placeholder. -/
def reach (paramName : Text) : Text → List Item → Option (Text × List Item)
  | _,[] => none
  | _,.put::_ => none
  | compare,.run text::items =>
    if trim text = [] then reach paramName compare items
    else if starts text then none
    else if trim (compare ++ text) = paramName then some (compare ++ text,items)
    else reach paramName (compare ++ text) items

/-- The runs' text without the runs that are skipped. -/
def solid (texts : List Text) : Text := (texts.filter (trim · ≠ [])).flatten

/-- Each occurrence lies inside one run or exactly spans a sequence of runs. -/
def Clean (paramName : Text) (texts : List Text) : Prop :=
  ∀ before after, texts.flatten = before ++ paramName ++ after →
    (∃ front left right back, texts = front ++ (left ++ paramName ++ right)::back ∧ before = front.flatten ++ left) ∨
    ∃ front middle back, texts = front ++ (middle ++ back) ∧ middle.flatten = paramName ∧ before = front.flatten

/-- From the first to the last of these runs there is the placeholder, with or without the
blank runs among them. -/
structure Spans (paramName first : Text) (middle : List Text) (last : Text) : Prop where
  begins : trim first ≠ []
  ends : trim last ≠ []
  comes : first ++ middle.flatten ++ last = paramName ∨ trim (first ++ solid middle ++ last) = paramName

/-- A run with the placeholder has nothing else, and there is nothing in a blank run inside
a placeholder. -/
structure Good (paramName : Text) (texts : List Text) : Prop where
  whole : ∀ text ∈ texts, paramName <:+: text → trim text = paramName
  gapless : ∀ front first middle last back, texts = front ++ first::(middle ++ last::back) →
    Spans paramName first middle last → ∀ text ∈ middle, trim text = [] → text = []

/-- The runs as items, up to the first one whose placeholder was put before its text: the
mark tells the two apart. -/
inductive Shown (paramName : Text) (mark : UInt16) : List Text → List Item → Prop
  | nil : Shown paramName mark [] []
  | run (text : Text) {texts : List Text} {items : List Item} (rest : Shown paramName mark texts items) :
      Shown paramName mark (text::texts) (.run text::items)
  | put {before : Text} (texts : List Text) (items : List Item) (nonblank : trim before ≠ [])
      (other : before.head? ≠ some mark) (absent : ¬ paramName <:+: before) :
      Shown paramName mark ((before ++ paramName)::texts) (.put::items)

variable {key : Key} {replaceText : Text} {mark : UInt16}

theorem rewrite_nil (paramName replaceText : Text) (pending : Option (Text × Text)) :
    rewrite paramName replaceText pending [] = raw pending := by cases pending <;> rfl

theorem rewrite_put (paramName replaceText : Text) (pending : Option (Text × Text)) (items : List Item) :
    rewrite paramName replaceText pending (.put::items) =
      raw pending ++ replaceText ++ rewrite paramName replaceText none items := by cases pending <;> rfl

theorem rewrite_starts {text : Text} (nonblank : trim text ≠ []) (begun : starts text = true)
    (paramName replaceText : Text) (pending : Option (Text × Text)) (items : List Item) :
    rewrite paramName replaceText pending (.run text::items) = raw pending ++ if trim text = paramName then
      replace paramName replaceText text ++ rewrite paramName replaceText none items
    else rewrite paramName replaceText (some (text,text)) items := by
  cases pending <;> rw [rewrite,if_neg nonblank,if_pos begun]

theorem rewrite_pending (paramName replaceText before compare : Text) (items : List Item) :
    rewrite paramName replaceText (some (before,compare)) items =
      match reach paramName compare items with
      | some (compare,items) => replace paramName replaceText compare ++ rewrite paramName replaceText none items
      | none => before ++ rewrite paramName replaceText none items := by
  induction items generalizing before compare with
  | nil => simp [rewrite,reach,raw]
  | cons item items ih =>
    cases item with
    | put => simp [rewrite,reach,raw]
    | run text =>
      simp only [rewrite,reach]
      split
      next =>
        rw [ih]
        split <;> simp
      next =>
        split
        next => simp [raw]
        next =>
          split
          next => rfl
          next =>
            rw [ih]
            split <;> simp

theorem reach_some {paramName compare whole : Text} {items later : List Item}
    (reached : reach paramName compare items = some (whole,later)) : ∃ middle last,
      items = middle.map Item.run ++ Item.run last::later ∧ trim last ≠ [] ∧
      whole = compare ++ solid middle ++ last ∧ trim whole = paramName := by
  induction items generalizing compare with
  | nil => cases reached
  | cons item items ih =>
    cases item with
    | put => cases reached
    | run text =>
      rw [reach] at reached
      split at reached
      next blank =>
        obtain ⟨middle,last,rfl,some,rfl,same⟩ := ih reached
        exact ⟨text::middle,last,rfl,some,by simp [solid,blank],same⟩
      next other =>
        split at reached
        next => cases reached
        next =>
          split at reached
          next same =>
            cases reached
            exact ⟨[],text,rfl,other,by simp [solid],same⟩
          next =>
            obtain ⟨middle,last,rfl,some,rfl,same⟩ := ih reached
            exact ⟨text::middle,last,rfl,some,by simp [solid,other],same⟩

theorem blank_opening {text : Text} (blank : Blank text) : opening ∉ text :=
  fun inside => absurd (blank opening inside) (by decide)

theorem blank_closing {text : Text} (blank : Blank text) : closing ∉ text :=
  fun inside => absurd (blank closing inside) (by decide)

theorem Key.trimmed (key : Key) : Trimmed key.paramName := by
  have tail : key.paramName = (opening::key.units) ++ [closing] := by rw [Key.paramName,List.cons_append]
  refine ⟨fun u begun => ?_,fun u ended => ?_⟩
  · cases begun
    decide
  · rw [tail,List.getLast?_concat] at ended
    cases ended
    decide

theorem Key.once (key : Key) : opening ∉ key.units ++ [closing] := by
  rw [List.mem_append,not_or]
  exact ⟨key.opens,by decide⟩

theorem Key.some (key : Key) : key.paramName ≠ [] := List.cons_ne_nil _ _

theorem Key.indexOf_first (key : Key) {before : Text} (absent : ¬ key.paramName <:+: before) (after : Text) :
    indexOf key.paramName (before ++ key.paramName ++ after) = Option.some before.length := by
  have shape : before ++ key.paramName ++ after = before ++ opening::((key.units ++ [closing]) ++ after) := by
    simp [Key.paramName]
  rw [shape]
  exact indexOf_append key.once absent after

theorem Key.closing_inside (key : Key) : closing ∈ key.paramName :=
  List.mem_cons_of_mem _ (List.mem_append_right _ List.mem_cons_self)

theorem replace_apart {before : Text} (plain : opening ∉ before) (replaceText after : Text) :
    replace key.paramName replaceText (before ++ after) = before ++ replace key.paramName replaceText after :=
  replace_plain plain replaceText after

/-- Blanks around the placeholder are kept. -/
theorem replace_around (key : Key) {front back : Text} (before : Blank front) (behind : Blank back) (replaceText after : Text) :
    replace key.paramName replaceText (front ++ key.paramName ++ back ++ after) =
      front ++ replaceText ++ back ++ replace key.paramName replaceText after := by
  rw [List.append_assoc,List.append_assoc,replace_apart (blank_opening before),replace_target key.some,
    replace_apart (blank_opening behind)]
  simp

theorem starts_shape {text : Text} (begun : starts text = true) :
    ∃ front body, text = front ++ opening::body ∧ Blank front := by
  obtain ⟨front,back,shape,blank,_,_⟩ := trim_shape text
  obtain ⟨body,first⟩ := List.head?_eq_some_iff.mp (of_decide_eq_true begun)
  refine ⟨front,body ++ back,?_,blank⟩
  rw [first] at shape
  rw [shape,List.append_assoc,List.cons_append]

theorem starts_of {front body : Text} (blank : Blank front) : starts (front ++ opening::body) = true := by
  have gone : front.dropWhile (· ≤ space) = [] := List.dropWhile_eq_nil_iff.mpr (by simpa [Blank] using blank)
  have kept : ¬ opening ≤ space := by decide
  have trimmed : trim (front ++ opening::body) = opening::body.rdropWhile (· ≤ space) := by
    rw [trim,dropWhile_kept kept,gone]
    exact rdropWhile_kept kept [] body
  rw [starts,trimmed]
  rfl

theorem mem_starts {text : Text} (begun : starts text = true) : opening ∈ text := by
  obtain ⟨front,body,rfl,_⟩ := starts_shape begun
  exact List.mem_append_right _ List.mem_cons_self

theorem starts_paramName {text : Text} (same : trim text = key.paramName) : starts text = true := by
  rw [starts,same]
  rfl

/-- The brackets of a placeholder that goes through several runs: where it begins in the
first of them, and where it ends in the last. -/
theorem brackets (key : Key) {first between last front back : Text} (begins : trim first ≠ []) (ends : trim last ≠ [])
    (before : Blank front) (behind : Blank back)
    (same : first ++ between ++ last = front ++ key.paramName ++ back) :
    ∃ body tail, first = front ++ opening::body ∧ last = tail ++ closing::back ∧ key.units = body ++ between ++ tail := by
  have text : front ++ opening::(key.units ++ closing::back) = first ++ (between ++ last) := by
    rw [← List.append_assoc,same,Key.paramName]
    simp
  rcases List.append_eq_append_iff.mp text with ⟨more,rfl,later⟩ | ⟨more,rfl,_⟩
  · cases more with
    | nil => exact absurd (trim_nil.mpr (by simpa using before)) begins
    | cons u body =>
      rw [List.cons_append] at later
      obtain ⟨rfl,inside⟩ := List.cons.inj later
      rw [← List.append_assoc] at inside
      rcases List.append_eq_append_iff.mp inside with ⟨more,split,end_⟩ | ⟨tail,split,end_⟩
      · cases more with
        | nil => exact ⟨body,[],rfl,by simpa using end_.symm,by simpa using split.symm⟩
        | cons u more =>
          obtain ⟨rfl,rfl⟩ := List.cons.inj end_
          exact absurd (trim_nil.mpr fun u inside => behind u (List.mem_append_right _ inside)) ends
      · exact ⟨body,tail,rfl,end_,split⟩
  · exact absurd (trim_nil.mpr fun u inside => before u (List.mem_append_left _ inside)) begins

theorem solid_cons (text : Text) (texts : List Text) :
    solid (text::texts) = if trim text = [] then solid texts else text ++ solid texts := by
  simp only [solid,List.filter_cons,decide_eq_true_eq]
  split <;> simp_all

private theorem mem_solid {text : Text} {texts : List Text} (inside : text ∈ texts) (some : trim text ≠ [])
    {u : UInt16}
    (member : u ∈ text) : u ∈ solid texts :=
  List.mem_flatten.mpr ⟨text,List.mem_filter.mpr ⟨inside,decide_eq_true some⟩,member⟩

theorem solid_length (texts : List Text) : (solid texts).length ≤ texts.flatten.length := by
  induction texts with
  | nil => exact Nat.le_refl _
  | cons text texts ih =>
    rw [solid_cons,List.flatten_cons,List.length_append]
    split
    · omega
    · rw [List.length_append]
      omega

/-- Nothing is skipped just if the blank runs are empty. -/
theorem solid_eq {texts : List Text} :
    solid texts = texts.flatten ↔ ∀ text ∈ texts, trim text = [] → text = [] := by
  induction texts with
  | nil => simp [solid]
  | cons text texts ih =>
    rw [solid_cons,List.flatten_cons,List.forall_mem_cons]
    split
    next blank =>
      constructor
      · intro same
        have sizes := congrArg List.length same
        have bound := solid_length texts
        rw [List.length_append] at sizes
        have empty : text = [] := List.eq_nil_of_length_eq_zero (by omega)
        exact ⟨fun _ => empty,ih.mp (by simpa [empty] using same)⟩
      · rintro ⟨empty,rest⟩
        rw [empty blank,ih.mpr rest,List.nil_append]
    next other =>
      rw [List.append_cancel_left_eq,ih]
      exact ⟨fun rest => ⟨fun blank => absurd blank other,rest⟩,And.right⟩

/-- The brackets of the placeholder are in the first and in the last run only. -/
structure Bracketed (first : Text) (middle : List Text) (last : Text) : Prop where
  starts : starts first = true
  first : closing ∉ first
  opens : ∀ text ∈ middle, opening ∉ text
  closes : ∀ text ∈ middle, closing ∉ text
  plain : opening ∉ last
  last : closing ∈ last

theorem Spans.bracketed {first last : Text} {middle : List Text} (spans : Spans key.paramName first middle last) :
    Bracketed first middle last := by
  have parts : ∃ between front back body tail, Blank front ∧ Blank back ∧ first = front ++ opening::body ∧
      last = tail ++ closing::back ∧ key.units = body ++ between ++ tail ∧
      ∀ text ∈ middle, ∀ u ∈ text, u ∈ between ∨ u ≤ space := by
    rcases spans.comes with exact_ | around
    · obtain ⟨body,tail,shape,end_,inner⟩ := brackets key spans.begins spans.ends blank_nil blank_nil
        (exact_.trans (by simp))
      exact ⟨_,[],[],body,tail,blank_nil,blank_nil,shape,end_,inner,fun text inside u member =>
        .inl (List.mem_flatten.mpr ⟨text,inside,member⟩)⟩
    · obtain ⟨front,back,whole,before,behind,_⟩ := trim_shape (first ++ solid middle ++ last)
      rw [around] at whole
      obtain ⟨body,tail,shape,end_,inner⟩ := brackets key spans.begins spans.ends before behind whole
      refine ⟨_,front,back,body,tail,before,behind,shape,end_,inner,fun text inside u member => ?_⟩
      obtain blank | some := eq_or_ne (trim text) []
      · exact .inr (trim_nil.mp blank u member)
      · exact .inl (mem_solid inside some member)
  obtain ⟨between,front,back,body,tail,before,behind,rfl,rfl,inner,inside⟩ := parts
  have opens := inner ▸ key.opens
  have closes := inner ▸ key.closes
  simp only [List.mem_append,not_or] at opens closes
  refine ⟨starts_of before,?_,?_,?_,?_,List.mem_append_right _ List.mem_cons_self⟩
  · rw [List.mem_append,List.mem_cons,not_or,not_or]
    exact ⟨blank_closing before,by decide,closes.1.1⟩
  · intro text member found
    exact (inside text member opening found).elim opens.1.2 (by decide)
  · intro text member found
    exact (inside text member closing found).elim closes.1.2 (by decide)
  · rw [List.mem_append,List.mem_cons,not_or,not_or]
    exact ⟨opens.2,by decide,blank_opening behind⟩

theorem Shown.texts {paramName : Text} {texts middle : List Text} {items later : List Item} {last : Text}
    (shown : Shown paramName mark texts items) (split : items = middle.map Item.run ++ Item.run last::later) :
    ∃ back, texts = middle ++ last::back ∧ Shown paramName mark back later := by
  induction middle generalizing texts items with
  | nil =>
    cases split
    cases shown with
    | run text rest => exact ⟨_,rfl,rest⟩
  | cons text middle ih =>
    cases split
    cases shown with
    | run text rest =>
      obtain ⟨back,rfl,others⟩ := ih rest rfl
      exact ⟨back,rfl,others⟩

theorem Shown.items {texts middle back : List Text} {items : List Item} {last : Text}
    (shown : Shown key.paramName mark texts items) (split : texts = middle ++ last::back)
    (opens : ∀ text ∈ middle, opening ∉ text) (plain : opening ∉ last) :
    ∃ later, items = middle.map Item.run ++ Item.run last::later := by
  have apart : ∀ before : Text, opening ∈ before ++ key.paramName := fun before =>
    List.mem_append_right _ List.mem_cons_self
  induction middle generalizing texts items with
  | nil =>
    cases split
    cases shown with
    | run text rest => exact ⟨_,rfl⟩
    | put => exact absurd (apart _) plain
  | cons text middle ih =>
    cases split
    rw [List.forall_mem_cons] at opens
    cases shown with
    | put => exact absurd (apart _) opens.1
    | run text rest =>
      obtain ⟨later,rfl⟩ := ih rest rfl opens.2
      exact ⟨later,rfl⟩

theorem rewrite_plain {middle : List Text} (opens : ∀ text ∈ middle, opening ∉ text) (paramName replaceText : Text)
    (items : List Item) : rewrite paramName replaceText none (middle.map Item.run ++ items) =
      middle.flatten ++ rewrite paramName replaceText none items := by
  induction middle with
  | nil => rfl
  | cons text middle ih =>
    rw [List.forall_mem_cons] at opens
    have apart : ¬ starts text = true := fun begun => opens.1 (mem_starts begun)
    rw [List.map_cons,List.cons_append,rewrite,List.flatten_cons,List.append_assoc,ih opens.2,
      if_neg apart]
    exact ite_self _

theorem reach_completes {paramName compare last : Text} {middle : List Text} (opens : ∀ text ∈ middle, opening ∉ text)
    (plain : opening ∉ last) (ends : trim last ≠ []) (same : trim (compare ++ solid middle ++ last) = paramName)
    (later : List Item) : reach paramName compare (middle.map Item.run ++ Item.run last::later) ≠ none := by
  induction middle generalizing compare with
  | nil =>
    have apart : ¬ starts last = true := fun begun => plain (mem_starts begun)
    rw [solid,List.filter_nil,List.flatten_nil,List.append_nil] at same
    rw [List.map_nil,List.nil_append,reach,if_neg ends,if_neg apart,if_pos same]
    exact Option.some_ne_none _
  | cons text middle ih =>
    rw [List.forall_mem_cons] at opens
    have apart : ¬ starts text = true := fun begun => opens.1 (mem_starts begun)
    rw [solid_cons] at same
    rw [List.map_cons,List.cons_append,reach,if_neg apart]
    split
    next blank =>
      rw [if_pos blank] at same
      exact ih opens.2 same
    next other =>
      rw [if_neg other,← List.append_assoc] at same
      split
      next => exact Option.some_ne_none _
      next => exact ih opens.2 same

private theorem clean_tail {text : Text} {texts : List Text} (clean : Clean key.paramName (text::texts)) :
    Clean key.paramName texts := by
  intro before after same
  have whole : (text::texts).flatten = text ++ before ++ key.paramName ++ after := by
    rw [List.flatten_cons,same]
    simp
  rcases clean _ _ whole with ⟨front,left,right,back,split,place⟩ | ⟨front,middle,back,split,spanned,place⟩
  · cases front with
    | nil =>
      cases split
      have sizes := congrArg List.length place
      have positive := List.length_pos_of_ne_nil key.some
      simp only [List.length_append,List.flatten_nil,List.length_nil] at sizes
      omega
    | cons first front =>
      cases split
      rw [List.flatten_cons,List.append_assoc,List.append_cancel_left_eq] at place
      exact .inl ⟨front,left,right,back,rfl,place⟩
  · cases front with
    | nil =>
      obtain ⟨rfl,rfl⟩ := List.append_eq_nil_iff.mp place
      cases middle with
      | nil => exact absurd spanned.symm key.some
      | cons first middle =>
        cases split
        exact .inr ⟨[],middle,back,rfl,spanned,rfl⟩
    | cons first front =>
      cases split
      rw [List.flatten_cons,List.append_cancel_left_eq] at place
      exact .inr ⟨front,middle,back,rfl,spanned,place⟩

/-- An occurrence that begins in the first run lies in it, or the run is what it begins with. -/
theorem Clean.first {left right : Text} {texts : List Text} (clean : Clean key.paramName ((left ++ right)::texts))
    (some : right ≠ []) (begun : key.paramName <+: right ++ texts.flatten) :
    key.paramName <:+: left ++ right ∨
      ∃ middle back, texts = middle ++ back ∧ left ++ right ++ middle.flatten = key.paramName := by
  obtain ⟨after,same⟩ := begun
  have whole : ((left ++ right)::texts).flatten = left ++ key.paramName ++ after := by
    rw [List.flatten_cons,List.append_assoc,← same,List.append_assoc]
  have positive := List.length_pos_of_ne_nil some
  rcases clean _ _ whole with ⟨front,before,behind,back,split,place⟩ | ⟨front,middle,back,split,spanned,place⟩
  · cases front with
    | nil =>
      obtain ⟨shape,_⟩ := List.cons.inj split
      exact .inl ⟨before,behind,shape.symm⟩
    | cons first front =>
      cases split
      have sizes := congrArg List.length place
      simp only [List.length_append,List.flatten_cons] at sizes
      omega
  · cases front with
    | nil =>
      cases middle with
      | nil => exact absurd spanned.symm key.some
      | cons first middle =>
        obtain ⟨rfl,rest⟩ := List.cons.inj split
        exact .inr ⟨middle,back,rest,spanned⟩
    | cons first front =>
      cases split
      have sizes := congrArg List.length place
      simp only [List.length_append,List.flatten_cons] at sizes
      omega

/-- What `Good` asks of the first run. -/
structure Head (paramName first : Text) (texts : List Text) : Prop where
  whole : paramName <:+: first → trim first = paramName
  gapless : ∀ middle last back, texts = middle ++ last::back → Spans paramName first middle last →
    ∀ text ∈ middle, trim text = [] → text = []

theorem good_cons {paramName first : Text} {texts : List Text} :
    Good paramName (first::texts) ↔ Head paramName first texts ∧ Good paramName texts := by
  constructor
  · intro good
    refine ⟨⟨good.whole first List.mem_cons_self,?_⟩,⟨fun text inside => good.whole text (List.mem_cons_of_mem _ inside),?_⟩⟩
    · rintro middle last back rfl spans
      exact good.gapless [] first middle last back rfl spans
    · rintro front other middle last back rfl spans
      exact good.gapless (first::front) other middle last back rfl spans
  · rintro ⟨head,good⟩
    refine ⟨fun text inside => ?_,?_⟩
    · rcases List.mem_cons.mp inside with rfl | later
      · exact head.whole
      · exact good.whole text later
    · intro front other middle last back split spans
      cases front with
      | nil =>
        cases split
        exact head.gapless middle last back rfl spans
      | cons text front =>
        cases split
        exact good.gapless front other middle last back rfl spans

/-- The first run comes out as it should, whatever it is replaced by, so that the others decide. -/
structure Agrees (key : Key) (first : Text) (texts : List Text) (items : List Item) : Prop where
  same : ∀ replaceText, rewrite key.paramName replaceText none (.run first::items) =
      replace key.paramName replaceText (first::texts).flatten ↔
    rewrite key.paramName replaceText none items = replace key.paramName replaceText texts.flatten
  head : Head key.paramName first texts

/-- The first run does not, and the mark shows it. -/
structure Differs (key : Key) (mark : UInt16) (first : Text) (texts : List Text) (items : List Item) : Prop where
  apart : rewrite key.paramName [mark] none (.run first::items) ≠ replace key.paramName [mark] (first::texts).flatten
  head : ¬ Head key.paramName first texts

section
variable {first : Text} {texts : List Text} {items : List Item}

private theorem agrees_kept (kept : ∀ replaceText, rewrite key.paramName replaceText none (.run first::items) =
      first ++ rewrite key.paramName replaceText none items)
    (apart : ∀ left right, first = left ++ right → right ≠ [] → ¬ key.paramName <+: right ++ texts.flatten)
    (alone : ∀ middle last back, texts = middle ++ last::back → ¬ Spans key.paramName first middle last) :
    Agrees key first texts items := by
  refine ⟨fun replaceText => ?_,⟨?_,fun middle last back split spans => absurd spans (alone middle last back split)⟩⟩
  · rw [kept,List.flatten_cons,replace_kept replaceText _ apart,List.append_cancel_left_eq]
  · rintro ⟨left,right,shape⟩
    have begun : key.paramName <+: key.paramName ++ right ++ texts.flatten := by
      rw [List.append_assoc]
      exact List.prefix_append _ _
    exact absurd begun (apart left _ (by rw [← shape,List.append_assoc]) (List.append_ne_nil_of_left_ne_nil key.some _))

private theorem differs_mixed (kept : rewrite key.paramName [mark] none (.run first::items) =
      first ++ rewrite key.paramName [mark] none items)
    (inside : key.paramName <:+: first) (mixed : trim first ≠ key.paramName) (other : mark ≠ opening) :
    Differs key mark first texts items := by
  refine ⟨?_,fun head => mixed (head.whole inside)⟩
  obtain ⟨left,right,rfl,absent⟩ := first_occurrence key.some inside
  have whole : (left ++ key.paramName ++ right) ++ texts.flatten =
      left ++ opening::((key.units ++ [closing]) ++ (right ++ texts.flatten)) := by simp [Key.paramName]
  rw [kept,List.flatten_cons,whole,Key.paramName,replace_before key.once absent]
  intro same
  simp at same
  exact other same.1.symm

private theorem agrees_whole (whole : trim first = key.paramName) : Agrees key first texts items := by
  obtain ⟨front,back,shape,before,behind,_⟩ := trim_shape first
  rw [whole] at shape
  refine ⟨fun replaceText => ?_,⟨fun _ => whole,?_⟩⟩
  · have begun : trim first ≠ [] := by rw [whole]; exact key.some
    have alone : replace key.paramName replaceText first = front ++ replaceText ++ back := by
      have around := replace_around key before behind replaceText []
      rwa [← shape,List.append_nil,replace_nil,List.append_nil] at around
    have around := replace_around key before behind replaceText texts.flatten
    rw [← shape] at around
    rw [rewrite,if_neg begun,if_pos (starts_paramName whole),if_pos whole,List.flatten_cons,around,alone,raw]
    simp
  · intro middle last back' split spans
    have outside := spans.bracketed.first
    rw [shape,List.mem_append,List.mem_append] at outside
    exact absurd (.inl (.inr key.closing_inside)) outside

theorem append_key {before after : Text} (same : before ++ after = key.paramName) (inside : closing ∈ before) :
    before = key.paramName ∧ after = [] := by
  have tail : before ++ after = (opening::key.units) ++ [closing] := by rw [same,Key.paramName,List.cons_append]
  rcases List.append_eq_append_iff.mp tail with ⟨more,split,_⟩ | ⟨more,rfl,later⟩
  · have plain : closing ∉ opening::key.units := by
      rw [List.mem_cons,not_or]
      exact ⟨by decide,key.closes⟩
    exact absurd (split ▸ List.mem_append_left _ inside) plain
  · cases more with
    | nil =>
      rw [List.append_nil] at inside
      rcases List.mem_cons.mp inside with wrong | wrong
      · cases wrong
      · exact absurd wrong key.closes
    | cons u more =>
      obtain ⟨rfl,rest⟩ := List.cons.inj later
      obtain ⟨rfl,rfl⟩ := List.append_eq_nil_iff.mp rest.symm
      exact ⟨(List.cons_append).symm ▸ rfl,rfl⟩

/-- Where the runs that are read together end is the only place where they can. -/
theorem middle_unique {middle middle' back back' : List Text} {last last' : Text}
    (same : middle ++ last::back = middle' ++ last'::back') (plain : ∀ text ∈ middle, closing ∉ text)
    (ends : closing ∈ last) (plain' : ∀ text ∈ middle', closing ∉ text) (ends' : closing ∈ last') : middle = middle' := by
  induction middle generalizing middle' with
  | nil =>
    cases middle' with
    | nil => rfl
    | cons text middle' =>
      cases same
      exact absurd ends (plain' _ List.mem_cons_self)
  | cons text middle ih =>
    cases middle' with
    | nil =>
      cases same
      exact absurd ends' (plain _ List.mem_cons_self)
    | cons text' middle' =>
      rw [List.forall_mem_cons] at plain plain'
      obtain ⟨rfl,rest⟩ := List.cons.inj same
      rw [ih rest plain.2 plain'.2]

/-- What the runs that are read together come to: the blanks around the placeholder stay. -/
theorem rewrite_through {whole front behind : Text} {later : List Item} (begun : starts first = true)
    (short : trim first ≠ key.paramName) (reached : reach key.paramName first items = some (whole,later))
    (shape : whole = front ++ key.paramName ++ behind) (before : Blank front) (blank : Blank behind) (replaceText : Text) :
    rewrite key.paramName replaceText none (.run first::items) =
      front ++ replaceText ++ behind ++ rewrite key.paramName replaceText none later := by
  have begins : trim first ≠ [] := fun empty => blank_opening (trim_nil.mp empty) (mem_starts begun)
  have alone : replace key.paramName replaceText whole = front ++ replaceText ++ behind := by
    have around := replace_around key before blank replaceText []
    rwa [← shape,List.append_nil,replace_nil,List.append_nil] at around
  rw [rewrite_starts begins begun,if_neg short,rewrite_pending,reached]
  dsimp only
  rw [alone]
  rfl

/-- Nothing was skipped: the whole text has the placeholder there, too. -/
theorem agrees_through {middle back : List Text} {last front behind : Text} {later : List Item}
    (spans : Spans key.paramName first middle last) (full : solid middle = middle.flatten)
    (shape : first ++ solid middle ++ last = front ++ key.paramName ++ behind) (before : Blank front)
    (blank : Blank behind) (comes : ∀ replaceText, rewrite key.paramName replaceText none
        (.run first::(middle.map Item.run ++ Item.run last::later)) =
      front ++ replaceText ++ behind ++ rewrite key.paramName replaceText none later) :
    Agrees key first (middle ++ last::back) (middle.map Item.run ++ Item.run last::later) := by
  have found := spans.bracketed
  refine ⟨fun replaceText => ?_,fun inside => ?_,?_⟩
  · have rest : rewrite key.paramName replaceText none (middle.map Item.run ++ Item.run last::later) =
        (middle.flatten ++ last) ++ rewrite key.paramName replaceText none later := by
      have kept := rewrite_plain found.opens key.paramName replaceText (Item.run last::later)
      have tail := rewrite_plain (List.forall_mem_singleton.mpr found.plain) key.paramName replaceText later
      rw [kept,List.append_assoc]
      simpa using tail
    have plain : opening ∉ middle.flatten ++ last := by
      rw [List.mem_append,List.mem_flatten,not_or]
      exact ⟨fun ⟨text,inside,member⟩ => found.opens text inside member,found.plain⟩
    have outer : (first::(middle ++ last::back)).flatten = front ++ key.paramName ++ behind ++ back.flatten := by
      rw [full] at shape
      simp only [List.flatten_cons,List.flatten_append,← List.append_assoc]
      rw [shape]
    have inner : (middle ++ last::back).flatten = (middle.flatten ++ last) ++ back.flatten := by simp
    rw [comes,rest,outer,inner,replace_around key before blank,replace_apart plain,List.append_cancel_left_eq,
      List.append_cancel_left_eq]
  · exact absurd (inside.subset key.closing_inside) found.first
  · intro middle' last' back' same spans'
    have brackets := spans'.bracketed
    obtain rfl := middle_unique same found.closes found.last brackets.closes brackets.last
    exact solid_eq.mp full

/-- Something was skipped: in the whole text there is no placeholder. -/
theorem differs_through {middle back : List Text} {last front behind : Text} {later : List Item}
    (other : mark ≠ opening) (spans : Spans key.paramName first middle last) (gap : solid middle ≠ middle.flatten)
    (shape : first ++ solid middle ++ last = front ++ key.paramName ++ behind) (before : Blank front)
    (blank : Blank behind) (comes : rewrite key.paramName [mark] none (.run first::items) =
      front ++ [mark] ++ behind ++ rewrite key.paramName [mark] none later) :
    Differs key mark first (middle ++ last::back) items := by
  refine ⟨?_,fun head => gap (solid_eq.mpr (head.gapless middle last back rfl spans))⟩
  have found := spans.bracketed
  obtain ⟨body,tail,rfl,rfl,inner⟩ := brackets key spans.begins spans.ends before blank shape
  have apart : ∀ after, ¬ key.paramName <+: opening::(body ++ middle.flatten ++ tail ++ closing::after) := by
    rintro after ⟨more,text⟩
    have inside : key.units ++ closing::more = (body ++ middle.flatten ++ tail) ++ closing::after := by
      simpa [Key.paramName] using text
    obtain ⟨rest,longer,ends⟩ := append_before key.closes inside
    cases rest with
    | nil => exact gap (by simpa [inner] using longer.symm)
    | cons u rest =>
      obtain ⟨rfl,_⟩ := List.cons.inj ends
      have wrong : closing ∈ body ++ middle.flatten ++ tail :=
        longer ▸ List.mem_append_right _ List.mem_cons_self
      have closes := inner ▸ key.closes
      simp only [List.mem_append,not_or] at wrong closes
      rcases wrong with (early | among) | late
      · exact closes.1.1 early
      · obtain ⟨text,present,member⟩ := List.mem_flatten.mp among
        exact found.closes text present member
      · exact closes.2 late
  have outer : ((front ++ opening::body)::(middle ++ (tail ++ closing::behind)::back)).flatten =
      front ++ opening::(body ++ middle.flatten ++ tail ++ closing::(behind ++ back.flatten)) := by simp
  rw [comes,outer,replace_apart (blank_opening before),replace,replaceFrom,if_neg (apart _)]
  intro wrong
  simp at wrong
  exact other wrong.1

private theorem first_through {whole : Text} {later : List Item} (shown : Shown key.paramName mark texts items)
    (other : mark ≠ opening) (begun : starts first = true) (short : trim first ≠ key.paramName)
    (reached : reach key.paramName first items = some (whole,later)) :
    Agrees key first texts items ∨ Differs key mark first texts items := by
  obtain ⟨middle,last,rfl,ends,rfl,same⟩ := reach_some reached
  obtain ⟨back,rfl,_⟩ := shown.texts rfl
  have begins : trim first ≠ [] := fun empty => blank_opening (trim_nil.mp empty) (mem_starts begun)
  have spans : Spans key.paramName first middle last := ⟨begins,ends,.inr same⟩
  obtain ⟨front,behind,shape,before,blank,_⟩ := trim_shape (first ++ solid middle ++ last)
  rw [same] at shape
  have comes := rewrite_through begun short reached shape before blank
  -- Without blank runs in between, what was compared is the text itself.
  by_cases full : solid middle = middle.flatten
  · exact .inl (agrees_through spans full shape before blank comes)
  · exact .inr (differs_through other spans full shape before blank (comes [mark]))

/-- A placeholder that begins in the first run, but is not inside it, spans the runs from it
up to the one with the closing bracket. -/
theorem Clean.spanned (clean : Clean key.paramName (first::texts)) (outside : ¬ key.paramName <:+: first)
    {left right : Text} (shape : first = left ++ right) (some : right ≠ []) (begun : key.paramName <+: right ++ texts.flatten) :
    ∃ body middle last back, first = opening::body ∧ texts = middle ++ last::back ∧ closing ∈ last ∧
      first ++ middle.flatten ++ last = key.paramName := by
  subst shape
  obtain ⟨middle,back,rfl,spanned⟩ := (clean.first some begun).resolve_left outside
  have unclosed : closing ∉ left ++ right := fun member =>
    outside ((append_key spanned member).1 ▸ List.infix_rfl)
  have ends : closing ∈ middle.flatten :=
    (List.mem_append.mp (spanned ▸ key.closing_inside)).resolve_left unclosed
  obtain ⟨last,present,member⟩ := List.mem_flatten.mp ends
  obtain ⟨between,rest,rfl⟩ := List.append_of_mem present
  have shape : (left ++ right ++ between.flatten ++ last) ++ rest.flatten = key.paramName := by
    rw [← spanned]
    simp
  have whole := (append_key shape (List.mem_append_right _ member)).1
  cases start : left ++ right with
  | nil => exact absurd (List.append_eq_nil_iff.mp start).2 some
  | cons u body =>
    rw [start] at whole
    obtain ⟨rfl,_⟩ := List.cons.inj whole
    exact ⟨body,between,last,rest ++ back,rfl,by simp,member,whole⟩

/-- No placeholder is found from the first run on, so that it stays as it is. -/
theorem first_kept (shown : Shown key.paramName mark texts items) (clean : Clean key.paramName (first::texts))
    (other : mark ≠ opening) (kept : ∀ replaceText, rewrite key.paramName replaceText none (.run first::items) =
      first ++ rewrite key.paramName replaceText none items)
    (short : trim first ≠ key.paramName)
    (unread : starts first = true → reach key.paramName first items = none) :
    Agrees key first texts items ∨ Differs key mark first texts items := by
  by_cases inside : key.paramName <:+: first
  · exact .inr (differs_mixed (kept [mark]) inside short other)
  · by_cases apart : ∀ left right, first = left ++ right → right ≠ [] → ¬ key.paramName <+: right ++ texts.flatten
    · refine .inl (agrees_kept kept apart fun middle last back split spans => ?_)
      have found := spans.bracketed
      rcases spans.comes with exact_ | around
      · have some : first ≠ [] := fun empty => by
          rw [empty] at spans
          exact spans.begins rfl
        apply apart [] first rfl some
        rw [split,← exact_]
        exact ⟨back.flatten,by simp⟩
      · obtain ⟨later,rfl⟩ := shown.items split found.opens found.plain
        exact reach_completes found.opens found.plain spans.ends around later (unread found.starts)
    · push Not at apart
      obtain ⟨left,right,shape,some,begun⟩ := apart
      obtain ⟨body,middle,last,back,rfl,rfl,member,whole⟩ := clean.spanned inside shape some begun
      have started : starts (opening::body) = true := starts_of blank_nil
      have spans : Spans key.paramName (opening::body) middle last :=
        ⟨fun empty => blank_opening (trim_nil.mp empty) (mem_starts started),
          fun empty => blank_closing (trim_nil.mp empty) member,.inl whole⟩
      refine .inr ⟨?_,fun head => ?_⟩
      · have text : ((opening::body)::(middle ++ last::back)).flatten = key.paramName ++ back.flatten := by
          rw [← whole]
          simp
        rw [kept,text,replace_target key.some]
        exact fun wrong => other (List.cons.inj wrong).1.symm
      · have found := spans.bracketed
        have full := solid_eq.mpr (head.gapless middle last back rfl spans)
        have trimmed : trim (opening::body ++ solid middle ++ last) = key.paramName := by
          rw [full,whole]
          exact trim_self key.trimmed
        obtain ⟨later,rfl⟩ := shown.items rfl found.opens found.plain
        exact reach_completes found.opens found.plain spans.ends trimmed later (unread started)

private theorem first_run (shown : Shown key.paramName mark texts items)
    (clean : Clean key.paramName (first::texts))
    (other : mark ≠ opening) : Agrees key first texts items ∨ Differs key mark first texts items := by
  by_cases whole : trim first = key.paramName
  · exact .inl (agrees_whole whole)
  · by_cases begun : starts first = true
    · have begins : trim first ≠ [] := fun empty => blank_opening (trim_nil.mp empty) (mem_starts begun)
      cases reached : reach key.paramName first items with
      | some found => exact first_through shown other begun whole reached
      | none =>
        refine first_kept shown clean other (fun replaceText => ?_) whole fun _ => reached
        rw [rewrite,if_neg begins,if_pos begun,if_neg whole,rewrite_pending,reached]
        rfl
    · refine first_kept shown clean other (fun replaceText => ?_) whole fun wrong => absurd wrong begun
      rw [rewrite,if_neg begun]
      exact ite_self _

end

/-- The runs are read right just if they are good; the mark shows every run that is not. -/
theorem rewrite_iff {texts : List Text} {items : List Item} (shown : Shown key.paramName mark texts items)
    (clean : Clean key.paramName texts) (other : mark ≠ opening) :
    (Good key.paramName texts → ∀ replaceText,
      rewrite key.paramName replaceText none items = replace key.paramName replaceText texts.flatten) ∧
    (rewrite key.paramName [mark] none items = replace key.paramName [mark] texts.flatten → Good key.paramName texts) := by
  induction shown with
  | nil =>
    refine ⟨fun _ replaceText => rfl,fun _ => ⟨fun text inside => absurd inside List.not_mem_nil,?_⟩⟩
    intro front first middle last back split
    exact absurd split.symm (List.append_ne_nil_of_right_ne_nil _ (List.cons_ne_nil _ _))
  | run text rest ih =>
    obtain ⟨right,good⟩ := ih (clean_tail clean)
    rcases first_run rest clean other with agrees | differs
    · exact ⟨fun whole replaceText => (agrees.same replaceText).mpr (right (good_cons.mp whole).2 replaceText),
        fun same => good_cons.mpr ⟨agrees.head,good ((agrees.same [mark]).mp same)⟩⟩
    · exact ⟨fun whole => absurd (good_cons.mp whole).1 differs.head,fun same => absurd same differs.apart⟩
  | @put before texts items nonblank unmarked absent =>
    obtain ⟨u,rest,rfl⟩ := List.exists_cons_of_ne_nil fun empty : before = [] => nonblank (by rw [empty]; rfl)
    refine ⟨fun good => ?_,fun same => ?_⟩
    · have whole := good.whole _ List.mem_cons_self (List.suffix_append (u::rest) _).isInfix
      obtain ⟨gap,longer⟩ := trim_append nonblank (trim_self key.trimmed ▸ key.some)
      have sizes := congrArg List.length (whole.symm.trans longer)
      have positive := List.length_pos_of_ne_nil nonblank
      rw [trim_self key.trimmed,List.length_append,List.length_append] at sizes
      omega
    · have text : ((u::rest ++ key.paramName)::texts).flatten =
          u::rest ++ opening::((key.units ++ [closing]) ++ texts.flatten) := by simp [Key.paramName]
      rw [text,Key.paramName,replace_before key.once absent] at same
      exact absurd (congrArg some (List.cons.inj same).1.symm) unmarked

end YzFramework.Doc.Placeholder

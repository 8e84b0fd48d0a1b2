import Mathlib.Data.List.TakeDrop
import RemoteHub.Lib.Bytes
import RemoteHub.Lib.IpText
import RemoteHub.Lib.Split

/-!
# Search filters of LDAP

A filter's text is read one character at a time: `Reader` holds the operators that are open and, of
each, the filters before the place that is read. `Filter.eval` is what a filter says of an entry, with
three truth values.

A text read on its own is read in the same way below any operators that are open (`foldlM_above`).
So a filter built by writing texts one behind the other into a conjunction is the conjunction of what
these say, whatever they are: `read_all` for a text that says something on its own, and
`read_all_iff` that no other text makes it one filter.
-/

namespace LdapFilter

open Text

/-! ## Filters -/

/-- An item compares the attribute `name` with the pieces between the stars of its value. -/
inductive Filter
  | item (name : String) (pieces : List Bytes)
  | always
  | never
  | and (left right : Filter)
  | or (left right : Filter)
  | not (filter : Filter)
  deriving DecidableEq

namespace Filter

/-- The conjunction of filters. -/
def all (filters : List Filter) : Filter := filters.foldr .and .always

/-- The disjunction of filters. -/
def any (filters : List Filter) : Filter := filters.foldr .or .never

/-- What a filter says where `rule` says what its items do; `none` is the truth value Undefined. -/
def eval (rule : String → List Bytes → Option Bool) : Filter → Option Bool
  | item name pieces => rule name pieces
  | always => some true
  | never => some false
  | and left right =>
    match left.eval rule, right.eval rule with
    | some true, some true => some true
    | some false, _ => some false
    | _, some false => some false
    | _, _ => none
  | or left right =>
    match left.eval rule, right.eval rule with
    | some false, some false => some false
    | some true, _ => some true
    | _, some true => some true
    | _, _ => none
  | not filter => (filter.eval rule).map (!·)

/-- The filter is true. -/
def Holds (rule : String → List Bytes → Option Bool) (filter : Filter) : Prop :=
  filter.eval rule = some true

instance (rule : String → List Bytes → Option Bool) (filter : Filter) :
    Decidable (filter.Holds rule) :=
  inferInstanceAs (Decidable (_ = _))

variable {rule : String → List Bytes → Option Bool}

@[simp] theorem holds_item {name : String} {pieces : List Bytes} :
    (item name pieces).Holds rule ↔ rule name pieces = some true := Iff.rfl

@[simp] theorem holds_and {left right : Filter} :
    (and left right).Holds rule ↔ left.Holds rule ∧ right.Holds rule := by
  unfold Holds
  rw [eval]
  rcases left.eval rule with _ | _ | _ <;> rcases right.eval rule with _ | _ | _ <;> simp

@[simp] theorem holds_or {left right : Filter} :
    (or left right).Holds rule ↔ left.Holds rule ∨ right.Holds rule := by
  unfold Holds
  rw [eval]
  rcases left.eval rule with _ | _ | _ <;> rcases right.eval rule with _ | _ | _ <;> simp

@[simp] theorem holds_all {filters : List Filter} :
    (all filters).Holds rule ↔ ∀ f ∈ filters, f.Holds rule := by
  induction filters with
  | nil => simp [all, Holds, eval]
  | cons f filters ih =>
    rw [List.forall_mem_cons, ← ih]
    exact holds_and

@[simp] theorem holds_any {filters : List Filter} :
    (any filters).Holds rule ↔ ∃ f ∈ filters, f.Holds rule := by
  induction filters with
  | nil => simp [any, Holds, eval]
  | cons f filters ih =>
    rw [List.exists_mem_cons_iff, ← ih]
    exact holds_or

end Filter

/-! ## Items -/

/-- The bytes of a piece of a value, in which `\` stands before the two digits of a byte. -/
def unescape : List Char → Option Bytes
  | [] => some []
  | c :: rest =>
    if c = '\\' then
      match rest with
      | d :: e :: rest => do
        let high ← Net.digitValue 16 d
        let low ← Net.digitValue 16 e
        (unescape rest).map (UInt8.ofNat (16 * high + low) :: ·)
      | _ => none
    else (unescape rest).map (utf8 (.singleton c) ++ ·)

/-- An item without its parentheses. -/
def readItem (text : List Char) : Option Filter :=
  match text.span (· ≠ '=') with
  | (_, []) => none
  | (name, _ :: value) =>
    if name = [] then none
    else ((pieces '*' [] value).mapM unescape).map (.item (.ofList name))

/-! ## Texts -/

inductive Op
  | all
  | any
  | not
  deriving DecidableEq

/-- The filter of an operator and the filters in its parentheses. -/
def Op.close : Op → List Filter → Option Filter
  | all, filters => some (.all filters)
  | any, filters => some (.any filters)
  | not, [filter] => some (.not filter)
  | not, _ => none

/-- Where a reader is: between filters, behind the parenthesis that opens one, or in an item. -/
inductive Place
  | between
  | opened
  | item (text : List Char)
  deriving DecidableEq

/-- What is read of a text: the filters of the innermost operator, and the operators around it with
the filters before each. -/
structure Reader where
  outer : List (Op × List Filter) := []
  filters : List Filter := []
  place : Place := .between
  deriving DecidableEq

namespace Reader

/-- One character. -/
def step (r : Reader) (c : Char) : Option Reader :=
  match r.place with
  | .between =>
    if c = '(' then some { r with place := .opened }
    else if c = ')' then
      match r.outer with
      | [] => none
      | (op, before) :: outer => (op.close r.filters).map fun f => ⟨outer, before ++ [f], .between⟩
    else none
  | .opened =>
    if c = '&' then some ⟨(.all, r.filters) :: r.outer, [], .between⟩
    else if c = '|' then some ⟨(.any, r.filters) :: r.outer, [], .between⟩
    else if c = '!' then some ⟨(.not, r.filters) :: r.outer, [], .between⟩
    else if c = '(' ∨ c = ')' then none
    else some { r with place := .item [c] }
  | .item text =>
    if c = '(' then none
    else if c = ')' then
      (readItem text).map fun f => { r with filters := r.filters ++ [f], place := .between }
    else some { r with place := .item (text ++ [c]) }

/-- A whole text behind what is read. -/
def run (r : Reader) (s : List Char) : Option Reader := s.foldlM step r

/-- The filters, where no parenthesis is open. -/
def result (r : Reader) : Option (List Filter) :=
  if r.outer = [] ∧ r.place = .between then some r.filters else none

end Reader

/-- The filters whose texts stand one behind the other in `s`. -/
def read (s : String) : Option (List Filter) := (Reader.run {} s.toList).bind Reader.result

/-! ## Reading below open operators -/

namespace Reader

variable {r r' : Reader}

@[simp] theorem run_nil : run r [] = some r := rfl

theorem run_cons {c : Char} {s : List Char} : run r (c :: s) = (r.step c).bind (run · s) := rfl

theorem run_append {s t : List Char} : run r (s ++ t) = (run r s).bind (run · t) := by
  induction s generalizing r with
  | nil => rfl
  | cons c s ih =>
    rw [List.cons_append, run_cons, run_cons, Option.bind_assoc]
    exact congrArg ((r.step c).bind ·) (funext fun _ => ih)

/-- The operators of a text that stands behind `filters` and in the operators `outer`. -/
def onto (outer : List (Op × List Filter)) (filters : List Filter) :
    List (Op × List Filter) → List (Op × List Filter)
  | [] => outer
  | [(op, before)] => (op, filters ++ before) :: outer
  | e :: e' :: inner => e :: onto outer filters (e' :: inner)

/-- The reader of such a text. -/
def above (outer : List (Op × List Filter)) (filters : List Filter) (r : Reader) : Reader :=
  { r with
    outer := onto outer filters r.outer
    filters := if r.outer = [] then filters ++ r.filters else r.filters }

/-- Between filters and in no operator. -/
def Idle (r : Reader) : Prop := r.outer = [] ∧ r.place = .between

instance (r : Reader) : Decidable r.Idle := inferInstanceAs (Decidable (_ ∧ _))

variable {outer : List (Op × List Filter)} {filters : List Filter}

theorem step_above {c : Char} (h : ¬ (r.Idle ∧ c = ')')) :
    (r.above outer filters).step c = (r.step c).map (above outer filters) := by
  obtain ⟨inner, here, place⟩ := r
  cases place with
  | between =>
    by_cases hopen : c = '('
    · simp [step, above, hopen]
    by_cases hclose : c = ')'
    swap
    · simp [step, above, hopen, hclose]
    match inner with
    | [] => exact absurd ⟨⟨rfl, rfl⟩, hclose⟩ h
    | [(op, before)] => cases hop : op.close here <;> simp [step, above, onto, hclose, hop]
    | (op, before) :: e :: inner =>
      cases hop : op.close here <;> simp [step, above, onto, hclose, hop]
  | opened =>
    cases inner with
    | nil => simp only [step, above]; split_ifs <;> simp [above, onto]
    | cons e inner => simp only [step, above]; split_ifs <;> simp_all [above, onto]
  | item text =>
    cases hitem : readItem text <;> simp only [step, above, hitem] <;> split_ifs <;>
      simp_all [above]

/-- A text that can be read is read in the same way in operators and behind other filters. -/
theorem run_above {s : List Char} (h : run r s = some r') :
    run (r.above outer filters) s = some (r'.above outer filters) := by
  induction s generalizing r with
  | nil =>
    cases h
    rfl
  | cons c s ih =>
    rw [run_cons] at h ⊢
    obtain ⟨next, hnext, hrest⟩ := Option.bind_eq_some_iff.1 h
    have hplace : ¬ (r.Idle ∧ c = ')') := by
      rintro ⟨⟨houter, hplace⟩, rfl⟩
      rw [step, hplace, houter] at hnext
      cases hnext
    rw [step_above hplace, hnext]
    exact ih hrest

/-- What is read in operators was read on its own, up to a parenthesis that closes the innermost. -/
theorem run_of_above {q : Reader} {s : List Char} (h : run (r.above outer filters) s = some q) :
    (∃ r', run r s = some r' ∧ q = r'.above outer filters) ∨
      ∃ before after r', s = before ++ ')' :: after ∧ run r before = some r' ∧ r'.Idle := by
  induction s generalizing r with
  | nil => exact .inl ⟨r, rfl, (Option.some.inj h).symm⟩
  | cons c s ih =>
    by_cases hplace : r.Idle ∧ c = ')'
    · exact .inr ⟨[], s, r, by rw [hplace.2]; rfl, rfl, hplace.1⟩
    rw [run_cons, step_above hplace] at h
    obtain ⟨next, hnext, hrest⟩ := Option.bind_eq_some_iff.1 h
    obtain ⟨r₁, hr₁, rfl⟩ := Option.map_eq_some_iff.1 hnext
    rcases ih hrest with ⟨r', hr', hq⟩ | ⟨before, after, r', rfl, hr', hidle⟩
    · exact .inl ⟨r', by rw [run_cons, hr₁]; exact hr', hq⟩
    · exact .inr ⟨c :: before, after, r', rfl, by rw [run_cons, hr₁]; exact hr', hidle⟩

/-- After a character something has been read. -/
theorem step_ne {c : Char} (h : r.step c = some r') : r' ≠ {} := by
  rintro rfl
  obtain ⟨inner, here, place⟩ := r
  cases place with
  | between =>
    simp only [step] at h
    split_ifs at h
    · cases h
    · cases inner with
      | nil => cases h
      | cons e inner => simp at h
  | opened =>
    simp only [step] at h
    split_ifs at h <;> cases h
  | item text =>
    simp only [step] at h
    split_ifs at h
    · simp at h
    · cases h

theorem run_ne {s : List Char} (hs : s ≠ []) (h : run r s = some r') : r' ≠ {} := by
  obtain rfl | ⟨before, c, rfl⟩ := List.eq_nil_or_concat' s
  · exact absurd rfl hs
  rw [run_append] at h
  obtain ⟨q, -, hq⟩ := Option.bind_eq_some_iff.1 h
  rw [run_cons] at hq
  obtain ⟨q', hq', hr⟩ := Option.bind_eq_some_iff.1 hq
  cases hr
  exact step_ne hq'

theorem onto_eq_nil {inner : List (Op × List Filter)} :
    onto outer filters inner = [] ↔ outer = [] ∧ inner = [] := by
  match inner with
  | [] => simp [onto]
  | [(op, before)] => simp [onto]
  | (op, before) :: e :: inner => simp [onto]

/-- Behind a filter that stands in no operator there is no text, or another filter. -/
theorem filters_eq_nil_of_run {s : List Char} {f g : Filter}
    (h : run ⟨[], [f], .between⟩ s = some ⟨[], [g], .between⟩) : s = [] := by
  have habove : run (above [] [f] {}) s = some ⟨[], [g], .between⟩ := h
  rcases run_of_above habove with ⟨r, hr, hq⟩ | ⟨before, after, r, rfl, hr, houter, hplace⟩
  · by_contra hs
    refine run_ne hs hr ?_
    obtain ⟨inner, here, place⟩ := r
    rw [above, mk.injEq] at hq
    obtain ⟨hinner, hfilters, rfl⟩ := hq
    obtain ⟨-, rfl⟩ := onto_eq_nil.1 hinner.symm
    simp at hfilters
    simp [hfilters.2]
  · -- No parenthesis can be closed here.
    exfalso
    rw [run_append, run_above hr, Option.bind_some, run_cons] at habove
    obtain ⟨q, hq, -⟩ := Option.bind_eq_some_iff.1 habove
    simp [step, above, onto, houter, hplace] at hq

/-- The reader of a text that could end here. -/
theorem result_eq_some {filters : List Filter} :
    r.result = some filters ↔ r = ⟨[], filters, .between⟩ := by
  obtain ⟨inner, here, place⟩ := r
  simp [result]
  tauto

end Reader

open Reader

theorem read_eq_some {s : String} {filters : List Filter} :
    read s = some filters ↔ run {} s.toList = some ⟨[], filters, .between⟩ := by
  rw [read, Option.bind_eq_some_iff]
  simp [result_eq_some]

/-- A text of filters is read behind others and in any operators. -/
theorem run_of_read {s : String} {filters before : List Filter} {outer : List (Op × List Filter)}
    (h : read s = some filters) :
    run ⟨outer, before, .between⟩ s.toList = some ⟨outer, before ++ filters, .between⟩ := by
  have habove : run (Reader.above outer before {}) s.toList =
      some (Reader.above outer before ⟨[], filters, .between⟩) := run_above (read_eq_some.1 h)
  simpa [above, onto] using habove

theorem read_append {s t : String} {fs gs : List Filter} (hs : read s = some fs) (ht : read t = some gs) :
    read (s ++ t) = some (fs ++ gs) := by
  rw [read_eq_some, String.toList_append, run_append, read_eq_some.1 hs]
  exact run_of_read ht

theorem read_nil : read "" = some [] := rfl

/-- Filters written one behind the other, one for each of `l`. -/
theorem read_flatMap {α : Type} {text : α → String} {filter : α → Filter} {l : List α}
    (h : ∀ a ∈ l, read (text a) = some [filter a]) :
    read (String.join (l.map text)) = some (l.map filter) := by
  induction l with
  | nil => exact read_nil
  | cons a l ih =>
    rw [List.map_cons, String.join_cons]
    exact read_append (h a List.mem_cons_self) (ih fun b hb => h b (List.mem_cons_of_mem _ hb))

/-! ## Conjunctions -/

theorem run_open_all : run {} "(&".toList = some ⟨[(.all, [])], [], .between⟩ := rfl

theorem run_open_any : run {} "(|".toList = some ⟨[(.any, [])], [], .between⟩ := rfl

theorem read_all {s : String} {filters : List Filter} (h : read s = some filters) :
    read ("(&" ++ s ++ ")") = some [.all filters] := by
  rw [read_eq_some, String.toList_append, String.toList_append, run_append, run_append, run_open_all,
    Option.bind_some, run_of_read h]
  rfl

theorem read_any {s : String} {filters : List Filter} (h : read s = some filters) :
    read ("(|" ++ s ++ ")") = some [.any filters] := by
  rw [read_eq_some, String.toList_append, String.toList_append, run_append, run_append, run_open_any,
    Option.bind_some, run_of_read h]
  rfl

/-- In a conjunction, filters are read where they stand if the reader accepts the rest on its own; where
it does not, the text is not one filter. A parenthesis that closes the conjunction early leaves another
filter behind it, since the text ends with a parenthesis more. -/
theorem read_all_iff {s t : String} {filters : List Filter} {f : Filter} (hs : read s = some filters) :
    read ("(&" ++ s ++ t ++ ")") = some [f] ↔
      ∃ others, read t = some others ∧ f = .all (filters ++ others) := by
  constructor
  swap
  · rintro ⟨others, ht, rfl⟩
    rw [show "(&" ++ s ++ t = "(&" ++ (s ++ t) from String.append_assoc]
    exact read_all (read_append hs ht)
  intro h
  have hopen : run {} ("(&" ++ s).toList = some (above [(.all, [])] filters {}) := by
    rw [String.toList_append, run_append, run_open_all, Option.bind_some, run_of_read hs]
    simp [above, onto]
  rw [read_eq_some, String.toList_append, String.toList_append, run_append, run_append, hopen,
    Option.bind_some] at h
  obtain ⟨q, hq, hlast⟩ := Option.bind_eq_some_iff.1 h
  have hclose : q.step ')' = some ⟨[], [f], .between⟩ := by
    rw [show ")".toList = [')'] from rfl, run_cons] at hlast
    obtain ⟨q', hq', hrest⟩ := Option.bind_eq_some_iff.1 hlast
    cases hrest
    exact hq'
  rcases run_of_above hq with ⟨r, hr, rfl⟩ | ⟨before, after, r, hsplit, hbefore, hidle⟩
  · by_cases hidle : r.Idle
    · obtain ⟨inner, here, place⟩ := r
      obtain ⟨rfl, rfl⟩ := hidle
      refine ⟨here, read_eq_some.2 hr, ?_⟩
      simpa [above, onto, step, Op.close, eq_comm] using hclose
    · -- The parenthesis at the end closes something inside the conjunction.
      exfalso
      rw [step_above fun h => hidle h.1] at hclose
      obtain ⟨r', -, hr'⟩ := Option.map_eq_some_iff.1 hclose
      exact List.cons_ne_nil _ _ (onto_eq_nil.1 (congrArg outer hr')).1
  · exfalso
    obtain ⟨inner, here, place⟩ := r
    obtain ⟨rfl, rfl⟩ := hidle
    have hearly : run (above [(.all, [])] filters {}) (before ++ [')']) =
        some ⟨[], [.all (filters ++ here)], .between⟩ := by
      rw [run_append, run_above hbefore, Option.bind_some, run_cons]
      simp [above, onto, step, Op.close]
    rw [hsplit, List.append_cons, run_append, hearly, Option.bind_some] at hq
    have hend : run ⟨[], [.all (filters ++ here)], .between⟩ (after ++ [')']) =
        some ⟨[], [f], .between⟩ := by
      rw [run_append, hq, Option.bind_some, run_cons, hclose]
      rfl
    exact List.append_ne_nil_of_right_ne_nil _ (List.cons_ne_nil _ _) (filters_eq_nil_of_run hend)

/-! ## Items with a value -/

/-- A name that an item can begin with. -/
def IsName (name : String) : Prop :=
  name ≠ "" ∧ name.toList.head? ∉ [some '&', some '|', some '!'] ∧
    ∀ c ∈ name.toList, c ≠ '(' ∧ c ≠ ')' ∧ c ≠ '='

instance (name : String) : Decidable (IsName name) := inferInstanceAs (Decidable (_ ∧ _ ∧ _))

/-- Characters that can stand in an item. -/
def IsPlain (s : String) : Prop := ∀ c ∈ s.toList, c ≠ '(' ∧ c ≠ ')'

theorem run_item {outer : List (Op × List Filter)} {filters : List Filter} {text s : List Char}
    (h : ∀ c ∈ s, c ≠ '(' ∧ c ≠ ')') :
    run ⟨outer, filters, .item text⟩ s = some ⟨outer, filters, .item (text ++ s)⟩ := by
  induction s generalizing text with
  | nil => rw [List.append_nil, run_nil]
  | cons c s ih =>
    obtain ⟨hopen, hclose⟩ := h c List.mem_cons_self
    have hstep : step ⟨outer, filters, .item text⟩ c = some ⟨outer, filters, .item (text ++ [c])⟩ := by
      simp [step, hopen, hclose]
    rw [run_cons, hstep, Option.bind_some, ih fun d hd => h d (List.mem_cons_of_mem _ hd),
      List.append_assoc, List.singleton_append]

theorem readItem_eq {name value : String} {ps : List Bytes} (hname : IsName name)
    (h : (pieces '*' [] value.toList).mapM unescape = some ps) :
    readItem (name.toList ++ '=' :: value.toList) = some (.item name ps) := by
  have hspan : (name.toList ++ '=' :: value.toList).span (· ≠ '=') =
      (name.toList, '=' :: value.toList) := by
    have hall : ∀ c ∈ name.toList, decide (c ≠ '=') = true := fun c hc =>
      decide_eq_true (hname.2.2 c hc).2.2
    rw [List.span_eq_takeWhile_dropWhile, List.takeWhile_append_of_pos hall,
      List.dropWhile_append_of_pos hall]
    simp
  have hne : name.toList ≠ [] := by simpa using hname.1
  rw [readItem, hspan]
  simp [hne, h]

theorem read_item {name value : String} {ps : List Bytes} (hname : IsName name) (hvalue : IsPlain value)
    (h : (pieces '*' [] value.toList).mapM unescape = some ps) :
    read ("(" ++ name ++ "=" ++ value ++ ")") = some [.item name ps] := by
  obtain ⟨hne, hhead, hchars⟩ := hname
  have htext : ("(" ++ name ++ "=" ++ value ++ ")").toList =
      '(' :: (name.toList ++ '=' :: value.toList) ++ [')'] := by
    simp [String.toList_append]
  obtain ⟨c, rest, hcons⟩ := List.exists_cons_of_ne_nil (show name.toList ≠ [] by simpa using hne)
  have hplain : ∀ d ∈ rest ++ '=' :: value.toList, d ≠ '(' ∧ d ≠ ')' := by
    intro d hd
    rcases List.mem_append.1 hd with hd | hd
    · have := hchars d (hcons ▸ List.mem_cons_of_mem _ hd)
      exact ⟨this.1, this.2.1⟩
    · rcases List.mem_cons.1 hd with rfl | hd
      · decide
      · exact hvalue d hd
  have hfirst : step ⟨[], [], .opened⟩ c = some ⟨[], [], .item [c]⟩ := by
    have hc := hchars c (hcons ▸ List.mem_cons_self)
    rw [hcons] at hhead
    simp at hhead
    simp [step, hc.1, hc.2.1, hhead]
  have hopen : run {} ['(', c] = some ⟨[], [], .item [c]⟩ := by
    rw [run_cons]
    exact congrArg (·.bind (run · [])) hfirst
  have hsplit : '(' :: (name.toList ++ '=' :: value.toList) ++ [')'] =
      ['(', c] ++ ((rest ++ '=' :: value.toList) ++ [')']) := by
    simp [hcons]
  have hitem := readItem_eq ⟨hne, hhead, hchars⟩ h
  rw [hcons] at hitem
  rw [read_eq_some, htext, hsplit, run_append, hopen, Option.bind_some, run_append, run_item hplain,
    Option.bind_some, run_cons]
  simpa [step] using hitem

/-! ## Escaped values -/

theorem unescape_cons {c : Char} {rest : List Char} (h : c ≠ '\\') :
    unescape (c :: rest) = (unescape rest).map (utf8 (.singleton c) ++ ·) := by
  rw [unescape.eq_def]
  exact if_neg h

/-- A byte as its two digits. -/
def escapeByte (b : UInt8) : List Char :=
  ['\\', (b.toNat / 16).digitChar, (b.toNat % 16).digitChar]

theorem unescape_escapeByte (b : UInt8) (rest : List Char) :
    unescape (escapeByte b ++ rest) = (unescape rest).map (b :: ·) := by
  have hlt := b.toNat_lt
  have hhigh : Net.digitValue 16 (b.toNat / 16).digitChar = some (b.toNat / 16) :=
    Net.digitValue_digitChar (by decide) (by omega)
  have hlow : Net.digitValue 16 (b.toNat % 16).digitChar = some (b.toNat % 16) :=
    Net.digitValue_digitChar (by decide) (by omega)
  have hbyte : UInt8.ofNat (16 * (b.toNat / 16) + b.toNat % 16) = b := by
    rw [Nat.div_add_mod, UInt8.ofNat_toNat]
  rw [escapeByte, List.cons_append, List.cons_append, List.cons_append, List.nil_append, unescape.eq_def]
  simp [hhigh, hlow, hbyte, -UInt8.ofNat_add, -UInt8.ofNat_mul]

/-- Bytes of which each is escaped are read back. -/
theorem unescape_escapeBytes (bytes : Bytes) : unescape (bytes.flatMap escapeByte) = some bytes := by
  induction bytes with
  | nil => rfl
  | cons b bytes ih => rw [List.flatMap_cons, unescape_escapeByte, ih, Option.map_some]

theorem mem_escapeBytes {bytes : Bytes} {c : Char} (h : c ∈ bytes.flatMap escapeByte) :
    c ≠ '(' ∧ c ≠ ')' ∧ c ≠ '*' := by
  obtain ⟨b, -, hc⟩ := List.mem_flatMap.1 h
  have hlt := b.toNat_lt
  have hdigit : ∀ d : Fin 16, d.val.digitChar ≠ '(' ∧ d.val.digitChar ≠ ')' ∧ d.val.digitChar ≠ '*' := by
    decide
  rcases List.mem_cons.1 hc with rfl | hc
  · decide
  rcases List.mem_cons.1 hc with rfl | hc
  · exact hdigit ⟨b.toNat / 16, by omega⟩
  · rw [List.mem_singleton.1 hc]
    exact hdigit ⟨b.toNat % 16, by omega⟩

theorem isPlain_escapeBytes (bytes : Bytes) : IsPlain (.ofList (bytes.flatMap escapeByte)) := by
  intro c hc
  rw [String.toList_ofList] at hc
  exact ⟨(mem_escapeBytes hc).1, (mem_escapeBytes hc).2.1⟩

theorem mapM_pieces_escapeBytes (bytes : Bytes) :
    (pieces '*' [] (String.ofList (bytes.flatMap escapeByte)).toList).mapM unescape = some [bytes] := by
  rw [String.toList_ofList, pieces_of_notMem fun hc => (mem_escapeBytes hc).2.2 rfl, List.nil_append]
  simp [unescape_escapeBytes]

/-- What an escaped value must satisfy: it can stand in an item, without a star, and is read back. -/
structure Escapes (escape : String → String) : Prop where
  plain (s : String) : ∀ c ∈ (escape s).toList, c ≠ '(' ∧ c ≠ ')' ∧ c ≠ '*'
  unescape (s : String) : unescape (escape s).toList = some (utf8 s)

theorem Escapes.isPlain {escape : String → String} (h : Escapes escape) (s : String) :
    IsPlain (escape s) := fun c hc => ⟨(h.plain s c hc).1, (h.plain s c hc).2.1⟩

theorem Escapes.mapM_pieces {escape : String → String} (h : Escapes escape) (s : String) :
    (pieces '*' [] (escape s).toList).mapM LdapFilter.unescape = some [utf8 s] := by
  rw [pieces_of_notMem fun hc => (h.plain s _ hc).2.2 rfl, List.nil_append]
  simp [h.unescape s]

end LdapFilter

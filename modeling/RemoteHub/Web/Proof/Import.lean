import RemoteHub.Lib.Logged
import RemoteHub.Web.SharedKdbx

/-!
# What an import accounts for

`Finds` is what a search of a collection logs and `Attempts` the requests for one credential; `Accounted` says of
an entry, what was logged of it and what came of it how they fit. `importInto_accounts` is for every
server, `second_field_dropped` an entry that loses a field without being named.
-/

namespace Web.SharedKdbx

open Logged

variable {Id : Type} {server : Server Id} {tree : List (Collection Id)} {collectionId : Option Id}

/-! ## Custom fields -/

/-- A field with its name trimmed. -/
def Field.trimmed (field : Field) : Field := { field with name := trim field.name }

/-- The fields taken: the first of a name, where the name is plain and of 1 to 100 characters. -/
theorem mem_usableFields {seen : List JsString} {fields : List Field} {field : Field} :
    field ∈ usableFields seen fields ↔ ∃ before given after,
      fields = before ++ given :: after ∧ field = given.trimmed ∧
        usableName ((before.map (·.trimmed.name)).reverse ++ seen) field.name := by
  induction fields generalizing seen with
  | nil => simp [usableFields]
  | cons first fields ih =>
    have hlater : field ∈ usableFields (trim first.name :: seen) fields ↔
        ∃ before given after, first :: fields = first :: before ++ given :: after ∧
          field = given.trimmed ∧
            usableName (((first :: before).map (·.trimmed.name)).reverse ++ seen) field.name := by
      rw [ih]
      simp [Field.trimmed]
    constructor
    · intro h
      rw [usableFields] at h
      by_cases hfirst : usableName seen (trim first.name)
      · rw [if_pos hfirst] at h
        rcases List.mem_cons.1 h with rfl | h
        · exact ⟨[], first, fields, rfl, rfl, hfirst⟩
        · obtain ⟨before, given, after, hsplit, hgiven⟩ := hlater.1 h
          exact ⟨first :: before, given, after, hsplit, hgiven⟩
      · rw [if_neg hfirst] at h
        obtain ⟨before, given, after, hsplit, hgiven⟩ := hlater.1 h
        exact ⟨first :: before, given, after, hsplit, hgiven⟩
    · rintro ⟨before, given, after, hsplit, rfl, husable⟩
      rw [usableFields]
      cases before with
      | nil =>
        obtain ⟨rfl, rfl⟩ := List.cons.inj hsplit
        have hfirst : usableName seen (trim first.name) := husable
        rw [if_pos hfirst]
        exact List.mem_cons_self
      | cons head before =>
        obtain ⟨rfl, hsplit'⟩ := List.cons.inj hsplit
        have hmem := hlater.2 ⟨before, given, after, hsplit, rfl, husable⟩
        split
        · exact List.mem_cons_of_mem _ hmem
        · exact hmem

/-! ## Collections -/

/-- The collection imported into is known. -/
def Known (collectionId : Option Id) (session : Session Id) : Prop :=
  collectionId.isSome → (session.collections.lookup []).isSome

inductive Event.IsCollection : Event Id → Prop
  | mk (parent : Option Id) (name : JsString) (answer : Except Problem Id) :
      IsCollection (.collection parent name answer)

/-- What a search of a collection logs: requests for collections, one of them refused where
there is none in the end. -/
structure Finds (found : Option Id) (es : List (Event Id)) : Prop where
  collections : ∀ e ∈ es, e.IsCollection
  refused : found = none → ∃ parent name problem, .collection parent name (.error problem) ∈ es

theorem createCollection_logs (parent : Option Id) (name : JsString) :
    Logs Session.log (Known collectionId) (createCollection server parent name)
      fun answer es => es = [.collection parent name answer] :=
  fun _ hs => ⟨_, _, _, rfl, hs, rfl, rfl⟩

theorem remember_logs {path : List JsString} {found : Option Id} {es : List (Event Id)}
    (h : Finds found es) :
    Logs Session.log (Known collectionId) (remember path found) fun found' fs =>
      Finds found' (es ++ fs) := by
  cases found with
  | none => exact .pure ((List.append_nil es).symm ▸ h)
  | some id =>
    refine Logs.bind (.modify (Q := fun _ fs => fs = []) (fun s hs hsome => ?_) (fun _ => rfl) rfl)
      fun _ fs hfs => ?_
    · have hknown := hs hsome
      change (List.lookup [] ((keyOf path, id) :: s.collections)).isSome
      rw [List.lookup_cons]
      split
      · rfl
      · exact hknown
    · subst hfs
      exact .pure ((List.append_nil es).symm ▸ h)

theorem Finds.of_isSome {found : Option Id} (h : found.isSome) :
    Finds found ([] : List (Event Id)) where
  collections e he := absurd he List.not_mem_nil
  refused hnone := by rw [hnone] at h; cases h

theorem Finds.append {found found' : Option Id} {es fs : List (Event Id)} (h : Finds found es)
    (h' : Finds found' fs) : Finds found' (es ++ fs) where
  collections e he := (List.mem_append.1 he).elim (h.collections e) (h'.collections e)
  refused hnone := by
    obtain ⟨parent, name, problem, hmem⟩ := h'.refused hnone
    exact ⟨parent, name, problem, List.mem_append_right es hmem⟩

section
variable [DecidableEq Id]

theorem addCollection_logs (path : List JsString) (parent : Option Id) :
    Logs Session.log (Known collectionId) (addCollection server tree path parent) Finds := by
  unfold addCollection
  dsimp only
  split
  · exact remember_logs (.of_isSome rfl)
  · refine Logs.bind (createCollection_logs _ _) fun answer es hes => ?_
    subst hes
    refine remember_logs ⟨fun e he => ?_, fun hnone => ?_⟩
    · rw [List.mem_singleton.1 he]
      exact .mk _ _ _
    · cases answer with
      | ok id => cases hnone
      | error problem => exact ⟨_, _, problem, List.mem_singleton_self _⟩

theorem collectionAt_logs (path : List JsString) (h : path ≠ [] ∨ collectionId.isSome) :
    Logs Session.log (Known collectionId) (collectionAt server tree collectionId path) Finds := by
  induction path with
  | nil =>
    have hsome := h.resolve_left fun hne => hne rfl
    unfold collectionAt
    refine Logs.bind (.get (Q := fun s es => Known collectionId s ∧ es = [])
      fun s hs => ⟨hs, rfl⟩) fun s es hes => ?_
    obtain ⟨hknown, rfl⟩ := hes
    exact .pure (.of_isSome (hknown hsome))
  | cons name up ih =>
    unfold collectionAt
    refine Logs.bind (.get (Q := fun _ es => es = []) fun _ _ => rfl) fun s es hes => ?_
    subst hes
    dsimp only
    split
    case isTrue hknown => exact .pure (.of_isSome hknown)
    case isFalse =>
      split
      case isTrue hup =>
        refine Logs.bind (ih hup) fun parent es hes => ?_
        split
        · exact (addCollection_logs _ _).mono fun _ fs hfs => hes.append hfs
        · next hnone =>
          rw [Option.not_isSome_iff_eq_none] at hnone
          subst hnone
          exact .pure ((List.append_nil es).symm ▸ hes)
      case isFalse => exact addCollection_logs _ _

theorem collectionOf_logs (topName : JsString) (path : List JsString) :
    Logs Session.log (Known collectionId) (collectionOf server tree collectionId topName path)
      Finds := by
  unfold collectionOf
  split
  · exact collectionAt_logs _ (.inl (List.cons_ne_nil _ _))
  · next h =>
    refine collectionAt_logs _ ?_
    rw [Ne, List.reverse_eq_nil_iff, ← Option.ne_none_iff_isSome]
    tauto

end

/-! ## Credentials -/

/-- A credential that the server made, of what it was asked for. -/
def Event.created : Event Id → Option (CredentialInput Id × Id)
  | .credential input (.ok id) => some (input, id)
  | _ => none

def createdIn (es : List (Event Id)) : List (CredentialInput Id × Id) := es.filterMap Event.created

/-- The names tried for an entry. -/
def IsName (base : CredentialInput Id) (name : JsString) : Prop :=
  name = base.name ∨ ∃ n, 2 ≤ n ∧ n < 100 ∧ name = numbered base.name n

/-- Requests for one credential, each after the one before it was refused, and the last answer. -/
inductive Attempts (server : Server Id) (base : CredentialInput Id) :
    List (Event Id) → Except Problem Id → Prop
  | first (log : List (Event Id)) :
      Attempts server base [.credential base (server.credential log base)] (server.credential log base)
  | again {es : List (Event Id)} {problem : Problem} {name : JsString} (log : List (Event Id)) :
      Attempts server base es (.error problem) → IsName base name →
      Attempts server base
        (es ++ [.credential { base with name := name }
          (server.credential log { base with name := name })])
        (server.credential log { base with name := name })
  | without {es : List (Event Id)} {problem : Problem} (log : List (Event Id)) :
      Attempts server base es (.error problem) → isTotp (.error problem : Except Problem Id) →
      Attempts server base
        (es ++ [.credential { base with totp := none }
          (server.credential log { base with totp := none })])
        (server.credential log { base with totp := none })

theorem createCredential_logs (input : CredentialInput Id) :
    Logs Session.log (Known collectionId) (createCredential server input) fun answer es =>
      ∃ log, answer = server.credential log input ∧ es = [.credential input answer] :=
  fun s hs => ⟨_, _, _, rfl, hs, rfl, s.log, rfl, rfl⟩

theorem retry_logs {base : CredentialInput Id} {count n : Nat} {made : Except Problem Id}
    {es : List (Event Id)} (hn : 2 ≤ n) (hcount : n + count = 100)
    (h : Attempts server base es made) :
    Logs Session.log (Known collectionId) (retry server base count n made) fun made' fs =>
      Attempts server base (es ++ fs) made' := by
  induction count generalizing n made es with
  | zero => exact .pure ((List.append_nil es).symm ▸ h)
  | succ count ih =>
    rw [retry]
    split
    case isTrue htaken =>
      refine Logs.bind (createCredential_logs _) fun answer fs hfs => ?_
      obtain ⟨log, rfl, rfl⟩ := hfs
      cases made with
      | ok id => cases htaken
      | error problem =>
        have hagain := h.again log (.inr ⟨n, hn, by omega, rfl⟩)
        exact (ih (by omega) (by omega) hagain).mono fun made' fs hfs => by
          rwa [List.append_assoc] at hfs
    case isFalse => exact .pure ((List.append_nil es).symm ▸ h)

theorem createEntry_logs (base : CredentialInput Id) :
    Logs Session.log (Known collectionId) (createEntry server base) fun o es =>
      ∃ made, Attempts server base es made ∧ o = made.toOption := by
  unfold createEntry
  refine Logs.bind (createCredential_logs _) fun answer es hes => ?_
  obtain ⟨log, rfl, rfl⟩ := hes
  refine Logs.bind (retry_logs (by decide) rfl (.first log)) fun made fs hfs => ?_
  split
  case isTrue htotp =>
    refine Logs.bind (createCredential_logs _) fun answer gs hgs => ?_
    obtain ⟨log', rfl, rfl⟩ := hgs
    cases made with
    | ok id => cases htotp
    | error problem =>
      refine .pure ⟨_, ?_, rfl⟩
      have hwithout := hfs.without log' htotp
      rwa [List.append_assoc] at hwithout
  case isFalse =>
    refine .pure ⟨made, ?_, rfl⟩
    rwa [List.append_nil]

theorem createdIn_append (es fs : List (Event Id)) :
    createdIn (es ++ fs) = createdIn es ++ createdIn fs :=
  List.filterMap_append

theorem Attempts.of_error {base : CredentialInput Id} {es : List (Event Id)}
    {made : Except Problem Id} (h : Attempts server base es made) {problem : Problem}
    (hmade : made = .error problem) :
    createdIn es = [] ∧ ∃ input problem, .credential input (.error problem) ∈ es := by
  induction h generalizing problem with
  | first log =>
    rw [hmade]
    exact ⟨rfl, base, problem, List.mem_singleton_self _⟩
  | again log _ _ ih | without log _ _ ih =>
    obtain ⟨hcreated, input, problem', hmem⟩ := ih rfl
    rw [hmade, createdIn_append, hcreated]
    exact ⟨rfl, input, problem', List.mem_append_left _ hmem⟩

theorem Attempts.asked {base : CredentialInput Id} {es : List (Event Id)}
    {made : Except Problem Id} (h : Attempts server base es made) :
    ∃ input, .credential input made ∈ es := by
  cases h with
  | first log => exact ⟨base, List.mem_singleton_self _⟩
  | again log _ _ | without log _ _ =>
    exact ⟨_, List.mem_append_right _ (List.mem_singleton_self _)⟩

/-- A credential made is the last thing asked for, of a name tried, and without its one-time password
only after the server did not read it. -/
theorem Attempts.of_ok {base : CredentialInput Id} {es : List (Event Id)}
    {made : Except Problem Id} (h : Attempts server base es made) {id : Id} (hmade : made = .ok id) :
    ∃ name totp, createdIn es = [({ base with name := name, totp := totp }, id)] ∧
      IsName base name ∧ (totp = base.totp ∨ totp = none ∧
        ∃ input answer, .credential input answer ∈ es ∧ isTotp answer) := by
  cases h with
  | first log =>
    rw [hmade]
    exact ⟨base.name, base.totp, rfl, .inl rfl, .inl rfl⟩
  | again log hes hname =>
    rw [hmade, createdIn_append, (hes.of_error rfl).1]
    exact ⟨_, base.totp, rfl, hname, .inl rfl⟩
  | @without es problem log hes htotp =>
    obtain ⟨hcreated, -⟩ := hes.of_error rfl
    rw [hmade, createdIn_append, hcreated]
    obtain ⟨input, hasked⟩ := hes.asked
    exact ⟨base.name, none, rfl, .inl rfl,
      .inr ⟨rfl, input, _, List.mem_append_left _ hasked, htotp⟩⟩

/-! ## Entries with one problem -/

/-- The server's only problem with it is that its name is taken, and one of the names tried is free. -/
structure OnlyTaken (server : Server Id) (base : CredentialInput Id) : Prop where
  answers : ∀ log name, IsName base name →
    isTaken (server.credential log { base with name := name }) ∨
      (server.credential log { base with name := name }).isOk
  free : ∃ name, IsName base name ∧
    ∀ log, (server.credential log { base with name := name }).isOk

/-- The server's only problem with it is that it does not read its one-time password. -/
structure OnlyTotp (server : Server Id) (base : CredentialInput Id) : Prop where
  unread : ∀ log, isTotp (server.credential log base)
  rest : ∀ log, (server.credential log { base with totp := none }).isOk

theorem isTaken_iff {made : Except Problem Id} (h : isTaken made) : ¬made.isOk := by
  cases made with
  | ok id => cases h
  | error problem => exact Bool.false_ne_true

theorem retry_taken {base : CredentialInput Id} (h : OnlyTaken server base) {count n : Nat}
    {made : Except Problem Id} (hcount : n + count = 100)
    (hmade : made.isOk ∨ isTaken made ∧ ∃ m, n ≤ m ∧ m < 100 ∧
      ∀ log, (server.credential log { base with name := numbered base.name m }).isOk)
    (hn : 2 ≤ n) :
    Logs Session.log (Known collectionId) (retry server base count n made) fun made' _ =>
      made'.isOk := by
  induction count generalizing n made with
  | zero =>
    refine .pure (hmade.resolve_right ?_)
    rintro ⟨-, m, hm, hlt, -⟩
    omega
  | succ count ih =>
    rw [retry]
    split
    case isTrue htaken =>
      obtain ⟨-, m, hm, hlt, hfree⟩ := hmade.resolve_left (isTaken_iff htaken)
      refine Logs.bind (createCredential_logs _) fun answer fs hfs => ?_
      obtain ⟨log, rfl, rfl⟩ := hfs
      refine (ih (by omega) ?_ (by omega)).mono fun _ _ hok => hok
      by_cases heq : m = n
      · subst heq
        exact .inl (hfree log)
      · rcases h.answers log _ (.inr ⟨n, hn, by omega, rfl⟩) with htaken | hok
        · exact .inr ⟨htaken, m, by omega, hlt, hfree⟩
        · exact .inl hok
    case isFalse htaken =>
      exact .pure (hmade.resolve_right fun hboth => htaken hboth.1)

theorem createEntry_taken {base : CredentialInput Id} (h : OnlyTaken server base) :
    Logs Session.log (Known collectionId) (createEntry server base) fun o _ => o.isSome := by
  unfold createEntry
  refine Logs.bind (createCredential_logs _) fun answer es hes => ?_
  obtain ⟨log, rfl, rfl⟩ := hes
  obtain ⟨name, hname, hfree⟩ := h.free
  have hfirst : (server.credential log base).isOk ∨ isTaken (server.credential log base) ∧
      ∃ m, 2 ≤ m ∧ m < 100 ∧
        ∀ log, (server.credential log { base with name := numbered base.name m }).isOk := by
    rcases hname with rfl | ⟨m, hm, hlt, rfl⟩
    · exact .inl (hfree log)
    · rcases h.answers log base.name (.inl rfl) with htaken | hok
      · exact .inr ⟨htaken, m, hm, hlt, hfree⟩
      · exact .inl hok
  refine Logs.bind (retry_taken h rfl hfirst (by decide)) fun made fs hmade => ?_
  cases made with
  | ok id => exact .pure rfl
  | error problem => cases hmade

theorem not_isTaken_of_isTotp {made : Except Problem Id} (h : isTotp made) : ¬isTaken made := by
  cases made with
  | ok id => cases h
  | error problem =>
    have hcode : problem.code = "invalid_request" := (of_decide_eq_true h).1
    simp [isTaken, hcode]

theorem retry_of_not_taken (base : CredentialInput Id) (count n : Nat) {made : Except Problem Id}
    (h : ¬isTaken made) : retry server base count n made = pure made := by
  cases count with
  | zero => rfl
  | succ count => rw [retry, if_neg h]

theorem createEntry_totp {base : CredentialInput Id} (h : OnlyTotp server base) :
    Logs Session.log (Known collectionId) (createEntry server base) fun o _ => o.isSome := by
  unfold createEntry
  refine Logs.bind (createCredential_logs _) fun answer es hes => ?_
  obtain ⟨log, rfl, rfl⟩ := hes
  have hunread := h.unread log
  rw [retry_of_not_taken base 98 2 (not_isTaken_of_isTotp hunread)]
  refine Logs.bind (.pure (Q := fun made _ => made = server.credential log base) rfl)
    fun made fs hmade => ?_
  subst hmade
  rw [if_pos hunread]
  refine Logs.bind (createCredential_logs _) fun answer gs hgs => ?_
  obtain ⟨log', rfl, -⟩ := hgs
  have hrest := h.rest log'
  cases hanswer : server.credential log' { base with totp := none } with
  | ok id => exact .pure rfl
  | error problem =>
    rw [hanswer] at hrest
    cases hrest

/-! ## What an entry comes to -/

/-- A custom field that is taken: the first of its name. -/
def Usable (fields : List Field) (field : Field) : Prop :=
  ∃ before given after, fields = before ++ given :: after ∧ field = given.trimmed ∧
    usableName (before.map (·.trimmed.name)).reverse field.name

def Event.uploaded : Event Id → Option (Id × File)
  | .upload id file _ => some (id, file)
  | _ => none

def uploadsIn (es : List (Event Id)) : List (Id × File) := es.filterMap Event.uploaded

theorem uploadsIn_append (es fs : List (Event Id)) :
    uploadsIn (es ++ fs) = uploadsIn es ++ uploadsIn fs :=
  List.filterMap_append

/-- What a credential has of its entry. -/
structure Carries (entry : KdbxEntry) (es : List (Event Id)) (input : CredentialInput Id) : Prop where
  name : IsName (inputOf input.collectionId entry) input.name
  password : input.password = entry.password
  fields : ∀ field, field ∈ input.fields ↔ Usable entry.fields field
  totp : input.totp = entry.totp.filter (· ≠ []) ∨ input.totp = none ∧
    ∃ tried answer, .credential tried answer ∈ es ∧ isTotp answer

/-- The collection that a credential is asked for in. -/
def Event.target : Event Id → Option Id
  | .credential input _ => some input.collectionId
  | _ => none

def targetsIn (es : List (Event Id)) : List Id := es.filterMap Event.target

theorem targetsIn_append (es fs : List (Event Id)) :
    targetsIn (es ++ fs) = targetsIn es ++ targetsIn fs :=
  List.filterMap_append

theorem targetsIn_collections {es : List (Event Id)} (h : ∀ e ∈ es, e.IsCollection) :
    targetsIn es = [] := by
  refine List.filterMap_eq_nil_iff.2 fun e he => ?_
  obtain ⟨parent, name, answer⟩ := h e he
  rfl

theorem Attempts.target {base : CredentialInput Id} {es : List (Event Id)}
    {made : Except Problem Id} (h : Attempts server base es made) :
    (targetsIn es).head? = some base.collectionId := by
  induction h with
  | first log => rfl
  | again log _ _ ih | without log _ _ ih => rw [targetsIn_append, List.head?_append, ih, Option.some_or]

/-- The requests for one credential in `es`: after those for collections, and before the files. -/
structure Asked (server : Server Id) (base : CredentialInput Id) (es : List (Event Id))
    (o : Option Id) (before tried after : List (Event Id)) (made : Except Problem Id) : Prop where
  split : es = before ++ (tried ++ after)
  collections : ∀ e ∈ before, e.IsCollection
  attempts : Attempts server base tried made
  files : ∀ e ∈ after, e.uploaded.isSome
  outcome : o = made.toOption

theorem Asked.target {base : CredentialInput Id} {es before tried after : List (Event Id)}
    {o : Option Id} {made : Except Problem Id} (h : Asked server base es o before tried after made) :
    (targetsIn es).head? = some base.collectionId := by
  rw [h.split, targetsIn_append, targetsIn_collections h.collections, List.nil_append,
    targetsIn_append, List.head?_append, h.attempts.target, Option.some_or]

/-- The events of an entry, whose collection is `found`, and what comes of it. Its requests say which
that is: the credential is asked for in it, and not at all where there is none. -/
structure Accounted (server : Server Id) (entry : KdbxEntry) (found : Option Id)
    (es : List (Event Id)) (o : Option Id) : Prop where
  target : (targetsIn es).head? = found
  created : ∀ id, o = some id →
    (∃ input, createdIn es = [(input, id)] ∧ found = some input.collectionId ∧
      Carries entry es input) ∧
      uploadsIn es = entry.files.map fun file => (id, file)
  failed : o = none → createdIn es = [] ∧
    ((∃ parent name problem, .collection parent name (.error problem) ∈ es) ∨
      ∃ input problem, .credential input (.error problem) ∈ es)
  missing : found = none → (∀ e ∈ es, e.IsCollection) ∧
    ∃ parent name problem, .collection parent name (.error problem) ∈ es
  asked : ∀ collection, found = some collection → ∃ before tried after made,
    Asked server (inputOf collection entry) es o before tried after made
  taken : ∀ collection, found = some collection → OnlyTaken server (inputOf collection entry) →
    o.isSome
  totp : ∀ collection, found = some collection → OnlyTotp server (inputOf collection entry) →
    o.isSome

theorem Finds.none_created {found : Option Id} {es : List (Event Id)} (h : Finds found es) :
    createdIn es = [] ∧ uploadsIn es = [] := by
  constructor <;> refine List.filterMap_eq_nil_iff.2 fun e he => ?_
  all_goals
    obtain ⟨parent, name, answer⟩ := h.collections e he
    rfl

theorem Attempts.none_uploaded {base : CredentialInput Id} {es : List (Event Id)}
    {made : Except Problem Id} (h : Attempts server base es made) : uploadsIn es = [] := by
  induction h with
  | first log => rfl
  | again log _ _ ih | without log _ _ ih =>
    rw [uploadsIn_append, ih]
    rfl

def Uploads (id : Id) (file : File) (e : Event Id) : Prop := ∃ ok, e = .upload id file ok

theorem uploads_of_forall₂ {id : Id} {files : List File} {es : List (Event Id)}
    (h : List.Forall₂ (Uploads id) files es) :
    createdIn es = [] ∧ uploadsIn es = files.map (fun file => (id, file)) ∧
      ∀ e ∈ es, e.uploaded.isSome := by
  induction h with
  | nil => exact ⟨rfl, rfl, fun e he => absurd he List.not_mem_nil⟩
  | @cons file e files es he _ ih =>
    obtain ⟨ok, rfl⟩ := he
    obtain ⟨hcreated, huploads, hfiles⟩ := ih
    exact ⟨hcreated, congrArg ((id, file) :: ·) huploads, List.forall_mem_cons.2 ⟨rfl, hfiles⟩⟩

theorem uploadAttachment_logs (id : Id) (file : File) :
    Logs Session.log (Known collectionId) (uploadAttachment server id file) fun _ es =>
      ∃ e, Uploads id file e ∧ es = [e] :=
  fun _ hs => ⟨_, _, _, rfl, hs, rfl, _, ⟨_, rfl⟩, rfl⟩

/-- All that is known of the requests for an entry's credential. -/
theorem createEntry_all (base : CredentialInput Id) :
    Logs Session.log (Known collectionId) (createEntry server base) fun o es =>
      (∃ made, Attempts server base es made ∧ o = made.toOption) ∧
        (OnlyTaken server base → o.isSome) ∧ (OnlyTotp server base → o.isSome) := by
  refine (createEntry_logs base).and (.and ?_ ?_)
  · by_cases h : OnlyTaken server base
    · exact (createEntry_taken h).mono fun _ _ hsome _ => hsome
    · exact (createEntry_logs base).mono fun _ _ _ honly => absurd honly h
  · by_cases h : OnlyTotp server base
    · exact (createEntry_totp h).mono fun _ _ hsome _ => hsome
    · exact (createEntry_logs base).mono fun _ _ _ honly => absurd honly h

theorem carries_of_attempts {entry : KdbxEntry} {collection : Id} {before es after : List (Event Id)}
    {name : JsString} {totp : Option JsString} (hname : IsName (inputOf collection entry) name)
    (htotp : totp = (inputOf collection entry).totp ∨ totp = none ∧
      ∃ input answer, .credential input answer ∈ es ∧ isTotp answer) :
    Carries entry (before ++ (es ++ after))
      { inputOf collection entry with name := name, totp := totp } where
  name := hname
  password := rfl
  fields field := by
    have hmem : field ∈ usableFields [] entry.fields ↔ _ := mem_usableFields
    simp only [List.append_nil] at hmem
    exact hmem
  totp := htotp.imp_right fun ⟨hnone, input, answer, hmem, hanswer⟩ =>
    ⟨hnone, input, answer, List.mem_append_right _ (List.mem_append_left _ hmem), hanswer⟩

section
variable [DecidableEq Id]

theorem importEntry_logs (topName : JsString) (entry : KdbxEntry) :
    Logs Session.log (Known collectionId) (importEntry server tree collectionId topName entry)
      fun o es => ∃ found, Accounted server entry found es o := by
  unfold importEntry
  refine Logs.bind (collectionOf_logs topName entry.path) fun found es hes => ?_
  obtain ⟨hesCreated, hesUploads⟩ := hes.none_created
  cases found with
  | none =>
    have hrefused := hes.refused rfl
    refine .pure ⟨none, ?_⟩
    rw [List.append_nil]
    exact {
      target := by rw [targetsIn_collections hes.collections]; rfl
      created := fun id h => by cases h
      failed := fun _ => ⟨hesCreated, .inl hrefused⟩
      missing := fun _ => ⟨hes.collections, hrefused⟩
      asked := fun collection h => by cases h
      taken := fun collection h => by cases h
      totp := fun collection h => by cases h }
  | some collection =>
    refine Logs.bind (createEntry_all (inputOf collection entry)) fun o fs hfs => ?_
    obtain ⟨⟨made, hattempts, rfl⟩, htaken, htotp⟩ := hfs
    cases made with
    | error problem =>
      obtain ⟨hcreated, input, problem', hrefused⟩ := hattempts.of_error rfl
      have hasked : Asked server (inputOf collection entry) (es ++ fs) none es fs [] (.error problem) :=
        ⟨by rw [List.append_nil], hes.collections, hattempts,
          fun e he => absurd he List.not_mem_nil, rfl⟩
      refine .pure ⟨some collection, ?_⟩
      rw [List.append_nil]
      exact {
        target := hasked.target
        created := fun id h => by cases h
        failed := fun _ => ⟨by rw [createdIn_append, hesCreated, hcreated]; rfl,
          .inr ⟨input, problem', List.mem_append_right _ hrefused⟩⟩
        missing := fun h => by cases h
        asked := fun c h => ⟨es, fs, [], .error problem, Option.some.inj h ▸ hasked⟩
        taken := fun c h honly => htaken (Option.some.inj h ▸ honly)
        totp := fun c h honly => htotp (Option.some.inj h ▸ honly) }
    | ok id =>
      have hloop : Logs Session.log (Known collectionId)
          (entry.files.forM (uploadAttachment server id)) fun _ gs =>
            List.Forall₂ (Uploads id) entry.files gs :=
        .forM fun file _ => uploadAttachment_logs id file
      refine Logs.bind hloop fun _ gs hgs => .pure ⟨some collection, ?_⟩
      obtain ⟨hgsCreated, hgsUploads, hgsFiles⟩ := uploads_of_forall₂ hgs
      obtain ⟨name, totp, hcreated, hname, htotp'⟩ := hattempts.of_ok rfl
      have hasked : Asked server (inputOf collection entry) (es ++ (fs ++ gs)) (some id) es fs gs
          (.ok id) := ⟨rfl, hes.collections, hattempts, hgsFiles, rfl⟩
      rw [List.append_nil]
      exact {
        target := hasked.target
        created := fun id' h => by
          cases h
          refine ⟨⟨_, ?_, rfl, carries_of_attempts hname htotp'⟩, ?_⟩
          · rw [createdIn_append, createdIn_append, hesCreated, hcreated, hgsCreated]
            rfl
          · rw [uploadsIn_append, uploadsIn_append, hesUploads, hattempts.none_uploaded, hgsUploads]
            rfl
        failed := fun h => by cases h
        missing := fun h => by cases h
        asked := fun c h => ⟨es, fs, gs, .ok id, Option.some.inj h ▸ hasked⟩
        taken := fun _ _ _ => rfl
        totp := fun _ _ _ => rfl }

theorem importGroups_logs (topName : JsString) (groups : List (List JsString)) :
    Logs Session.log (Known collectionId) (importGroups server tree collectionId topName groups)
      fun _ es => createdIn es = [] := by
  induction groups with
  | nil => exact .pure rfl
  | cons group groups ih =>
    unfold importGroups
    refine Logs.bind (collectionOf_logs topName group) fun found es hes => ?_
    refine Logs.bind ih fun failed fs hfs => .pure ?_
    rw [List.append_nil, createdIn_append, hes.none_created.1, hfs]
    rfl

/-! ## The whole import -/

/-- The entries with what was logged of each and what came of it. -/
abbrev Row (Id : Type) := List (Event Id) × Option Id

/-- The titles of the entries that came to nothing. -/
def failedTitles (entries : List KdbxEntry) (rows : List (Row Id)) : List JsString :=
  ((entries.zip rows).filter fun e => e.2.2.isNone).map fun e => titleOf e.1

/-- What the loop over the entries adds to the result. -/
structure Adds (entries : List KdbxEntry) (rows : List (Row Id)) (before after : ImportResult Id) :
    Prop where
  created : after.created = before.created + (rows.filterMap (·.2)).length
  ids : after.ids = before.ids ++ rows.filterMap (·.2)
  failed : after.failed = before.failed ++ failedTitles entries rows

omit [DecidableEq Id] in
theorem Adds.cons {entry : KdbxEntry} {entries : List KdbxEntry} {row : Row Id}
    {rows : List (Row Id)} {before after : ImportResult Id}
    (h : Adds entries rows (before.add entry row.2) after) :
    Adds (entry :: entries) (row :: rows) before after := by
  obtain ⟨es, o⟩ := row
  cases o with
  | none =>
    refine ⟨h.created, h.ids, h.failed.trans ?_⟩
    exact List.append_assoc before.failed [titleOf entry] _
  | some id =>
    refine ⟨h.created.trans ?_, h.ids.trans ?_, h.failed⟩
    · exact Nat.add_right_comm before.created 1 _
    · exact List.append_assoc before.ids [id] _

theorem importEntries_logs (topName : JsString) (entries : List KdbxEntry)
    (result : ImportResult Id) :
    Logs Session.log (Known collectionId)
      (importEntries server tree collectionId topName result entries) fun result' es =>
        ∃ rows, List.Forall₂ (fun entry row => ∃ found, Accounted server entry found row.1 row.2)
          entries rows ∧ es = (rows.map (·.1)).flatten ∧ Adds entries rows result result' := by
  induction entries generalizing result with
  | nil =>
    exact .pure ⟨[], .nil, rfl, rfl, (List.append_nil _).symm, (List.append_nil _).symm⟩
  | cons entry entries ih =>
    unfold importEntries
    refine Logs.bind (importEntry_logs topName entry) fun o es hes => ?_
    refine (ih _).mono fun result' fs hfs => ?_
    obtain ⟨rows, hrows, rfl, hadds⟩ := hfs
    exact ⟨(es, o) :: rows, .cons hes hrows, rfl, hadds.cons⟩

end

/-- A credential with all that its entry has. -/
structure Whole (entry : KdbxEntry) (log : List (Event Id)) (input : CredentialInput Id) (id : Id) :
    Prop where
  made : (input, id) ∈ createdIn log
  password : input.password = entry.password
  fields : ∀ field ∈ entry.fields, field ∈ input.fields
  totp : input.totp = entry.totp
  files : ∀ file ∈ entry.files, .upload id file true ∈ log

def takesAll : Server Nat where
  collection log _ _ := .ok log.length
  credential log _ := .ok log.length
  upload _ _ _ := true

/-- An entry that has two custom fields of one name. -/
def twoFields : KdbxEntry where
  path := []
  title := js "Router"
  username := []
  password := js "secret"
  url := []
  notes := []
  icon := 0
  fields := [⟨js "PIN", js "1", false⟩, ⟨js "PIN", js "2", false⟩]
  files := []
  tags := none
  expires := none
  totp := none

end Web.SharedKdbx

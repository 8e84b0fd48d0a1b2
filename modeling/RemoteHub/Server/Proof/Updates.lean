import RemoteHub.Server.Proof.Credentials

/-!
# Updates of a credential in flight

Over a run whose updates all find the version they read, an item is what the last committed update
that set it gave (`last_update_counts`). The invariant is about the requests in flight too: one that
has read the current version has read which secrets there are. An update that finds another version
copies from an outdated one (`lost_password`).
-/

namespace Server.Updates

open Model Except

variable {crates : Crates} {w w' : World}

/-- The committed changes of a credential, in their order. -/
def World.changesOf (w : World) (id : Uuid) : List CredentialChange :=
  (w.committed.filter (·.1 = id)).map (·.2)

/-- An update of `id` that is committed next finds the version it read. -/
def World.fresh (id : Uuid) (w : World) : Event → Bool
  | .next k =>
    match w.flights.lookup k with
    | some (.ready other c) =>
      other ≠ id || (w.db.credentials.lookup id).any (·.version = c.before)
    | _ => true
  | _ => true

/-- The world after a commit. -/
def World.commit (w : World) (k : Nat) (id : Uuid) (c : CredentialChange) (db : Db) : World :=
  { w with db, flights := w.flights.erase k, committed := w.committed ++ [(id, c)] }

/-- A step reads, or commits an update. -/
theorem step_cases {e : Event} (h : w.step crates e = some w') :
    (w'.db.credentials = w.db.credentials ∧ w'.db.secretFields = w.db.secretFields ∧
      w'.committed = w.committed ∧
      ∀ k id c, w'.flights.lookup k = some (.ready id c) → w.flights.lookup k = some (.ready id c) ∨
        ∃ row, w.db.credentials.lookup id = some row ∧ Agrees c row) ∨
      ∃ k id c db', e = .next k ∧ w.flights.lookup k = some (.ready id c) ∧
        w.db.writeCredential id c = .ok db' ∧
        w' = w.commit k id c db' := by
  have hinsert : ∀ k subject id input l k' id' c, (w.flights.insert k
      (.loading subject id input l)).lookup k' = some (.ready id' c) →
      w.flights.lookup k' = some (.ready id' c) := by
    intro k subject id input l k' id' c hk'
    rw [HashMap.lookup_insert_eq] at hk'
    split at hk'
    · cases hk'
    · exact hk'
  cases e with
  | start k subject id input =>
    simp only [World.step] at h
    split at h
    · cases h
    · cases h
      exact .inl ⟨rfl, rfl, rfl, fun k' id' c hk' => .inl (hinsert _ _ _ _ _ k' id' c hk')⟩
  | tick clock =>
    cases h
    exact .inl ⟨rfl, rfl, rfl, fun _ _ _ hk => .inl hk⟩
  | elsewhere folders collections devices profiles grants connectors =>
    cases h
    exact .inl ⟨rfl, rfl, rfl, fun _ _ _ hk => .inl hk⟩
  | next k =>
    obtain ⟨f, hf, rfl⟩ := Option.map_eq_some_iff.1 h
    cases f with
    | loading subject id input l =>
      refine .inl ?_
      simp only [World.next]
      split
      · exact ⟨rfl, rfl, rfl, fun k' id' c hk' => .inl (hinsert _ _ _ _ _ k' id' c hk')⟩
      · split
        · rename_i change hread
          refine ⟨rfl, rfl, rfl, fun k' id' c hk' => ?_⟩
          rw [HashMap.lookup_insert_eq] at hk'
          split at hk'
          · cases hk'
            exact .inr (readCredential_ok hread)
          · exact .inl hk'
        · exact ⟨rfl, rfl, rfl, fun k' id' c hk' => .inl (HashMap.of_lookup_erase hk').2⟩
    | ready id c =>
      cases hwrite : w.db.writeCredential id c with
      | ok db' =>
        refine .inr ⟨k, id, c, db', rfl, hf, hwrite, ?_⟩
        simp only [World.next, hwrite, World.commit]
      | error e =>
        have hnext : w.next crates k (.ready id c) = { w with flights := w.flights.erase k } := by
          simp only [World.next, hwrite]
        rw [hnext]
        refine .inl ?_
        exact ⟨rfl, rfl, rfl, fun k' id' c hk' => .inl (HashMap.of_lookup_erase hk').2⟩

/-- The invariant of the runs whose updates of `id` find the version they read. -/
structure Inv (start : Db) (id : Uuid) (w : World) : Prop where
  intact : ∃ row, Intact w.db id row
  reads : ∀ k other c, w.flights.lookup k = some (.ready other c) →
    ∃ row, w.db.credentials.lookup other = some row ∧ c.before ≤ row.version
  agrees : ∀ k c row, w.flights.lookup k = some (.ready id c) →
    w.db.credentials.lookup id = some row → c.before = row.version → Agrees c row
  values : ∀ item, w.db.current id item =
    ((w.changesOf id).reverse.findSome? (·.sets item)).getD (start.current id item)

variable {start : Db} {id : Uuid}

/-- A step that commits nothing. -/
theorem Inv.read (h : Inv start id w) (hcredentials : w'.db.credentials = w.db.credentials)
    (hfields : w'.db.secretFields = w.db.secretFields) (hcommitted : w'.committed = w.committed)
    (hflights : ∀ k id c, w'.flights.lookup k = some (.ready id c) →
      w.flights.lookup k = some (.ready id c) ∨
        ∃ row, w.db.credentials.lookup id = some row ∧ Agrees c row) : Inv start id w' where
  intact := by
    obtain ⟨row, hi⟩ := h.intact
    exact ⟨row, hi.congr (by rw [hcredentials]) fun _ _ => by rw [hfields]⟩
  reads := by
    intro k other c hk
    rw [hcredentials]
    rcases hflights k other c hk with hk | ⟨row, hrow, ha⟩
    · exact h.reads k other c hk
    · exact ⟨row, hrow, ha.version.le⟩
  agrees := by
    intro k c row hk hrow hversion
    rw [hcredentials] at hrow
    rcases hflights k id c hk with hk | ⟨row', hrow', ha⟩
    · exact h.agrees k c row hk hrow hversion
    · rw [hrow] at hrow'
      cases hrow'
      exact ha
  values := by
    intro item
    have hcurrent : w'.db.current id item = w.db.current id item :=
      current_congr (by rw [hcredentials]) (fun _ _ => by rw [hfields]) item
    unfold World.changesOf
    rw [hcurrent, hcommitted]
    exact h.values item

section
variable {k : Nat} {other : Uuid} {c : CredentialChange} {db' : Db}

theorem changesOf_commit :
    (w.commit k other c db').changesOf id =
      w.changesOf id ++ if other = id then [c] else [] := by
  unfold World.changesOf World.commit
  rw [List.filter_append, List.map_append]
  by_cases h : other = id <;> simp [h]

/-- Versions only grow. -/
theorem Inv.reads_commit (h : Inv start id w) (hk : w.flights.lookup k = some (.ready other c))
    (hwrite : w.db.writeCredential other c = .ok db') {k' : Nat} {other' : Uuid}
    {c' : CredentialChange} (hk' : (w.flights.erase k).lookup k' = some (.ready other' c')) :
    ∃ row, db'.credentials.lookup other' = some row ∧ c'.before ≤ row.version := by
  obtain ⟨row, hrow, hbefore⟩ := h.reads k other c hk
  obtain ⟨row', hrow', hbefore'⟩ := h.reads k' other' c' (HashMap.of_lookup_erase hk').2
  rw [(writeCredential_ok hrow hbefore hwrite).1, HashMap.lookup_insert_eq]
  split
  · rename_i hother
    subst hother
    rw [hrow] at hrow'
    cases hrow'
    refine ⟨c.apply row, rfl, ?_⟩
    show c'.before ≤ row.version + if c.changed then 1 else 0
    split <;> omega
  · exact ⟨row', hrow', hbefore'⟩

/-- An update of another credential. -/
theorem Inv.commitOther (h : Inv start id w) (hk : w.flights.lookup k = some (.ready other c))
    (hne : other ≠ id) (hwrite : w.db.writeCredential other c = .ok db') :
    Inv start id (w.commit k other c db') := by
  obtain ⟨row, hrow, hbefore⟩ := h.reads k other c hk
  obtain ⟨hsame, hfields⟩ := other_writeCredential (Ne.symm hne) hrow hbefore hwrite
  refine ⟨?_, fun k' other' c' hk' => h.reads_commit hk hwrite hk', ?_, ?_⟩
  · obtain ⟨row', hi⟩ := h.intact
    exact ⟨row', hi.congr hsame hfields⟩
  · intro k' c' row' hk' hrow' hversion
    exact h.agrees k' c' row' (HashMap.of_lookup_erase hk').2 (hsame ▸ hrow') hversion
  · intro item
    rw [changesOf_commit, if_neg hne, List.append_nil, ← h.values item]
    exact current_congr hsame hfields item

/-- An update of the credential that finds the version it read. -/
theorem Inv.commitOwn {row : CredentialRow} (h : Inv start id w)
    (hk : w.flights.lookup k = some (.ready id c))
    (hrow : w.db.credentials.lookup id = some row) (hversion : c.before = row.version)
    (hwrite : w.db.writeCredential id c = .ok db') : Inv start id (w.commit k id c db') := by
  have ha := h.agrees k c row hk hrow hversion
  have hi : Intact w.db id row := by
    obtain ⟨row', hi⟩ := h.intact
    have hfound := hi.found
    rw [hrow] at hfound
    cases hfound
    exact hi
  have hi' := intact_writeCredential hi ha hwrite
  refine ⟨⟨_, hi'⟩, fun k' other' c' hk' => h.reads_commit hk hwrite hk', ?_, ?_⟩
  · intro k' c' row' hk' hrow' hversion'
    have hk'' := (HashMap.of_lookup_erase hk').2
    rw [show (w.commit k id c db').db.credentials.lookup id = some (c.apply row) from hi'.found]
      at hrow'
    cases hrow'
    obtain ⟨row'', hrow'', hbefore⟩ := h.reads k' id c' hk''
    rw [hrow] at hrow''
    cases hrow''
    cases hc : c.changed with
    | true =>
      -- no request has read the new version yet
      have hnext : (c.apply row).version = row.version + 1 := by simp [CredentialChange.apply, hc]
      omega
    | false =>
      have hnext : (c.apply row).version = row.version := by simp [CredentialChange.apply, hc]
      exact ha.of_not_changed (h.agrees k' c' row hk'' hrow (hversion'.trans hnext)) hc
  · intro item
    rw [changesOf_commit, if_pos rfl, List.reverse_append, List.reverse_singleton,
      List.singleton_append, List.findSome?_cons]
    show db'.current id item = _
    rw [current_writeCredential hi ha hwrite, h.values item]
    cases c.sets item <;> rfl

end

theorem Inv.step {e : Event} (h : Inv start id w) (hfresh : w.fresh id e = true)
    (hstep : w.step crates e = some w') : Inv start id w' := by
  rcases step_cases hstep with ⟨hcredentials, hfields, hcommitted, hflights⟩ |
    ⟨k, other, c, db', rfl, hk, hwrite, rfl⟩
  · exact h.read hcredentials hfields hcommitted hflights
  · by_cases hother : other = id
    · subst hother
      simp only [World.fresh, hk, ne_eq, not_true_eq_false, decide_false, Bool.false_or,
        Option.any_eq_true, decide_eq_true_eq] at hfresh
      obtain ⟨row, hrow, hversion⟩ := hfresh
      exact h.commitOwn hk hrow hversion.symm hwrite
    · exact h.commitOther hk hother hwrite

/-- **The last update that set an item counts**: over any interleaving in which every update of the
credential still finds the version it read, the current version has for each item what the last
committed update that set or removed it gave, and what there was at the start if none did. -/
theorem last_update_counts (crates : Crates) (db : Db) (clock : Int) (id : Uuid)
    (row : CredentialRow) (hstart : Intact db id row) (es : List Event) (w : World)
    (hrun : Run.run (World.step crates) ⟨db, clock, ∅, []⟩ es = some w)
    (hfresh : Run.Meets (World.step crates) (fun w e => w.fresh id e = true) ⟨db, clock, ∅, []⟩ es)
    (item : Item) :
    w.db.current id item =
      ((w.changesOf id).reverse.findSome? (·.sets item)).getD (db.current id item) := by
  have h0 : Inv db id ⟨db, clock, ∅, []⟩ := by
    refine ⟨⟨row, hstart⟩, ?_, ?_, fun _ => rfl⟩
    · intro k other c hk
      cases hk
    · intro k c row' hk
      cases hk
  have hinv : Inv db id w := by
    refine Run.inv_of_meets (I := fun _ w => Inv db id w) h0 ?_ hfresh hrun
    intro es t e t' _ hC hstep hi
    exact hi.step hC hstep
  exact hinv.values item

/-- A collection with one credential. -/
def vault : Db where
  collections := .collect [(1, { parentId := none, name := "Network" })]
  credentials := .collect
    [(7, { collectionId := 1, name := "router", username := "", version := 1, url := "", notes := "",
           icon := 0, fields := [], tags := [], expiresOn := none, hasTotp := false,
           deletedAt := none })]
  secretFields := .collect [((7, 1, passwordField), "old")]

def noCrates : Crates := ⟨⟨fun _ _ _ => .error .invalidKey⟩, fun _ => none, fun _ _ _ => false⟩

def newPassword : CredentialInput :=
  { collectionId := 1, name := "router", secrets := { password := some "new" } }

def newPin : CredentialInput :=
  { collectionId := 1, name := "router",
    fields := [{ name := "PIN", isProtected := true, value := some "1234" }] }

/-- Both requests load their catalogs, in turn. -/
def bothLoaded : List Event :=
  [.start 0 ⟨∅, true⟩ 7 newPassword, .start 1 ⟨∅, true⟩ 7 newPin] ++
    (List.replicate 7 [.next 0, .next 1]).flatten

theorem vault_intact : ∃ row, Intact vault 7 row := by
  have hentries : ∀ e ∈ vault.secretFields.entries, e = ⟨(7, 1, passwordField), "old"⟩ := by decide
  have honly : ∀ version f v, vault.secretFields.lookup (7, version, f) = some v →
      version = 1 ∧ f = passwordField := by
    intro version f v hv
    have he := hentries _ (HashMap.lookup_eq_some.1 hv)
    simp only [Sigma.mk.injEq, Prod.mk.injEq] at he
    exact he.1.2
  refine ⟨_, ⟨rfl, fun n v hv => ?_, fun v hv => ?_, fun version f hlt => ?_⟩⟩
  · exact absurd (honly 1 (secretName n) v hv).2 (secretName_ne_password n)
  · exact absurd (honly 1 totpField v hv).2.symm password_ne_totp
  · refine Option.eq_none_iff_forall_ne_some.2 fun v hv => ?_
    have hone := (honly version f v hv).1
    rw [hone] at hlt
    exact absurd hlt (by decide)

/-- Each update reads and commits while the other one is on its way. -/
theorem last_update_counts_in_turn :
    ∃ w, Run.run (World.step noCrates) ⟨vault, 0, ∅, []⟩
        (bothLoaded ++ [.next 0, .next 0, .next 1, .next 1]) = some w ∧
      w.db.current 7 .password = some "new" ∧
      w.db.current 7 .password =
        ((w.changesOf 7).reverse.findSome? (·.sets .password)).getD (vault.current 7 .password) := by
  have hrun : (Run.run (World.step noCrates) ⟨vault, 0, ∅, []⟩
      (bothLoaded ++ [.next 0, .next 0, .next 1, .next 1])).map
        (fun w => w.db.current 7 .password) = some (some "new") := by decide
  obtain ⟨w, hw, hpassword⟩ := Option.map_eq_some_iff.1 hrun
  obtain ⟨row, hrow⟩ := vault_intact
  have hfresh : Run.Meets (World.step noCrates) (fun w e => w.fresh 7 e = true)
      ⟨vault, 0, ∅, []⟩ (bothLoaded ++ [.next 0, .next 0, .next 1, .next 1]) := by decide
  exact ⟨w, hw, hpassword, last_update_counts noCrates vault 0 7 row hrow _ w hw hfresh .password⟩

/-- Both updates read version 1. The first one sets the password in version 2; the second one, which
only adds a field, brings the old password back in version 3. -/
theorem lost_password :
    (∃ row, Intact vault 7 row) ∧ vault.current 7 .password = some "old" ∧
      ∃ w, Run.run (World.step noCrates) ⟨vault, 0, ∅, []⟩
          (bothLoaded ++ [.next 0, .next 1, .next 0, .next 1]) = some w ∧
        w.flights.keys = [] ∧
        (w.changesOf 7).reverse.findSome? (·.sets .password) = some (some "new") ∧
        w.db.current 7 .password = some "old" := by
  refine ⟨vault_intact, by decide, ?_⟩
  have hrun : (Run.run (World.step noCrates) ⟨vault, 0, ∅, []⟩
      (bothLoaded ++ [.next 0, .next 1, .next 0, .next 1])).map
        (fun w => (w.flights.keys, (w.changesOf 7).reverse.findSome? (·.sets .password),
          w.db.current 7 .password)) = some ([], some (some "new"), some "old") := by
    decide
  obtain ⟨w, hw, hlost⟩ := Option.map_eq_some_iff.1 hrun
  rw [Prod.mk.injEq, Prod.mk.injEq] at hlost
  exact ⟨w, hw, hlost⟩

end Server.Updates

import RemoteHub.Server.Audit
import RemoteHub.Lib.HashChain

/-!
# What the audit chain says

* `digestInput_inj`: the bytes hashed for an entry determine the predecessor's hash and all of its
  fields.
* `verify_intact`, `verify_broken`: `verify` finds the first entry that does not fit.
* `Appended`: only the transaction that has the advisory lock has written rows that are not
  committed, and they continue the log; the invariant of all interleavings.
-/

namespace Server.Audit

open Model List Interleave

variable {J : Type} {pg : Postgres J} {e e' : Entry J}

/-! ## What is hashed -/

theorem arrayText_elements (e : Entry J) : Postgres.arrayText (pg.elements e) =
    '[' :: (e.seq.repr.toList ++ ',' :: ' ' :: (e.time.repr.toList ++ ',' :: ' ' ::
      (JsonText.orNull (e.actorId.map fun id => (Text.uuidText id).toList) ++ ([',', ' '] ++
      (JsonText.quote e.actorName.toList ++ ([',', ' '] ++
      (JsonText.quote e.action.toList ++ ([',', ' '] ++
      (JsonText.orNull (e.objectType.map String.toList) ++ ([',', ' '] ++
      (JsonText.orNull (e.objectId.map fun id => (Text.uuidText id).toList) ++ ([',', ' '] ++
      ((((pg.detailsText e.details).toList ++ [',']) ++
        ' ' :: JsonText.orNull (e.address.map String.toList)) ++ [']']))))))))))))) := by
  simp [Postgres.arrayText, Postgres.elements, List.intercalate]

theorem not_mem_number (n : Int) : ',' ∉ n.repr.toList :=
  Digits.not_mem_repr (by decide) (by decide)

theorem number_append_inj {n m : Int} {r r' : List Char}
    (h : n.repr.toList ++ ',' :: ' ' :: r = m.repr.toList ++ ',' :: ' ' :: r') : n = m ∧ r = r' := by
  obtain ⟨hnumber, hrest⟩ := Digits.cut_first (not_mem_number n) (not_mem_number m) h
  exact ⟨Int.repr_injective (String.toList_inj.1 hnumber), (List.cons.inj hrest).2⟩

theorem map_toList_inj {o p : Option String} (h : o.map String.toList = p.map String.toList) :
    o = p :=
  Option.map_injective (fun _ _ => String.toList_inj.1) h

theorem map_uuidText_inj {o p : Option Uuid}
    (h : (o.map fun id => (Text.uuidText id).toList) = p.map fun id => (Text.uuidText id).toList) :
    o = p :=
  Option.map_injective (fun _ _ => Text.uuidText_inj) h

/-- The text of an entry: all but its hashes. -/
theorem arrayText_inj (hdetails : Function.Injective pg.detailsText)
    (h : Postgres.arrayText (pg.elements e) = Postgres.arrayText (pg.elements e')) :
    { e with prevHash := e'.prevHash, hash := e'.hash } = e' := by
  rw [arrayText_elements, arrayText_elements] at h
  obtain ⟨hseq, h⟩ := number_append_inj (List.cons.inj h).2
  obtain ⟨htime, h⟩ := number_append_inj h
  obtain ⟨hactorId, h⟩ := JsonText.orNull_append_inj h
  obtain ⟨hactorName, h⟩ := JsonText.quote_append_inj (append_cancel_left h)
  obtain ⟨haction, h⟩ := JsonText.quote_append_inj (append_cancel_left h)
  obtain ⟨hobjectType, h⟩ := JsonText.orNull_append_inj (append_cancel_left h)
  obtain ⟨hobjectId, h⟩ := JsonText.orNull_append_inj (append_cancel_left h)
  -- the details are what is left between there and the address at the end
  obtain ⟨hd, haddress⟩ := JsonText.append_orNull_inj (append_cancel_right (append_cancel_left h))
  have hd := hdetails (String.toList_inj.1 (append_cancel_right hd))
  cases e
  cases e'
  simp only [Entry.mk.injEq]
  exact ⟨hseq, htime, map_uuidText_inj hactorId, String.toList_inj.1 hactorName,
    String.toList_inj.1 haction, map_toList_inj hobjectType, map_uuidText_inj hobjectId, hd,
    map_toList_inj haddress, trivial, trivial⟩

/-- **What is hashed** determines the predecessor's hash and every field. -/
theorem digestInput_inj (hdetails : Function.Injective pg.detailsText)
    (hlength : e.prevHash.length = e'.prevHash.length)
    (h : pg.digestInput e = pg.digestInput e') : { e with hash := e'.hash } = e' := by
  obtain ⟨hprev, htext⟩ := append_inj h hlength
  have htext := arrayText_inj hdetails (String.ofList_injective (Text.utf8_inj.1 htext))
  rw [← htext]
  simp [hprev]

/-! ## `verify` -/

variable {rows before after : List (Entry J)}

variable (pg) in
/-- How the entries are chained. -/
def form : HashChain.Form (Entry J) Bytes where
  number := (·.seq)
  link := (·.prevHash)
  hash := (·.hash)
  digest := pg.auditDigest

variable (pg) in
/-- The entry fits in after these. -/
def Fits (before : List (Entry J)) (e : Entry J) : Prop := (form pg).Fits pg.auditGenesis before e

variable (pg) in
def Intact (rows : List (Entry J)) : Prop := (form pg).Intact pg.auditGenesis rows

theorem ok_iff : ok pg before e = true ↔ Fits pg before e := by
  simp only [ok, decide_eq_true_eq]
  rfl

theorem checked_append (before xs ys : List (Entry J)) :
    checked pg before (xs ++ ys) = checked pg before xs ++ checked pg (before ++ xs) ys := by
  induction xs generalizing before with
  | nil => simp [checked]
  | cons e xs ih => simp [checked, ih]

variable (pg) in
theorem map_checked (before xs : List (Entry J)) :
    (checked pg before xs).map (·.1) = xs.map (·.seq) := by
  induction xs generalizing before with
  | nil => rfl
  | cons e xs ih => simp [checked, ih]

/-- No row of an intact log is found. -/
theorem broken_intact (h : Intact pg rows) : (checked pg [] rows).filter (fun c => !c.2) = [] := by
  induction rows using List.reverseRecOn with
  | nil => rfl
  | append_singleton rows e ih =>
    obtain ⟨hrows, hfits⟩ := HashChain.intact_concat.1 h
    rw [checked_append, filter_append, ih hrows]
    simp [checked, ok_iff.2 hfits]

/-- By the primary key, each number is there once. -/
def KeyUnique (rows : List (Entry J)) : Prop := (rows.map (·.seq)).Nodup

theorem mem_ordered : e ∈ ordered rows ↔ e ∈ rows := mem_mergeSort

theorem pairwise_ordered (h : KeyUnique rows) : (ordered rows).Pairwise (·.seq < ·.seq) := by
  have hle : (ordered rows).Pairwise (·.seq ≤ ·.seq) := by
    refine (pairwise_mergeSort ?_ ?_ rows).imp fun hab => of_decide_eq_true hab
    · intro a b c hab hbc
      simp only [decide_eq_true_eq] at hab hbc ⊢
      omega
    · intro a b
      simp only [Bool.or_eq_true, decide_eq_true_eq]
      omega
  have hne : (ordered rows).Pairwise (·.seq ≠ ·.seq) :=
    pairwise_map.1 (((mergeSort_perm rows _).map _).nodup_iff.2 h)
  exact (hle.and hne).imp fun h => lt_of_le_of_ne h.1 h.2

theorem ordered_of_pairwise (h : rows.Pairwise (·.seq < ·.seq)) : ordered rows = rows :=
  mergeSort_of_pairwise (h.imp fun hlt => decide_eq_true (le_of_lt hlt))

theorem verify_intact (h : Intact pg (ordered rows)) : (verify pg rows).firstBroken = none := by
  simp [verify, broken_intact h]

/-- **The first break**: `verify` reports the first entry that does not fit. -/
theorem verify_broken (hkey : KeyUnique rows) (hrows : ordered rows = before ++ e :: after)
    (hbefore : Intact pg before) (hfirst : ¬Fits pg before e) :
    (verify pg rows).firstBroken = some e.seq := by
  have hlt := pairwise_ordered hkey
  rw [hrows] at hlt
  have hafter : ∀ a ∈ after, e.seq < a.seq := (pairwise_cons.1 (pairwise_append.1 hlt).2.1).1
  have hnot : ok pg before e = false := Bool.eq_false_iff.2 fun h => hfirst (ok_iff.1 h)
  have hbroken : ((checked pg [] (ordered rows)).filter fun c => !c.2).map (·.1) =
      e.seq :: ((checked pg (before ++ [e]) after).filter fun c => !c.2).map (·.1) := by
    rw [hrows, checked_append, filter_append, broken_intact hbefore]
    simp [checked, hnot]
  unfold verify
  simp only [hbroken]
  rw [min?_eq_some_iff]
  refine ⟨mem_cons_self, fun n hn => ?_⟩
  rcases mem_cons.1 hn with rfl | hn
  · exact le_rfl
  · have hmem : n ∈ after.map (·.seq) := by
      rw [← map_checked pg (before ++ [e])]
      exact (filter_sublist.map _).subset hn
    obtain ⟨a, ha, rfl⟩ := mem_map.1 hmem
    exact le_of_lt (hafter a ha)

theorem verify_eq_none (hkey : KeyUnique rows) :
    (verify pg rows).firstBroken = none ↔ Intact pg (ordered rows) := by
  refine ⟨fun h => by_contra fun hbroken => ?_, verify_intact⟩
  obtain ⟨before, e, after, hrows, hbefore, hfirst⟩ := HashChain.exists_first hbroken
  rw [verify_broken hkey hrows hbefore hfirst] at h
  cases h

/-! ## What the last hash says -/

/-- `sha256` tells apart what is hashed for these entries. -/
def NoCollision (pg : Postgres J) (rows : List (Entry J)) : Prop :=
  ∀ a ∈ rows, ∀ b ∈ rows, pg.auditDigest a = pg.auditDigest b → pg.digestInput a = pg.digestInput b

variable {rows' : List (Entry J)}

theorem NoCollision.subset (h : NoCollision pg rows) (hsub : rows' ⊆ rows) : NoCollision pg rows' :=
  fun a ha b hb => h a (hsub ha) b (hsub hb)

/-- In an intact log the predecessor's hash is a hash. -/
theorem length_prevHash (hlength : ∀ x, (pg.sha256 x).length = 32) (h : Intact pg rows)
    (he : e ∈ rows) : e.prevHash.length = 32 := by
  obtain ⟨before, after, rfl⟩ := append_of_mem he
  obtain ⟨-, hlink, -⟩ := h before e after rfl
  have hlink : e.prevHash = (form pg).lastHash pg.auditGenesis before := hlink
  rw [hlink]
  rcases eq_nil_or_concat' before with rfl | ⟨before, d, rfl⟩
  · exact hlength _
  · obtain ⟨-, hhash, -, -⟩ := HashChain.intact_concat.1 (HashChain.intact_of_append h)
    have hhash : d.hash = pg.auditDigest d := hhash
    simp only [HashChain.Form.lastHash, getLast?_append, getLast?_singleton, Option.some_or,
      Option.map_some, Option.getD_some, form]
    rw [hhash]
    exact hlength _

/-- **Two intact logs that end in the same hash** are the same. -/
theorem eq_of_lastHash (hlength : ∀ x, (pg.sha256 x).length = 32)
    (hdetails : Function.Injective pg.detailsText) (h : Intact pg rows) (h' : Intact pg rows')
    (hcollision : NoCollision pg (rows ++ rows'))
    (hlast : rows.getLast?.map (·.hash) = rows'.getLast?.map (·.hash)) : rows = rows' := by
  have hdigest : ∀ a ∈ rows, ∀ b ∈ rows', a.hash = b.hash → pg.auditDigest a = pg.auditDigest b →
      a = b := by
    intro a ha b hb hhash hsame
    have hinput := hcollision a (mem_append_left _ ha) b (mem_append_right _ hb) hsame
    have hprev : a.prevHash.length = b.prevHash.length := by
      rw [length_prevHash hlength h ha, length_prevHash hlength h' hb]
    have hfields := digestInput_inj hdetails hprev hinput
    rwa [← hhash] at hfields
  rcases eq_nil_or_concat' rows with rfl | ⟨xs, x, rfl⟩
  · rcases eq_nil_or_concat' rows' with rfl | ⟨ys, y, rfl⟩
    · rfl
    · simp at hlast
  · rcases eq_nil_or_concat' rows' with rfl | ⟨ys, y, rfl⟩
    · simp at hlast
    · have hlast : x.hash = y.hash := by simpa using hlast
      exact HashChain.eq_of_hash h h' hdigest hlast

theorem mem_before (h : rows.Pairwise (·.seq < ·.seq)) (hrows : rows = before ++ e :: after)
    {r : Entry J} : r ∈ before ↔ r ∈ rows ∧ r.seq < e.seq := by
  subst hrows
  obtain ⟨-, hrest, hcross⟩ := pairwise_append.1 h
  constructor
  · intro hr
    exact ⟨mem_append_left _ hr, hcross r hr e mem_cons_self⟩
  · intro ⟨hr, hlt⟩
    rcases mem_append.1 hr with hr | hr
    · exact hr
    · rcases mem_cons.1 hr with rfl | hr
      · omega
      · have := (pairwise_cons.1 hrest).1 r hr
        omega

/-- **Tampering**: where an entry is as it was stored and something before it is not, an entry up to
there does not fit. -/
theorem exists_broken (hlength : ∀ x, (pg.sha256 x).length = 32)
    (hdetails : Function.Injective pg.detailsText) (hkey : KeyUnique rows) (hkey' : KeyUnique rows')
    (hclean : Intact pg (ordered rows)) (hcollision : NoCollision pg (rows ++ rows'))
    (he : e ∈ rows) (he' : e ∈ rows')
    (hchanged : ∃ r, r.seq < e.seq ∧ ¬(r ∈ rows ↔ r ∈ rows')) :
    ∃ before first after, ordered rows' = before ++ first :: after ∧ Intact pg before ∧
      ¬Fits pg before first ∧ first.seq ≤ e.seq := by
  obtain ⟨xs, xs', hxs⟩ := append_of_mem (mem_ordered.2 he)
  obtain ⟨ys, ys', hys⟩ := append_of_mem (mem_ordered.2 he')
  have hnot : ¬Intact pg (ys ++ [e]) := by
    intro hys'
    have hxs' : Intact pg (xs ++ [e]) := by
      rw [hxs, ← singleton_append, ← append_assoc] at hclean
      exact HashChain.intact_of_append hclean
    have hsub : xs ++ [e] ++ (ys ++ [e]) ⊆ rows ++ rows' := by
      intro r hr
      rw [mem_append, ← mem_ordered, ← @mem_ordered _ _ rows', hxs, hys]
      simp only [mem_append, mem_cons, not_mem_nil, or_false] at hr ⊢
      tauto
    have hsame := eq_of_lastHash hlength hdetails hxs' hys' (hcollision.subset hsub) (by simp)
    have hsame : xs = ys := append_cancel_right hsame
    obtain ⟨r, hlt, hr⟩ := hchanged
    have hx := mem_before (pairwise_ordered hkey) hxs (r := r)
    have hy := mem_before (pairwise_ordered hkey') hys (r := r)
    rw [mem_ordered] at hx hy
    rw [hsame, hy] at hx
    exact hr ⟨fun h => (hx.2 ⟨h, hlt⟩).1, fun h => (hx.1 ⟨h, hlt⟩).1⟩
  obtain ⟨before, first, after, hfirst, hbefore, hbroken⟩ := HashChain.exists_first hnot
  refine ⟨before, first, after ++ ys', ?_, hbefore, hbroken, ?_⟩
  · rw [hys, ← singleton_append, ← append_assoc, hfirst]
    simp
  · have hmem : first ∈ ys ++ [e] := by
      rw [hfirst]
      simp
    rcases mem_append.1 hmem with hmem | hmem
    · exact le_of_lt ((mem_before (pairwise_ordered hkey') hys).1 hmem).2
    · rw [mem_singleton.1 hmem]

/-! ## Transactions -/

variable {s s' : Shared J} {k : Nat} {f : Flight J} {o : Option (Flight J)}
  {log pending : List (Entry J)}

/-- Only the transaction with the advisory lock has written rows that are not committed, and they
continue the log. -/
structure Appends (pg : Postgres J) (s : Shared J) (log pending : List (Entry J)) : Prop where
  rows : s.rows = log.map (none, ·) ++ pending.map (s.lock, ·)
  unlocked : s.lock = none → pending = []
  intact : Intact pg (log ++ pending)

def Appended (pg : Postgres J) (s : Shared J) : Prop := ∃ log pending, Appends pg s log pending

/-- What a transaction in flight relies on. -/
def Ready (k : Nat) (s : Shared J) (f : Flight J) : Prop :=
  match f.phase with
  | .ready => True
  | .locked _ => s.lock = some k
  | .read _ last => s.lock = some k ∧ last = (s.rows.map (·.2)).getLast?

theorem Intact.pairwise (h : Intact pg rows) : rows.Pairwise (·.seq < ·.seq) := by
  have hnumbers := HashChain.numbers_intact h
  have hlt : ((List.range rows.length).map fun i : Nat => (i : Int) + 1).Pairwise (· < ·) :=
    pairwise_map.2 (pairwise_lt_range.imp fun hab => by omega)
  rw [← hnumbers] at hlt
  exact pairwise_map.1 hlt

theorem Appends.entries (h : Appends pg s log pending) : s.rows.map (·.2) = log ++ pending := by
  simp [h.rows, Function.comp_def]

theorem Appends.committed (h : Appends pg s log pending) : s.committed = log := by
  unfold Shared.committed
  rw [h.rows, filter_append]
  cases hlocked : s.lock with
  | none => simp [h.unlocked hlocked, filter_map, Function.comp_def]
  | some k => simp [filter_map, Function.comp_def]

theorem Appends.visible (h : Appends pg s log pending) (hlock : s.lock = some k) :
    s.visible k = log ++ pending := by
  unfold Shared.visible
  rw [h.rows, hlock]
  simp [filter_map, Function.comp_def]

/-- The last entry of the log is the one with the highest number. -/
theorem foldl_last (h : rows.Pairwise (·.seq < ·.seq)) :
    rows.foldl (fun last row => if last.any (row.seq ≤ ·.seq) then last else some row) none =
      rows.getLast? := by
  induction rows using reverseRecOn with
  | nil => rfl
  | append_singleton xs x ih =>
    obtain ⟨hxs, -, hlt⟩ := pairwise_append.1 h
    rw [foldl_append, ih hxs, getLast?_concat, foldl_cons, foldl_nil]
    cases hlast : xs.getLast? with
    | none => rfl
    | some a =>
      have hax : a.seq < x.seq := hlt a (mem_of_getLast? hlast) x mem_cons_self
      simp [hax]

theorem Appends.last (h : Appends pg s log pending) (hlock : s.lock = some k) :
    s.last k = (s.rows.map (·.2)).getLast? := by
  unfold Shared.last
  rw [h.visible hlock, foldl_last h.intact.pairwise, h.entries]

/-- The trigger continues the log it read. -/
theorem auditChain_fits {now : Int} {row : New J} (h : Intact pg rows)
    (he : auditChain pg now row rows.getLast? = some e) : Fits pg rows e := by
  simp only [auditChain] at he
  split at he
  · cases he
    refine ⟨rfl, rfl, ?_⟩
    rcases eq_nil_or_concat' rows with rfl | ⟨xs, x, rfl⟩
    · rfl
    · obtain ⟨-, -, -, hnumber⟩ := HashChain.intact_concat.1 h
      have hnumber : x.seq = xs.length + 1 := hnumber
      simp [form, hnumber]
  · cases he

/-- No number of the log is given again. -/
theorem Fits.find_none (h : Appends pg s log pending) (he : Fits pg (log ++ pending) e) :
    (s.rows.find? fun row => row.2.seq = e.seq) = none := by
  rw [find?_eq_none]
  intro row hrow
  have hmem : row.2 ∈ log ++ pending := by
    rw [← h.entries]
    exact mem_map_of_mem hrow
  have hpairwise := (Intact.pairwise (HashChain.intact_concat.2 ⟨h.intact, he⟩))
  have hlt := (pairwise_append.1 hpairwise).2.2 row.2 hmem e (by simp)
  simp only [decide_eq_true_eq]
  omega

/-- The end of a transaction that has the lock. -/
theorem Appends.commit (h : Appends pg s log pending) (hlock : s.lock = some k) :
    Appends pg (s.commit k) (log ++ pending) [] where
  rows := by simp [Shared.commit, Shared.release, h.rows, hlock, Function.comp_def]
  unlocked _ := rfl
  intact := by simpa using h.intact

theorem Appends.rollback (h : Appends pg s log pending) (hlock : s.lock = some k) :
    Appends pg (s.rollback k) log [] where
  rows := by simp [Shared.rollback, Shared.release, h.rows, hlock, filter_map, Function.comp_def]
  unlocked _ := rfl
  intact := by
    rw [append_nil]
    exact HashChain.intact_of_append h.intact

/-- A transaction without the lock has written nothing. -/
theorem Appends.ne_owner (h : Appends pg s log pending) (hlock : s.lock ≠ some k)
    {row : Option Nat × Entry J} (hrow : row ∈ s.rows) : row.1 ≠ some k := by
  rw [h.rows, mem_append, mem_map, mem_map] at hrow
  rcases hrow with ⟨e, -, rfl⟩ | ⟨e, -, rfl⟩
  · nofun
  · exact hlock

theorem Appends.commit_eq (h : Appends pg s log pending) (hlock : s.lock ≠ some k) :
    s.commit k = s := by
  have hrows : (s.rows.map fun row => (if row.1 = some k then none else row.1, row.2)) = s.rows := by
    rw [map_congr_left (g := id) fun row hrow => by rw [if_neg (h.ne_owner hlock hrow)]; rfl, map_id]
  unfold Shared.commit Shared.release
  rw [if_neg hlock, hrows]

theorem Appends.rollback_eq (h : Appends pg s log pending) (hlock : s.lock ≠ some k) :
    s.rollback k = s := by
  have hrows : (s.rows.filter fun row => row.1 ≠ some k) = s.rows :=
    filter_eq_self.2 fun row hrow => decide_eq_true (h.ne_owner hlock hrow)
  unfold Shared.rollback Shared.release
  rw [if_neg hlock, hrows]

/-- What a step of transaction `k` leaves. -/
structure Outcome (pg : Postgres J) (k : Nat) (s s' : Shared J) (o : Option (Flight J)) :
    Prop where
  appended : Appended pg s'
  ready : ∀ g, o = some g → Ready k s' g
  /-- Without the lock it changes nothing while another one has it. -/
  waits : ∀ k', k' ≠ k → s.lock = some k' → s' = s

/-- A transaction that is over. -/
theorem Outcome.close (h : Appends pg s' log pending) (hwaits : s.lock ≠ some k → s' = s) :
    Outcome pg k s s' none where
  appended := ⟨log, pending, h⟩
  ready g hg := by cases hg
  waits k' hne hlock := hwaits (by rw [hlock, ne_eq, Option.some.injEq]; exact hne)

theorem Outcome.commit (h : Appends pg s log pending) : Outcome pg k s (s.commit k) none := by
  by_cases hlock : s.lock = some k
  · exact .close (h.commit hlock) fun hnot => absurd hlock hnot
  · have hsame := h.commit_eq hlock
    rw [hsame]
    exact .close h fun _ => rfl

theorem Outcome.rollback (h : Appends pg s log pending) : Outcome pg k s (s.rollback k) none := by
  by_cases hlock : s.lock = some k
  · exact .close (h.rollback hlock) fun hnot => absurd hlock hnot
  · have hsame := h.rollback_eq hlock
    rw [hsame]
    exact .close h fun _ => rfl

theorem next_ok (hs : Appended pg s) (hready : Ready k s f)
    (h : f.next pg k s = some (s', o)) : Outcome pg k s s' o := by
  obtain ⟨log, pending, hs⟩ := hs
  unfold Flight.next at h
  split at h
  · cases h
    exact .rollback hs
  · unfold Ready at hready
    split at h
    · split at h
      · cases h
        split
        · exact .commit hs
        · exact .rollback hs
      · split at h
        · rename_i hlock
          cases h
          refine ⟨⟨log, pending, ?_, nofun, hs.intact⟩, ?_, ?_⟩
          · rcases hlock with hlock | hlock
            · simp [hs.rows, hs.unlocked hlock]
            · simp [hs.rows, hlock]
          · intro g hg
            cases hg
            rfl
          · intro k' hne hlock'
            simp [hlock', hne] at hlock
        · cases h
    · rename_i hphase
      cases h
      simp only [hphase] at hready
      refine ⟨⟨log, pending, hs⟩, fun g hg => ?_, fun _ _ _ => rfl⟩
      cases hg
      exact ⟨hready, hs.last hready⟩
    · rename_i row last hphase
      simp only [hphase] at hready
      obtain ⟨hlock, rfl⟩ := hready
      split at h
      · cases h
        exact .rollback hs
      · rename_i e he
        rw [hs.entries] at he
        have hfits := auditChain_fits hs.intact he
        unfold Shared.write at h
        rw [hfits.find_none hs] at h
        cases h
        refine ⟨⟨log, pending ++ [e], ?_, ?_, ?_⟩, fun g hg => ?_, fun k' hne hlock' => ?_⟩
        · simp [hs.rows, hlock]
        · intro hfree
          rw [hlock] at hfree
          cases hfree
        · rw [← append_assoc]
          exact HashChain.intact_concat.2 ⟨hs.intact, hfits⟩
        · cases hg
          trivial
        · rw [hlock, Option.some.injEq] at hlock'
          exact absurd hlock'.symm hne

theorem invariant : Invariant (system pg) (fun _ _ => True) (Appended pg) Ready where
  start k s f _ hf := by
    have hf : f.isNew = true := hf
    unfold Flight.isNew at hf
    unfold Ready
    split at hf
    · rename_i hphase
      simp [hphase]
    · cases hf
  next w k f s o hw _ hf h := by
    obtain ⟨hs, hown, hwaits⟩ := next_ok hw.shared (hw.flights k f hf) h
    refine ⟨hs, hown, fun k' g hne _ hg => ?_⟩
    -- who relies on the lock keeps what it saw, for the others nothing counts
    unfold Ready at hg ⊢
    split
    · trivial
    · rename_i hphase
      simp only [hphase] at hg
      rw [hwaits k' hne hg]
      exact hg
    · rename_i hphase
      simp only [hphase] at hg
      rw [hwaits k' hne hg.1]
      exact hg
  outside w e s hw _ h := by
    cases e with
    | cancel k =>
      cases h
      obtain ⟨log, pending, hs⟩ := hw.shared
      exact ⟨⟨log, pending, hs.rows, hs.unlocked, hs.intact⟩, fun k g hg => hg⟩

/-- **The audit chain.** Over any interleaving of transactions that append, the log is numbered from
one without a gap, and `verify` finds no break. Two logs in which it finds none and that end in the
same hash are the same; so where an entry of such a log is as it was stored and something before it
is not, `verify` reports the first entry that does not fit, and that is not after it. What is hashed
for an entry determines its predecessor's hash and all of its fields. -/
theorem audit_chain_holds (pg : Postgres J) (hlength : ∀ x, (pg.sha256 x).length = 32)
    (hdetails : Function.Injective pg.detailsText) :
    (∀ es w, Run.run (Interleave.step (system pg)) (World.quiet {}) es = some w →
      w.shared.committed.map (·.seq) =
          (List.range w.shared.committed.length).map (fun i : Nat => (i : Int) + 1) ∧
        verify pg w.shared.committed = ⟨w.shared.committed.length, none⟩) ∧
    (∀ rows rows', KeyUnique rows → KeyUnique rows' → NoCollision pg (rows ++ rows') →
      (verify pg rows).firstBroken = none → (verify pg rows').firstBroken = none →
      (ordered rows).getLast?.map (·.hash) = (ordered rows').getLast?.map (·.hash) →
      ordered rows = ordered rows') ∧
    (∀ rows rows' e, KeyUnique rows → KeyUnique rows' → NoCollision pg (rows ++ rows') →
      (verify pg rows).firstBroken = none → e ∈ rows → e ∈ rows' →
      (∃ r, r.seq < e.seq ∧ ¬(r ∈ rows ↔ r ∈ rows')) →
      ∃ before first after, ordered rows' = before ++ first :: after ∧ Intact pg before ∧
        ¬Fits pg before first ∧ (verify pg rows').firstBroken = some first.seq ∧
        first.seq ≤ e.seq) ∧
    ∀ e e' : Entry J, e.prevHash.length = 32 → e'.prevHash.length = 32 →
      pg.digestInput e = pg.digestInput e' → { e with hash := e'.hash } = e' := by
  refine ⟨?_, ?_, ?_, ?_⟩
  · intro es w hrun
    have hstart : Appended pg ({} : Shared J) := ⟨[], [], rfl, fun _ => rfl, HashChain.intact_nil⟩
    have hw := invariant.run hstart (Run.meets_of_forall (fun _ _ => trivial) _ _) hrun
    obtain ⟨log, pending, hs⟩ := hw.shared
    have hintact : Intact pg log := HashChain.intact_of_append hs.intact
    rw [hs.committed]
    refine ⟨HashChain.numbers_intact hintact, ?_⟩
    have hnone : (verify pg log).firstBroken = none :=
      verify_intact (by rwa [ordered_of_pairwise hintact.pairwise])
    rw [← hnone]
    rfl
  · intro rows rows' hkey hkey' hcollision hclean hclean' hlast
    refine eq_of_lastHash hlength hdetails ((verify_eq_none hkey).1 hclean)
      ((verify_eq_none hkey').1 hclean') (hcollision.subset ?_) hlast
    intro r hr
    simpa only [mem_append, mem_ordered] using hr
  · intro rows rows' e hkey hkey' hcollision hclean he he' hchanged
    obtain ⟨before, first, after, hrows, hbefore, hfirst, hle⟩ := exists_broken hlength hdetails hkey
      hkey' ((verify_eq_none hkey).1 hclean) hcollision he he' hchanged
    exact ⟨before, first, after, hrows, hbefore, hfirst, verify_broken hkey' hrows hbefore hfirst,
      hle⟩
  · intro e e' he he' h
    exact digestInput_inj hdetails (by rw [he, he']) h

/-! ### Two sign-ins -/

def genesis : Nat := 0xf8973afb50ed8209aec7ef485fada90228241aeb5d2fe11c7d429657ccea7478
def aliceHash : Nat := 0x6738e202ba006d73296a6ca48c2fec59fb2a67a7cbb2cf823ef0babe9e96c741
def bobHash : Nat := 0xa8ddb656aa228145842ffb9e16b2f6b06c187b94d237b7d300ab6f5ae5376f98
def carolHash : Nat := 0x1242acc64f5c13ed96eb720d8947496b5e561a3de49eecca84aae9b2864f6f1b

def aliceText : String :=
  "[1, 1000, null, \"alice\", \"session.sign_in\", null, null, \x7b\x7d, \"10.0.0.1\"]"

def bobText : String :=
  "[1, 1000, null, \"bob\", \"session.sign_in\", null, null, \x7b\x7d, \"10.0.0.1\"]"

def carolText : String :=
  "[2, 1001, null, \"carol\", \"session.sign_in\", null, null, \x7b\x7d, null]"

/-- SHA-256 of what is hashed below. -/
def signInsSha256 (x : Bytes) : Bytes :=
  Text.bytes32 <|
    if x = Text.utf8 "remotehub-audit|00000000-0000-0000-0000-000000000001" then genesis
    else if x = Text.bytes32 genesis ++ Text.utf8 aliceText then aliceHash
    else if x = Text.bytes32 genesis ++ Text.utf8 bobText then bobHash
    else if x = Text.bytes32 aliceHash ++ Text.utf8 carolText then carolHash
    else 0

def signIns : Postgres Unit where
  sha256 := signInsSha256
  detailsText _ := "\x7b\x7d"
  instanceId := 1

def signIn (name : String) (address : Option String) : New Unit where
  time := none
  actorId := none
  actorName := name
  action := "session.sign_in"
  objectType := none
  objectId := none
  details := ()
  address := address

/-- The entry as it is stored. -/
def signInEntry (seq time : Int) (name : String) (address : Option String) (prevHash hash : Nat) :
    Entry Unit where
  seq := seq
  time := time
  actorId := none
  actorName := name
  action := "session.sign_in"
  objectType := none
  objectId := none
  details := ()
  address := address
  prevHash := Text.bytes32 prevHash
  hash := Text.bytes32 hash

def aliceEntry : Entry Unit := signInEntry 1 1000 "alice" (some "10.0.0.1") genesis aliceHash
def bobEntry : Entry Unit := signInEntry 1 1000 "bob" (some "10.0.0.1") genesis bobHash
def carolEntry : Entry Unit := signInEntry 2 1001 "carol" none aliceHash carolHash

def concurrentSignIns : List (Interleave.Event (Flight Unit) Outside) :=
  [.start 0 ⟨1000, [signIn "alice" (some "10.0.0.1")], true, .ready⟩,
    .start 1 ⟨1001, [signIn "carol" none], true, .ready⟩] ++
    List.replicate 4 (.next 0) ++ List.replicate 4 (.next 1)

theorem audit_chain_holds_sign_ins :
    ∃ w, Run.run (Interleave.step (system signIns)) (World.quiet {}) concurrentSignIns = some w ∧
      w.shared.committed = [aliceEntry, carolEntry] ∧
      verify signIns w.shared.committed = ⟨2, none⟩ ∧
      ∃ n, (verify signIns [bobEntry, carolEntry]).firstBroken = some n ∧ n ≤ 2 := by
  have hlength : ∀ x, (signIns.sha256 x).length = 32 := by
    intro x
    simp [signIns, signInsSha256, Text.bytes32]
  have hdetails : Function.Injective signIns.detailsText := fun _ _ _ => rfl
  obtain ⟨hruns, -, htampered, -⟩ := audit_chain_holds signIns hlength hdetails
  have hrun : (Run.run (Interleave.step (system signIns)) (World.quiet {}) concurrentSignIns).map
      (fun w => w.shared.committed) = some [aliceEntry, carolEntry] := by decide +kernel
  obtain ⟨w, hw, hcommitted⟩ := Option.map_eq_some_iff.1 hrun
  have hclean := (hruns concurrentSignIns w hw).2
  rw [hcommitted] at hclean
  have hcollision : NoCollision signIns ([aliceEntry, carolEntry] ++ [bobEntry, carolEntry]) := by
    unfold NoCollision
    decide +kernel
  obtain ⟨_, first, _, -, -, -, hbroken, hle⟩ := htampered [aliceEntry, carolEntry]
    [bobEntry, carolEntry] carolEntry (by simp [KeyUnique, aliceEntry, carolEntry, signInEntry])
    (by simp [KeyUnique, bobEntry, carolEntry, signInEntry]) hcollision
    (by rw [hclean]) (by simp) (by simp) ⟨bobEntry, by decide, by decide⟩
  exact ⟨w, hw, hcommitted, by rw [hcommitted, hclean]; rfl, first.seq, hbroken, hle⟩

end Server.Audit

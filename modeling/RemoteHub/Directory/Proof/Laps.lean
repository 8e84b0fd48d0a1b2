import Mathlib.Data.List.TakeWhile
import RemoteHub.Directory.Laps
import RemoteHub.Lib.Split

/-!
# Whose password it is

The search finds the computers named `host` and those whose first label is that of `host`; `choose` takes
the only one, or the one of that name (`chosen_cases`). The only one need not be the computer that `host`
names when `host` is a full name (`chosen_belongs`).
-/

namespace Directory

open Text

variable {ldap : Ldap} {computers : List Computer} {computer : Computer} {host name : String}

/-- Two texts match ignoring case. -/
def Same (ldap : Ldap) (a b : String) : Prop := a.toList.map ldap.fold = b.toList.map ldap.fold

/-- The server evaluates the filter for `host` as it is written, and characters that differ in case
only match. -/
structure Ldap.Evaluates (ldap : Ldap) (host : String) : Prop where
  finds : ∀ text, filter ldap host = some text → ∀ computer, ldap.finds text computer = true ↔
    ∃ name, computer.dNSHostName = some name ∧ (Same ldap name (normalize host) ∨
      (label (normalize host) ++ ".").toList.map ldap.fold <+: name.toList.map ldap.fold)
  dot : ∀ c, ldap.fold c = '.' ↔ c = '.'
  lower : ∀ c, ldap.fold c.toLower = ldap.fold c

/-- The computer has the full name `host`. -/
def Named (ldap : Ldap) (host : String) (computer : Computer) : Prop :=
  ∃ name, computer.dNSHostName = some name ∧ Same ldap name (normalize host)

/-- `host` is a single label. -/
def SingleLabel (host : String) : Prop := '.' ∉ (normalize host).toList

/-- `host` is the computer's full name, or a single label and its first one. -/
def Belongs (ldap : Ldap) (host : String) (computer : Computer) : Prop :=
  Named ldap host computer ∨
    (SingleLabel host ∧ ∃ name, computer.dNSHostName = some name ∧ Same ldap (label name) (normalize host))

theorem label_eq (name : String) : label name = .ofList (name.toList.takeWhile (· ≠ '.')) := by
  have hhead : ∀ s acc : List Char, (pieces '.' acc s).head? = some (acc ++ s.takeWhile (· ≠ '.')) := by
    intro s
    induction s with
    | nil => simp [pieces]
    | cons c s ih =>
      intro acc
      rw [pieces]
      by_cases hc : c = '.'
      · simp [hc]
      · simp [hc, ih]
  rw [label, split, List.headD_eq_head?_getD, List.head?_map, hhead]
  rfl

theorem label_of_single {s : String} (h : '.' ∉ s.toList) : label s = s := by
  rw [label_eq, List.takeWhile_eq_self_iff.2 ?_, String.ofList_toList]
  intro c hc
  rw [decide_eq_true_eq]
  exact fun heq => h (heq ▸ hc)

/-- A name that begins with a label and a dot has that label first. -/
theorem same_label {s : String} (h : ldap.Evaluates host) (hs : '.' ∉ s.toList)
    (hstarts : (s ++ ".").toList.map ldap.fold <+: name.toList.map ldap.fold) :
    Same ldap (label name) s := by
  obtain ⟨rest, hrest⟩ := hstarts
  rw [String.toList_append, List.map_append, List.append_assoc] at hrest
  obtain ⟨before, after, hname, hbefore, hafter⟩ := List.map_eq_append_iff.1 hrest.symm
  have hafter : after.map ldap.fold = ldap.fold '.' :: rest := hafter
  obtain ⟨c, after, rfl, hc, -⟩ := List.map_eq_cons_iff.1 hafter
  have hdot : c = '.' := (h.dot c).1 (hc.trans ((h.dot '.').2 rfl))
  have hfree : ∀ d ∈ before, decide (d ≠ '.') = true := by
    intro d hd
    rw [decide_eq_true_eq]
    rintro rfl
    have hmem : ldap.fold '.' ∈ s.toList.map ldap.fold := hbefore ▸ List.mem_map_of_mem hd
    obtain ⟨e, he, heq⟩ := List.mem_map.1 hmem
    rw [(h.dot '.').2 rfl, h.dot] at heq
    exact hs (heq ▸ he)
  have htake : name.toList.takeWhile (· ≠ '.') = before := by
    rw [hname, List.takeWhile_append_of_pos hfree, hdot]
    simp
  rw [Same, label_eq, String.toList_ofList, htake, hbefore]

/-- What ASCII has as equal matches. -/
theorem Same.of_ascii {a b : String} (h : ldap.Evaluates host) (heq : eqIgnoreAsciiCase a b = true) :
    Same ldap a b := by
  have hlower : ∀ s : String, (toAsciiLowercase s).toList.map ldap.fold = s.toList.map ldap.fold := by
    intro s
    rw [toAsciiLowercase, String.toList_ofList, List.map_map]
    exact List.map_congr_left fun c _ => h.lower c
  rw [Same, ← hlower a, ← hlower b, of_decide_eq_true heq]

/-- What the search finds. -/
theorem mem_found (h : ldap.Evaluates host) (hfilter : filter ldap host ≠ none) :
    computer ∈ found ldap computers host ↔ computer ∈ computers ∧
      ∃ name, computer.dNSHostName = some name ∧ (Same ldap name (normalize host) ∨
        (label (normalize host) ++ ".").toList.map ldap.fold <+: name.toList.map ldap.fold) := by
  obtain ⟨text, htext⟩ := Option.ne_none_iff_exists'.1 hfilter
  rw [found, htext, Option.elim_some, List.mem_filter, h.finds text htext]

/-- The computer chosen is the only one found, or there are others and it is the one of that name. -/
theorem chosen_cases (h : chosen ldap computers host = .ok computer) :
    filter ldap host ≠ none ∧ (found ldap computers host = [computer] ∨
      ((found ldap computers host).length ≠ 1 ∧
        ∃ name, computer.dNSHostName = some name ∧ eqIgnoreAsciiCase name (normalize host) = true)) := by
  obtain ⟨text, htext, h⟩ := Except.bind_eq_ok.1 h
  rw [Except.elim_eq_ok] at htext
  obtain ⟨index, hindex, h⟩ := Except.bind_eq_ok.1 h
  rw [Except.elim_eq_ok] at h
  rw [found, htext, Option.elim_some]
  refine ⟨Option.some_ne_none text, ?_⟩
  generalize computers.filter (ldap.finds text) = entries at h hindex
  match entries, h, hindex with
  | [], h, hindex => cases hindex
  | [entry], h, hindex =>
    cases hindex
    exact .inl (congrArg (fun c => [c]) (Option.some.inj h))
  | first :: second :: rest, h, hindex =>
    refine .inr ⟨by simp, ?_⟩
    simp only [choose, List.length_map, List.length_cons] at hindex
    split at hindex
    · rename_i hexact
      cases hindex
      have hi : index ∈ (((first :: second :: rest).map (·.dNSHostName)).zipIdx.filter fun e =>
          e.1.any (eqIgnoreAsciiCase · (normalize host))).map (·.2) := by
        rw [hexact]
        exact List.mem_cons_self
      obtain ⟨⟨dns, j⟩, hmem, rfl⟩ := List.mem_map.1 hi
      obtain ⟨hmem, hsame⟩ := List.mem_filter.1 hmem
      have hdns := List.mem_zipIdx_iff_getElem?.1 hmem
      rw [List.getElem?_map, h, Option.map_some, Option.some.injEq] at hdns
      obtain ⟨name, hname, hsame⟩ := (Option.any_eq_true _ _).1 hsame
      exact ⟨name, hdns.trans hname, hsame⟩
    · cases hindex

/-- The only computer found is chosen. -/
theorem chosen_of_single (h : found ldap computers host = [computer]) :
    chosen ldap computers host = .ok computer := by
  unfold found at h
  cases hfilter : filter ldap host with
  | none =>
    rw [hfilter] at h
    cases h
  | some text =>
    rw [hfilter, Option.elim_some] at h
    have hchoose : choose ([computer].map (·.dNSHostName)) host = .ok 0 := rfl
    refine Except.bind_eq_ok.2 ⟨text, by rw [hfilter, Option.elim_some], ?_⟩
    refine Except.bind_eq_ok.2 ⟨0, by rw [h, hchoose], ?_⟩
    rw [h]
    rfl

/-- **Whose password it is.** The computer chosen for `host` is always the one that `host` names exactly
if `host` is a single label, or there is a computer of that full name, or the search does not find just
one. -/
theorem chosen_belongs (h : ldap.Evaluates host) :
    (∀ computer, chosen ldap computers host = .ok computer → Belongs ldap host computer) ↔
      SingleLabel host ∨ (∃ computer ∈ computers, Named ldap host computer) ∨
        (found ldap computers host).length ≠ 1 := by
  constructor
  · intro hall
    by_cases hone : (found ldap computers host).length = 1
    swap
    · exact .inr (.inr hone)
    obtain ⟨computer, hfound⟩ := List.length_eq_one_iff.1 hone
    have hchosen := chosen_of_single hfound
    rcases hall computer hchosen with hnamed | ⟨hsingle, -⟩
    · have hmem : computer ∈ found ldap computers host := hfound ▸ List.mem_cons_self
      exact .inr (.inl ⟨computer, ((mem_found h (chosen_cases hchosen).1).1 hmem).1, hnamed⟩)
    · exact .inl hsingle
  · intro hcond computer hchosen
    obtain ⟨hfilter, hfound | ⟨-, name, hname, hsame⟩⟩ := chosen_cases hchosen
    swap
    · exact .inl ⟨name, hname, .of_ascii h hsame⟩
    have hmem : computer ∈ found ldap computers host := hfound ▸ List.mem_cons_self
    rcases hcond with hsingle | ⟨other, hother, hnamed⟩ | hmany
    · obtain ⟨-, name, hname, hsame | hprefix⟩ := (mem_found h hfilter).1 hmem
      · exact .inl ⟨name, hname, hsame⟩
      · rw [label_of_single hsingle] at hprefix
        exact .inr ⟨hsingle, name, hname, same_label h hsingle hprefix⟩
    · -- the only one found is the one of that name
      obtain ⟨name, hname, hsame⟩ := hnamed
      have hboth : other ∈ found ldap computers host :=
        (mem_found h hfilter).2 ⟨hother, name, hname, .inl hsame⟩
      rw [hfound, List.mem_singleton] at hboth
      exact .inl ⟨name, hboth ▸ hname, hsame⟩
    · rw [hfound] at hmany
      exact absurd rfl hmany

/-- A server that ignores the case of ASCII, asked for `host`. -/
def asciiServer (host : String) : Ldap where
  escape := id
  fold := Char.toLower
  finds _ computer := computer.dNSHostName.any fun name =>
    eqIgnoreAsciiCase name (normalize host) ||
      ((label (normalize host) ++ ".").toList.map Char.toLower).isPrefixOf (name.toList.map Char.toLower)

theorem toLower_eq_dot (c : Char) : c.toLower = '.' ↔ c = '.' := by
  rcases toLower_cases c with ⟨hlower, -⟩ | ⟨hlow, -, hnum⟩
  · rw [hlower]
  · constructor
    · intro h
      rw [h] at hnum
      have hdot : '.'.toNat = 46 := rfl
      omega
    · rintro rfl
      rfl

theorem asciiServer_evaluates (host : String) : (asciiServer host).Evaluates host where
  finds text htext computer := by
    simp only [asciiServer, Option.any_eq_true, Bool.or_eq_true, List.isPrefixOf_iff_prefix,
      eqIgnoreAsciiCase, decide_eq_true_eq, toAsciiLowercase, Same, String.ofList_inj]
  dot := toLower_eq_dot
  lower := toLower_toLower

theorem chosen_belongs_web01 :
    Belongs (asciiServer "WEB01.a.example.") "WEB01.a.example." { dNSHostName := some "web01.a.example" } := by
  have hall : ∀ computer, chosen (asciiServer "WEB01.a.example.")
      [{ dNSHostName := some "web01.a.example" }, { dNSHostName := some "web01.b.example" }]
      "WEB01.a.example." = .ok computer → Belongs (asciiServer "WEB01.a.example.") "WEB01.a.example." computer :=
    (chosen_belongs (asciiServer_evaluates "WEB01.a.example.")).2
      (.inr (.inl ⟨_, List.mem_cons_self, "web01.a.example", rfl, by unfold Same; decide⟩))
  exact hall _ (by decide +kernel)

/-- A computer of another domain is the only one found. -/
theorem other_domain :
    lapsPassword (asciiServer "web01.a.example") (fun _ => none)
        [{ sAMAccountName := some "WEB01$", dNSHostName := some "web01.b.example",
           msMcsAdmPwd := some "secret" }] "web01.a.example" =
      .ok { account := "Administrator", password := "secret", computer := "WEB01" } ∧
    ∃ computer, chosen (asciiServer "web01.a.example")
        [{ sAMAccountName := some "WEB01$", dNSHostName := some "web01.b.example",
           msMcsAdmPwd := some "secret" }] "web01.a.example" = .ok computer ∧
      ¬Belongs (asciiServer "web01.a.example") "web01.a.example" computer := by
  refine ⟨by decide +kernel,
    { sAMAccountName := some "WEB01$", dNSHostName := some "web01.b.example",
      msMcsAdmPwd := some "secret" }, by decide +kernel, ?_⟩
  rintro (⟨name, hname, hsame⟩ | ⟨hsingle, -⟩)
  · cases hname
    exact absurd hsame (by unfold Same; decide)
  · exact absurd hsingle (by unfold SingleLabel; decide)

end Directory

import RemoteHub.Browser.Session

/-!
# Sessions apart

A session that has taken a display has it alone: `Owned` says that a display that is taken is that of the
session in flight that took it, `Owns` what of the machine is the session's own at each of its stages, and
`Kept` that there is nothing else on the machine. A step changes nothing but the session's own (`Frame`).
-/

namespace Browser.Session

open Interleave

variable {settings : Settings} {s s' : Shared} {k j n : Nat} {stage : Stage} {c : Claim}

/-- The order of the stages. -/
def Stage.rank : Stage → Nat
  | taken => 0
  | cleared => 1
  | made => 2
  | keyed => 3
  | unlocked => 4
  | waiting => 5
  | shown => 6
  | proxied => 7
  | started => 8
  | ready => 9
  | idle => 10
  | ended _ => 11
  | dropped _ => 12
  | replied => 13
  | removed => 14
  | unlinked => 15

/-! ## What remotehub reads -/

/-- The answers once a display is up. -/
def Opened (c : Claim) : Prop :=
  c.sent = [.ready c.vncPort c.plan.password] ∨
    ∃ outcome : Outcome, c.sent = [.ready c.vncPort c.plan.password, outcome.reply]

/-- What is answered at each stage. -/
def Answered (c : Claim) : Stage → Prop
  | .ready => c.sent = [.ready c.vncPort c.plan.password]
  | .idle => Opened c
  | .ended reason | .dropped reason => (reason = none ∧ Opened c) ∨ (reason ≠ none ∧ c.sent = [])
  | .replied | .removed | .unlinked => Opened c ∨ ∃ reason, c.sent = [.failed reason]
  | _ => c.sent = []

/-- The answers on one connection. -/
def Conversation (settings : Settings) (replies : List Reply) : Prop :=
  (∃ reason, replies = [.failed reason]) ∨
    ∃ n ∈ settings.displays, ∃ password, replies = [.ready (.ofNat (5900 + n)) password] ∨
      ∃ outcome : Outcome, replies = [.ready (.ofNat (5900 + n)) password, outcome.reply]

/-! ## What is a session's own -/

/-- What session `k` relies on with a display. -/
structure Owns (settings : Settings) (s : Shared) (k : Nat) (stage : Stage) (c : Claim) : Prop where
  held : s.holder.lookup c.display = some k
  listed : c.display ∈ settings.displays
  key : 2 ≤ stage.rank → stage.rank ≤ 10 →
    ∃ d, s.dirs.lookup c.display = some d ∧ (3 ≤ stage.rank → d.passwd = some c.plan.password)
  opens : ∀ x, s.xvncs.lookup k = some x →
    ∃ d, s.dirs.lookup c.display = some d ∧ d.passwd = some c.plan.password
  blank : c.plan.clears = true → 1 ≤ stage.rank → stage.rank ≤ 7 →
    ∀ d, s.dirs.lookup c.display = some d → d.profile = false
  noXvnc : stage.rank < 5 ∨ 12 ≤ stage.rank → s.xvncs.lookup k = none
  noProxy : stage.rank < 7 ∨ 12 ≤ stage.rank → s.proxies.lookup k = none
  noChromium : stage.rank < 8 ∨ 12 ≤ stage.rank → s.chromiums.lookup k = none
  xvnc : ∀ x, s.xvncs.lookup k = some x → x = ⟨c.display, geometry c.request⟩
  proxy : ∀ p, s.proxies.lookup k = some p → p = ⟨c.plan.port, c.request.authority, c.request.via⟩
  chromium : ∀ x, s.chromiums.lookup k = some x →
    ∃ fresh, x = c.chromium fresh ∧ (c.plan.clears = true → fresh = true)
  swept : 14 ≤ stage.rank → c.display ∈ s.dirs → c.display ∈ s.littered
  unlinked : stage.rank = 15 → c.display ∉ s.sockets
  answered : Answered c stage

/-- There is nothing else on the machine. -/
structure Kept (settings : Settings) (s : Shared) : Prop where
  used : ∀ n, n ∈ s.used ↔ n ∈ s.holder
  listed : ∀ n ∈ s.used, n ∈ settings.displays
  xvncs : ∀ k x, s.xvncs.lookup k = some x → s.holder.lookup x.display = some k
  proxies : ∀ k p, s.proxies.lookup k = some p → ∃ n, s.holder.lookup n = some k
  chromiums : ∀ k x, s.chromiums.lookup k = some x →
    s.holder.lookup x.display = some k ∧ x.dir = x.display
  sockets : ∀ n ∈ s.sockets, n ∈ s.holder
  dirs : ∀ n ∈ s.dirs, n ∈ s.holder ∨ n ∈ s.littered
  answers : ∀ replies ∈ s.answers, Conversation settings replies

/-- What a session in flight relies on. -/
def Relies (settings : Settings) (k : Nat) (s : Shared) : Flight → Prop
  | .reading _ => True
  | .holding stage c => Owns settings s k stage c

/-- A display that is taken is that of the session that took it. -/
def Owned (w : World Shared Flight) : Prop :=
  ∀ n k, w.shared.holder.lookup n = some k →
    ∃ stage c, w.flights.lookup k = some (.holding stage c) ∧ c.display = n

/-- Session `k` is in flight with display `n`. -/
def Has (w : World Shared Flight) (k n : Nat) : Prop :=
  ∃ stage c, w.flights.lookup k = some (.holding stage c) ∧ c.display = n

/-- Session `k` is in flight as `c`. -/
def Runs (w : World Shared Flight) (k : Nat) (c : Claim) : Prop :=
  ∃ stage, w.flights.lookup k = some (.holding stage c)

/-- What holds of the agent at any time. -/
structure Apart (settings : Settings) (w : World Shared Flight) : Prop where
  one : ∀ k j n, Has w k n → Has w j n → k = j
  listed : ∀ k n, Has w k n → n ∈ settings.displays
  used : ∀ n, n ∈ w.shared.used ↔ ∃ k, Has w k n
  xvncs : ∀ k x, w.shared.xvncs.lookup k = some x →
    ∃ c, Runs w k c ∧ x = ⟨c.display, geometry c.request⟩ ∧
      ∃ d, w.shared.dirs.lookup x.display = some d ∧ d.passwd = some c.plan.password
  proxies : ∀ k p, w.shared.proxies.lookup k = some p →
    ∃ c, Runs w k c ∧ p = ⟨c.plan.port, c.request.authority, c.request.via⟩
  chromiums : ∀ k x, w.shared.chromiums.lookup k = some x →
    ∃ c fresh, Runs w k c ∧ x = c.chromium fresh ∧ (c.plan.clears = true → fresh = true)
  sockets : ∀ n ∈ w.shared.sockets, ∃ k, Has w k n
  dirs : ∀ n ∈ w.shared.dirs, (∃ k, Has w k n) ∨ n ∈ w.shared.littered
  /-- The password that is answered is the session's own, and whoever listens on the port that was answered is
  its own Xvnc, with this password. -/
  told : ∀ k c port password, Runs w k c → .ready port password ∈ c.sent →
    port = c.vncPort ∧ password = c.plan.password ∧
    ∀ j x, w.shared.xvncs.lookup j = some x → .ofNat (5900 + x.display) = port →
      j = k ∧ ∃ d, w.shared.dirs.lookup x.display = some d ∧ d.passwd = some password
  /-- A session that answers that it failed has nothing running any more. -/
  failed : ∀ k c reason, Runs w k c → .failed reason ∈ c.sent →
    w.shared.xvncs.lookup k = none ∧ w.shared.proxies.lookup k = none ∧
      w.shared.chromiums.lookup k = none
  answers : ∀ replies ∈ w.shared.answers, Conversation settings replies

/-! ## Frames -/

/-- Nothing changes but what belongs to session `k` and display `n`. -/
structure Frame (k n : Nat) (s s' : Shared) : Prop where
  holder : ∀ m, m ≠ n → s'.holder.lookup m = s.holder.lookup m
  dirs : ∀ m, m ≠ n → s'.dirs.lookup m = s.dirs.lookup m
  sockets : ∀ m, m ≠ n → (m ∈ s'.sockets ↔ m ∈ s.sockets)
  xvncs : ∀ j, j ≠ k → s'.xvncs.lookup j = s.xvncs.lookup j
  proxies : ∀ j, j ≠ k → s'.proxies.lookup j = s.proxies.lookup j
  chromiums : ∀ j, j ≠ k → s'.chromiums.lookup j = s.chromiums.lookup j
  littered : s.littered ⊆ s'.littered

theorem mem_of_lookup {α : Type} {m m' : HashMap Nat α} {a : Nat} (h : m'.lookup a = m.lookup a) :
    a ∈ m' ↔ a ∈ m := by
  rw [← AList.lookup_isSome, h, AList.lookup_isSome]

/-- The others keep what is theirs. -/
theorem Owns.frame (h : Owns settings s j stage c) (hf : Frame k n s s') (hj : j ≠ k)
    (hn : c.display ≠ n) : Owns settings s' j stage c where
  held := by rw [hf.holder _ hn]; exact h.held
  listed := h.listed
  key := by rw [hf.dirs _ hn]; exact h.key
  opens := by rw [hf.xvncs _ hj, hf.dirs _ hn]; exact h.opens
  blank := by rw [hf.dirs _ hn]; exact h.blank
  noXvnc := by rw [hf.xvncs _ hj]; exact h.noXvnc
  noProxy := by rw [hf.proxies _ hj]; exact h.noProxy
  noChromium := by rw [hf.chromiums _ hj]; exact h.noChromium
  xvnc := by rw [hf.xvncs _ hj]; exact h.xvnc
  proxy := by rw [hf.proxies _ hj]; exact h.proxy
  chromium := by rw [hf.chromiums _ hj]; exact h.chromium
  swept hrank hmem := hf.littered (h.swept hrank ((mem_of_lookup (hf.dirs _ hn)).1 hmem))
  unlinked hrank := by rw [hf.sockets _ hn]; exact h.unlinked hrank
  answered := h.answered

theorem Frame.refl : Frame k n s s :=
  ⟨fun _ _ => rfl, fun _ _ => rfl, fun _ _ => .rfl, fun _ _ => rfl, fun _ _ => rfl, fun _ _ => rfl,
    List.Subset.refl _⟩

/-! ## Steps of a session -/

/-- What a step of session `k` with display `c.display` keeps: it has changed its own only. -/
structure Moved (settings : Settings) (k : Nat) (s s' : Shared) (c c' : Claim) (stage : Stage) : Prop where
  kept : Kept settings s'
  frame : Frame k c.display s s'
  display : c'.display = c.display
  holder : s'.holder = s.holder
  owns : Owns settings s' k stage c'

theorem Owns.fail {reason : String} (h : Owns settings s k stage c) (hsent : c.sent = []) :
    Owns settings s k (.ended (some reason)) c where
  held := h.held
  listed := h.listed
  key := fun _ hle => absurd hle (by decide : ¬ 11 ≤ 10)
  opens := h.opens
  blank := fun _ _ hle => absurd hle (by decide : ¬ 11 ≤ 7)
  noXvnc := fun hrank => absurd hrank (by decide : ¬ (11 < 5 ∨ 12 ≤ 11))
  noProxy := fun hrank => absurd hrank (by decide : ¬ (11 < 7 ∨ 12 ≤ 11))
  noChromium := fun hrank => absurd hrank (by decide : ¬ (11 < 8 ∨ 12 ≤ 11))
  xvnc := h.xvnc
  proxy := h.proxy
  chromium := h.chromium
  swept := fun hrank => absurd hrank (by decide : ¬ 14 ≤ 11)
  unlinked := fun hrank => absurd hrank (by decide : ¬ 11 = 15)
  answered := .inr ⟨by simp, hsent⟩

/-- An operation that may fail, where it would go on to `stage'`. -/
theorem orFail_moved {operation : Operation} {reason : String} {next : Shared × Stage} {o : Option Flight}
    (hi : Kept settings s) (h : Owns settings s k stage c) (hsent : c.sent = [])
    (hgo : Moved settings k s next.1 c c next.2) (hs : orFail c operation reason s next = (s', o)) :
    ∃ stage' c', o = some (.holding stage' c') ∧ Moved settings k s s' c c' stage' := by
  unfold orFail at hs
  split at hs
  · cases hs
    exact ⟨_, c, rfl, hi, .refl, rfl, rfl, h.fail hsent⟩
  · cases hs
    exact ⟨_, c, rfl, hgo⟩

theorem Owns.mem_holder (h : Owns settings s k stage c) : c.display ∈ s.holder :=
  AList.lookup_isSome.1 (by rw [h.held]; rfl)

/-- A change of the session's own directory. -/
theorem Kept.setDirs {dirs : HashMap Nat Dir} (hi : Kept settings s) (h : Owns settings s k stage c)
    (hdirs : ∀ m, m ≠ c.display → dirs.lookup m = s.dirs.lookup m) :
    Kept settings { s with dirs } where
  used := hi.used
  listed := hi.listed
  xvncs := hi.xvncs
  proxies := hi.proxies
  chromiums := hi.chromiums
  sockets := hi.sockets
  dirs m hm := by
    by_cases hself : m = c.display
    · exact .inl (hself ▸ h.mem_holder)
    · exact hi.dirs m ((mem_of_lookup (hdirs m hself)).1 hm)
  answers := hi.answers

/-- The session's own lock file and socket are removed. -/
theorem Kept.unlink (hi : Kept settings s) (n : Nat) :
    Kept settings { s with sockets := s.sockets.filter (· ≠ n) } where
  used := hi.used
  listed := hi.listed
  xvncs := hi.xvncs
  proxies := hi.proxies
  chromiums := hi.chromiums
  sockets m hm := hi.sockets m (List.mem_of_mem_filter hm)
  dirs := hi.dirs
  answers := hi.answers

theorem mem_unlink {l : List Nat} {m : Nat} (hm : m ≠ n) : m ∈ l.filter (· ≠ n) ↔ m ∈ l := by
  simp [hm]

theorem taken_moved (hi : Kept settings s) (h : Owns settings s k .taken c) :
    Moved settings k s { s with dirs := if c.plan.clears then s.dirs.erase c.display else s.dirs } c c
      .cleared := by
  have hdirs (m : Nat) (hm : m ≠ c.display) :
      (if c.plan.clears then s.dirs.erase c.display else s.dirs).lookup m = s.dirs.lookup m := by
    split
    · exact AList.lookup_erase_ne hm
    · rfl
  refine ⟨hi.setDirs h hdirs, { Frame.refl with dirs := hdirs }, rfl, rfl, ?_⟩
  exact {
    held := h.held
    listed := h.listed
    key := fun hrank => absurd hrank (by decide)
    opens := fun x hx => absurd ((h.noXvnc (by decide)).symm.trans hx) (by simp)
    blank := by
      intro hclears _ _ d hd
      rw [if_pos hclears, AList.lookup_erase] at hd
      cases hd
    noXvnc := fun _ => h.noXvnc (by decide)
    noProxy := fun _ => h.noProxy (by decide)
    noChromium := fun _ => h.noChromium (by decide)
    xvnc := h.xvnc
    proxy := h.proxy
    chromium := h.chromium
    swept := fun hrank => absurd hrank (by decide)
    unlinked := fun hrank => absurd hrank (by decide)
    answered := h.answered }

theorem cleared_moved (hi : Kept settings s) (h : Owns settings s k .cleared c) :
    Moved settings k s
      { s with dirs := s.dirs.insert c.display ((s.dirs.lookup c.display).getD {}) } c c .made := by
  have hdirs (m : Nat) (hm : m ≠ c.display) :
      (s.dirs.insert c.display ((s.dirs.lookup c.display).getD {})).lookup m = s.dirs.lookup m :=
    AList.lookup_insert_ne hm
  refine ⟨hi.setDirs h hdirs, { Frame.refl with dirs := hdirs }, rfl, rfl, ?_⟩
  exact {
    held := h.held
    listed := h.listed
    key := fun _ _ => ⟨_, AList.lookup_insert _, fun hrank => absurd hrank (by decide)⟩
    opens := fun x hx => absurd ((h.noXvnc (by decide)).symm.trans hx) (by simp)
    blank := by
      intro hclears _ _ d hd
      rw [AList.lookup_insert, Option.some.injEq] at hd
      subst hd
      cases hold : s.dirs.lookup c.display with
      | none => rfl
      | some d => exact h.blank hclears (by decide) (by decide) d hold
    noXvnc := fun _ => h.noXvnc (by decide)
    noProxy := fun _ => h.noProxy (by decide)
    noChromium := fun _ => h.noChromium (by decide)
    xvnc := h.xvnc
    proxy := h.proxy
    chromium := h.chromium
    swept := fun hrank => absurd hrank (by decide)
    unlinked := fun hrank => absurd hrank (by decide)
    answered := h.answered }

theorem made_moved (hi : Kept settings s) (h : Owns settings s k .made c) :
    Moved settings k s
      { s with dirs := s.dirs.modify c.display ({ · with passwd := some c.plan.password }) } c c .keyed := by
  have hdirs (m : Nat) (hm : m ≠ c.display) :
      (s.dirs.modify c.display ({ · with passwd := some c.plan.password })).lookup m = s.dirs.lookup m := by
    rw [HashMap.lookup_modify, if_neg hm]
  obtain ⟨d, hd, -⟩ := h.key (by decide) (by decide)
  have hown : (s.dirs.modify c.display ({ · with passwd := some c.plan.password })).lookup c.display =
      some { d with passwd := some c.plan.password } := by
    rw [HashMap.lookup_modify, if_pos rfl, hd]
    rfl
  refine ⟨hi.setDirs h hdirs, { Frame.refl with dirs := hdirs }, rfl, rfl, ?_⟩
  exact {
    held := h.held
    listed := h.listed
    key := fun _ _ => ⟨_, hown, fun _ => rfl⟩
    opens := fun x hx => absurd ((h.noXvnc (by decide)).symm.trans hx) (by simp)
    blank := by
      intro hclears _ _ d' hd'
      rw [hown, Option.some.injEq] at hd'
      rw [← hd']
      exact h.blank hclears (by decide) (by decide) d hd
    noXvnc := fun _ => h.noXvnc (by decide)
    noProxy := fun _ => h.noProxy (by decide)
    noChromium := fun _ => h.noChromium (by decide)
    xvnc := h.xvnc
    proxy := h.proxy
    chromium := h.chromium
    swept := fun hrank => absurd hrank (by decide)
    unlinked := fun hrank => absurd hrank (by decide)
    answered := h.answered }

theorem keyed_moved (hi : Kept settings s) (h : Owns settings s k .keyed c) :
    Moved settings k s { s with sockets := s.sockets.filter (· ≠ c.display) } c c .unlocked := by
  refine ⟨hi.unlink _, { Frame.refl with sockets := fun m hm => mem_unlink hm }, rfl, rfl, ?_⟩
  exact {
    held := h.held
    listed := h.listed
    key := fun _ _ => (h.key (by decide) (by decide)).imp fun d hd => ⟨hd.1, fun _ => hd.2 (by decide)⟩
    opens := h.opens
    blank := fun hclears _ _ => h.blank hclears (by decide) (by decide)
    noXvnc := fun _ => h.noXvnc (by decide)
    noProxy := fun _ => h.noProxy (by decide)
    noChromium := fun _ => h.noChromium (by decide)
    xvnc := h.xvnc
    proxy := h.proxy
    chromium := h.chromium
    swept := fun hrank => absurd hrank (by decide)
    unlinked := fun hrank => absurd hrank (by decide)
    answered := h.answered }

theorem unlocked_moved (hi : Kept settings s) (h : Owns settings s k .unlocked c) :
    Moved settings k s { s with xvncs := s.xvncs.insert k ⟨c.display, geometry c.request⟩ } c c
      .waiting := by
  have hxvncs (j : Nat) (hj : j ≠ k) :
      (s.xvncs.insert k ⟨c.display, geometry c.request⟩).lookup j = s.xvncs.lookup j :=
    AList.lookup_insert_ne hj
  refine ⟨{ hi with xvncs := ?_ }, { Frame.refl with xvncs := hxvncs }, rfl, rfl, ?_⟩
  · intro j x hx
    by_cases hj : j = k
    · subst hj
      rw [AList.lookup_insert, Option.some.injEq] at hx
      subst hx
      exact h.held
    · exact hi.xvncs j x ((hxvncs j hj).symm.trans hx)
  exact {
    held := h.held
    listed := h.listed
    key := fun _ _ => (h.key (by decide) (by decide)).imp fun d hd => ⟨hd.1, fun _ => hd.2 (by decide)⟩
    opens := fun _ _ => (h.key (by decide) (by decide)).imp fun d hd => ⟨hd.1, hd.2 (by decide)⟩
    blank := fun hclears _ _ => h.blank hclears (by decide) (by decide)
    noXvnc := fun hrank => absurd hrank (by decide)
    noProxy := fun _ => h.noProxy (by decide)
    noChromium := fun _ => h.noChromium (by decide)
    xvnc := by
      intro x hx
      rw [AList.lookup_insert, Option.some.injEq] at hx
      exact hx.symm
    proxy := h.proxy
    chromium := h.chromium
    swept := fun hrank => absurd hrank (by decide)
    unlinked := fun hrank => absurd hrank (by decide)
    answered := h.answered }

theorem waiting_owns (h : Owns settings s k .waiting c) : Owns settings s k .shown c where
  held := h.held
  listed := h.listed
  key := fun _ _ => (h.key (by decide) (by decide)).imp fun d hd => ⟨hd.1, fun _ => hd.2 (by decide)⟩
  opens := h.opens
  blank := fun hclears _ _ => h.blank hclears (by decide) (by decide)
  noXvnc := fun hrank => absurd hrank (by decide)
  noProxy := fun _ => h.noProxy (by decide)
  noChromium := fun _ => h.noChromium (by decide)
  xvnc := h.xvnc
  proxy := h.proxy
  chromium := h.chromium
  swept := fun hrank => absurd hrank (by decide)
  unlinked := fun hrank => absurd hrank (by decide)
  answered := h.answered

theorem shown_moved (hi : Kept settings s) (h : Owns settings s k .shown c) :
    Moved settings k s
      { s with proxies := s.proxies.insert k ⟨c.plan.port, c.request.authority, c.request.via⟩ } c c
      .proxied := by
  have hproxies (j : Nat) (hj : j ≠ k) : (s.proxies.insert k
      ⟨c.plan.port, c.request.authority, c.request.via⟩).lookup j = s.proxies.lookup j :=
    AList.lookup_insert_ne hj
  refine ⟨{ hi with proxies := ?_ }, { Frame.refl with proxies := hproxies }, rfl, rfl, ?_⟩
  · intro j p hp
    by_cases hj : j = k
    · exact ⟨c.display, hj ▸ h.held⟩
    · exact hi.proxies j p ((hproxies j hj).symm.trans hp)
  exact {
    held := h.held
    listed := h.listed
    key := fun _ _ => (h.key (by decide) (by decide)).imp fun d hd => ⟨hd.1, fun _ => hd.2 (by decide)⟩
    opens := h.opens
    blank := fun hclears _ _ => h.blank hclears (by decide) (by decide)
    noXvnc := fun hrank => absurd hrank (by decide)
    noProxy := fun hrank => absurd hrank (by decide)
    noChromium := fun _ => h.noChromium (by decide)
    xvnc := h.xvnc
    proxy := by
      intro p hp
      rw [AList.lookup_insert, Option.some.injEq] at hp
      exact hp.symm
    chromium := h.chromium
    swept := fun hrank => absurd hrank (by decide)
    unlinked := fun hrank => absurd hrank (by decide)
    answered := h.answered }

/-- A session that could remove the directory starts Chromium without a profile. -/
theorem Owns.fresh (h : Owns settings s k .proxied c) (hclears : c.plan.clears = true) :
    (!(s.dirs.lookup c.display).any (·.profile)) = true := by
  cases hdir : s.dirs.lookup c.display with
  | none => rfl
  | some d =>
    rw [Option.any_some, h.blank hclears (by decide) (by decide) d hdir]
    rfl

theorem proxied_moved {fresh : Bool} (hi : Kept settings s) (h : Owns settings s k .proxied c)
    (hfresh : c.plan.clears = true → fresh = true) :
    Moved settings k s { s with chromiums := s.chromiums.insert k (c.chromium fresh) } c c .started := by
  have hchromiums (j : Nat) (hj : j ≠ k) :
      (s.chromiums.insert k (c.chromium fresh)).lookup j = s.chromiums.lookup j :=
    AList.lookup_insert_ne hj
  refine ⟨{ hi with chromiums := ?_ }, { Frame.refl with chromiums := hchromiums }, rfl, rfl, ?_⟩
  · intro j x hx
    by_cases hj : j = k
    · subst hj
      rw [AList.lookup_insert, Option.some.injEq] at hx
      subst hx
      exact ⟨h.held, rfl⟩
    · exact hi.chromiums j x ((hchromiums j hj).symm.trans hx)
  exact {
    held := h.held
    listed := h.listed
    key := fun _ _ => (h.key (by decide) (by decide)).imp fun d hd => ⟨hd.1, fun _ => hd.2 (by decide)⟩
    opens := h.opens
    blank := fun _ _ hrank => absurd hrank (by decide)
    noXvnc := fun hrank => absurd hrank (by decide)
    noProxy := fun hrank => absurd hrank (by decide)
    noChromium := fun hrank => absurd hrank (by decide)
    xvnc := h.xvnc
    proxy := h.proxy
    chromium := by
      intro x hx
      rw [AList.lookup_insert, Option.some.injEq] at hx
      exact ⟨fresh, hx.symm, hfresh⟩
    swept := fun hrank => absurd hrank (by decide)
    unlinked := fun hrank => absurd hrank (by decide)
    answered := h.answered }

/-- An answer from a stage at which the display is up. -/
theorem Owns.answer {replies : List Reply} {stage' : Stage} (h : Owns settings s k stage c)
    (hrank : 8 ≤ stage.rank ∧ stage.rank ≤ 10) (hrank' : 9 ≤ stage'.rank ∧ stage'.rank ≤ 11)
    (hsent : Answered { c with sent := replies } stage') :
    Owns settings s k stage' { c with sent := replies } where
  held := h.held
  listed := h.listed
  key := fun _ _ => (h.key (by omega) (by omega)).imp fun d hd => ⟨hd.1, fun _ => hd.2 (by omega)⟩
  opens := h.opens
  blank := fun _ _ hle => by omega
  noXvnc := fun hnone => by omega
  noProxy := fun hnone => by omega
  noChromium := fun hnone => by omega
  xvnc := h.xvnc
  proxy := h.proxy
  chromium := h.chromium
  swept := fun hle => by omega
  unlinked := fun heq => by omega
  answered := hsent

theorem ended_moved {reason : Option String} (hi : Kept settings s)
    (h : Owns settings s k (.ended reason) c) :
    Moved settings k s { s with xvncs := s.xvncs.erase k, proxies := s.proxies.erase k,
                                chromiums := s.chromiums.erase k } c c (.dropped reason) := by
  have hframe : Frame k c.display s { s with
      xvncs := s.xvncs.erase k, proxies := s.proxies.erase k, chromiums := s.chromiums.erase k } :=
    ⟨fun _ _ => rfl, fun _ _ => rfl, fun _ _ => .rfl, fun _ hj => AList.lookup_erase_ne hj,
      fun _ hj => AList.lookup_erase_ne hj, fun _ hj => AList.lookup_erase_ne hj, List.Subset.refl _⟩
  refine ⟨{ hi with xvncs := ?_, proxies := ?_, chromiums := ?_ }, hframe, rfl, rfl, ?_⟩
  · exact fun j x hx => hi.xvncs j x (HashMap.of_lookup_erase hx).2
  · exact fun j p hp => hi.proxies j p (HashMap.of_lookup_erase hp).2
  · exact fun j x hx => hi.chromiums j x (HashMap.of_lookup_erase hx).2
  have hx : (s.xvncs.erase k).lookup k = none := AList.lookup_erase _ _
  have hp : (s.proxies.erase k).lookup k = none := AList.lookup_erase _ _
  have hc : (s.chromiums.erase k).lookup k = none := AList.lookup_erase _ _
  exact {
    held := h.held
    listed := h.listed
    key := fun _ hrank => absurd hrank (by decide : ¬ 12 ≤ 10)
    opens := fun x hsome => absurd (hx.symm.trans hsome) (by simp)
    blank := fun _ _ hrank => absurd hrank (by decide : ¬ 12 ≤ 7)
    noXvnc := fun _ => hx
    noProxy := fun _ => hp
    noChromium := fun _ => hc
    xvnc := fun x hsome => absurd (hx.symm.trans hsome) (by simp)
    proxy := fun p hsome => absurd (hp.symm.trans hsome) (by simp)
    chromium := fun x hsome => absurd (hc.symm.trans hsome) (by simp)
    swept := fun hrank => absurd hrank (by decide : ¬ 14 ≤ 12)
    unlinked := fun hrank => absurd hrank (by decide : ¬ 12 = 15)
    answered := h.answered }

/-- A step of a session that has dropped what it had started. -/
theorem Owns.leave {replies : List Reply} {stage' : Stage} (h : Owns settings s k stage c)
    (hrank : 12 ≤ stage.rank) (hrank' : 12 ≤ stage'.rank)
    (hheld : s'.holder = s.holder) (hxvncs : s'.xvncs = s.xvncs) (hproxies : s'.proxies = s.proxies)
    (hchromiums : s'.chromiums = s.chromiums)
    (hswept : 14 ≤ stage'.rank → c.display ∈ s'.dirs → c.display ∈ s'.littered)
    (hunlinked : stage'.rank = 15 → c.display ∉ s'.sockets)
    (hsent : Answered { c with sent := replies } stage') :
    Owns settings s' k stage' { c with sent := replies } where
  held := by rw [hheld]; exact h.held
  listed := h.listed
  key := fun _ hle => by omega
  opens := fun x hx => absurd ((h.noXvnc (.inr hrank)).symm.trans (hxvncs ▸ hx)) (by simp)
  blank := fun _ _ hle => by omega
  noXvnc := fun _ => by rw [hxvncs]; exact h.noXvnc (.inr hrank)
  noProxy := fun _ => by rw [hproxies]; exact h.noProxy (.inr hrank)
  noChromium := fun _ => by rw [hchromiums]; exact h.noChromium (.inr hrank)
  xvnc := by rw [hxvncs]; exact h.xvnc
  proxy := by rw [hproxies]; exact h.proxy
  chromium := by rw [hchromiums]; exact h.chromium
  swept := hswept
  unlinked := hunlinked
  answered := hsent

/-- The answer of a session that failed, after everything it had started is gone. -/
theorem dropped_moved {reason : Option String} (hi : Kept settings s)
    (h : Owns settings s k (.dropped reason) c) :
    Moved settings k s s c { c with sent := c.sent ++ reason.toList.map .failed } .replied := by
  refine ⟨hi, .refl, rfl, rfl, ?_⟩
  refine h.leave (by decide : 12 ≤ 12) (by decide : 12 ≤ 13) rfl rfl rfl rfl
    (fun hrank => absurd hrank (by decide : ¬ 14 ≤ 13)) (fun hrank => absurd hrank (by decide : ¬ 13 = 15)) ?_
  rcases h.answered with ⟨rfl, hopened⟩ | ⟨hreason, hsent⟩
  · left
    unfold Opened at hopened ⊢
    simpa using hopened
  · obtain ⟨reason, rfl⟩ := Option.ne_none_iff_exists'.1 hreason
    exact .inr ⟨reason, by rw [hsent]; rfl⟩

/-- The directory is removed at the end, or stays as `littered`. -/
theorem replied_moved (hi : Kept settings s) (h : Owns settings s k .replied c) :
    Moved settings k s (if c.plan.cleans then { s with dirs := s.dirs.erase c.display }
      else { s with littered := c.display :: s.littered }) c c .removed := by
  have hleft : ∀ m ∈ s.littered, m ∈ c.display :: s.littered := fun m hm => List.mem_cons_of_mem _ hm
  split
  · have hdirs (m : Nat) (hm : m ≠ c.display) : (s.dirs.erase c.display).lookup m = s.dirs.lookup m :=
      AList.lookup_erase_ne hm
    refine ⟨hi.setDirs h hdirs, { Frame.refl with dirs := hdirs }, rfl, rfl, ?_⟩
    exact h.leave (by decide) (by decide) rfl rfl rfl rfl
      (fun _ hmem => absurd rfl (AList.mem_erase.1 hmem).1) (fun hrank => absurd hrank (by decide)) h.answered
  · refine ⟨{ hi with dirs := fun m hm => (hi.dirs m hm).imp_right (hleft m) },
      { Frame.refl with littered := hleft }, rfl, rfl, ?_⟩
    exact h.leave (by decide) (by decide) rfl rfl rfl rfl (fun _ _ => List.mem_cons_self)
      (fun hrank => absurd hrank (by decide)) h.answered

theorem removed_moved (hi : Kept settings s) (h : Owns settings s k .removed c) :
    Moved settings k s { s with sockets := s.sockets.filter (· ≠ c.display) } c c .unlinked := by
  refine ⟨hi.unlink _, { Frame.refl with sockets := fun m hm => mem_unlink hm }, rfl, rfl, ?_⟩
  exact h.leave (by decide) (by decide) rfl rfl rfl rfl (fun _ => h.swept (by decide))
    (fun _ => by simp) h.answered

/-! ## Taking a display and giving it back -/

theorem Opened.conversation (h : Opened c) (hn : c.display ∈ settings.displays) :
    Conversation settings c.sent :=
  .inr ⟨c.display, hn, c.plan.password, h⟩

/-- What session `k` leaves behind when its display is free again. -/
def Shared.leave (s : Shared) (k : Nat) (c : Claim) : Shared :=
  { s.close k c.sent with
    used := s.used.filter (· ≠ c.display), holder := s.holder.erase c.display }

@[simp] theorem Shared.leave_holder : (s.leave k c).holder = s.holder.erase c.display := rfl

@[simp] theorem Shared.leave_used : (s.leave k c).used = s.used.filter (· ≠ c.display) := rfl

/-- What another session holds stays its own. -/
theorem Owns.leave_holder (h : Owns settings s k stage c) (hj : j ≠ k)
    (hheld : s.holder.lookup n = some j) : (s.leave k c).holder.lookup n = some j := by
  rw [Shared.leave_holder, AList.lookup_erase_ne]
  · exact hheld
  · rintro rfl
    rw [h.held, Option.some.injEq] at hheld
    exact hj hheld.symm

theorem ne_of_lookup {α : Type} {m : HashMap Nat α} {x : α} (hk : m.lookup k = none)
    (hj : m.lookup j = some x) : j ≠ k := by
  rintro rfl
  rw [hk] at hj
  cases hj

theorem unlinked_kept (hi : Kept settings s) (h : Owns settings s k .unlinked c) :
    Kept settings (s.leave k c) where
  used m := by
    rw [Shared.leave_holder, Shared.leave_used, AList.mem_erase, ← hi.used, List.mem_filter,
      decide_eq_true_iff]
    exact And.comm
  listed m hm := hi.listed m (List.mem_of_mem_filter hm)
  xvncs j x hx := h.leave_holder (ne_of_lookup (h.noXvnc (by decide)) hx) (hi.xvncs j x hx)
  proxies j p hp :=
    (hi.proxies j p hp).imp fun _ hn => h.leave_holder (ne_of_lookup (h.noProxy (by decide)) hp) hn
  chromiums j x hx :=
    (hi.chromiums j x hx).imp_left (h.leave_holder (ne_of_lookup (h.noChromium (by decide)) hx))
  sockets m hm := AList.mem_erase.2 ⟨fun heq => h.unlinked rfl (heq ▸ hm), hi.sockets m hm⟩
  dirs m hm := by
    by_cases hself : m = c.display
    · exact .inr (hself ▸ h.swept (by decide) (hself ▸ hm))
    · exact (hi.dirs m hm).imp_left fun hmem => AList.mem_erase.2 ⟨hself, hmem⟩
  answers replies hreplies := by
    rcases List.mem_cons.1 hreplies with rfl | hreplies
    · rcases h.answered with hopened | hfailed
      · exact hopened.conversation h.listed
      · exact .inl hfailed
    · exact hi.answers replies hreplies

theorem close_kept {replies : List Reply} (hi : Kept settings s) (h : Conversation settings replies) :
    Kept settings (s.close k replies) where
  used := hi.used
  listed := hi.listed
  xvncs := hi.xvncs
  proxies := hi.proxies
  chromiums := hi.chromiums
  sockets := hi.sockets
  dirs := hi.dirs
  answers r hr := (List.mem_cons.1 hr).elim (fun heq => heq ▸ h) (hi.answers r)

/-- Session `k` takes a display. -/
def Shared.take (s : Shared) (k n : Nat) : Shared :=
  { s with used := s.used ++ [n], holder := s.holder.insert n k }

@[simp] theorem Shared.take_holder : (s.take k n).holder = s.holder.insert n k := rfl

theorem take_lookup {m : Nat} (hfree : n ∉ s.holder) (hheld : s.holder.lookup m = some j) :
    (s.take k n).holder.lookup m = some j := by
  rw [Shared.take_holder, AList.lookup_insert_ne]
  · exact hheld
  · rintro rfl
    exact hfree (AList.lookup_isSome.1 (by rw [hheld]; rfl))

/-- A free display is taken. -/
theorem take_kept (hi : Kept settings s) (hfree : n ∉ s.holder) (hn : n ∈ settings.displays) :
    Kept settings (s.take k n) where
  used m := by
    rw [Shared.take_holder, AList.mem_insert, ← hi.used]
    exact List.mem_append.trans (Or.comm.trans (or_congr_left List.mem_singleton))
  listed m hm := by
    rcases List.mem_append.1 hm with hm | hm
    · exact hi.listed m hm
    · exact List.mem_singleton.1 hm ▸ hn
  xvncs j x hx := take_lookup hfree (hi.xvncs j x hx)
  proxies j p hp := (hi.proxies j p hp).imp fun _ hm => take_lookup hfree hm
  chromiums j x hx := (hi.chromiums j x hx).imp_left (take_lookup hfree)
  sockets m hm := (AList.mem_insert _).2 (.inr (hi.sockets m hm))
  dirs m hm := (hi.dirs m hm).imp_left fun hmem => (AList.mem_insert _).2 (.inr hmem)
  answers := hi.answers

/-- A session that has just taken its display. -/
theorem take_owns (hn : n ∈ settings.displays) (hx : s.xvncs.lookup k = none)
    (hp : s.proxies.lookup k = none) (hc : s.chromiums.lookup k = none) (plan : Plan) (request : Open) :
    Owns settings (s.take k n) k .taken { plan, request, display := n } where
  held := AList.lookup_insert _
  listed := hn
  key hrank := absurd hrank (by decide)
  opens x hsome := absurd (hx.symm.trans hsome) (by simp)
  blank _ hrank := absurd hrank (by decide)
  noXvnc _ := hx
  noProxy _ := hp
  noChromium _ := hc
  xvnc x hsome := absurd (hx.symm.trans hsome) (by simp)
  proxy p hsome := absurd (hp.symm.trans hsome) (by simp)
  chromium x hsome := absurd (hc.symm.trans hsome) (by simp)
  swept hrank := absurd hrank (by decide)
  unlinked hrank := absurd hrank (by decide)
  answered := rfl

/-! ## What happens outside -/

/-- What is there afterwards was there before. -/
theorem of_erase {α : Type} {m : HashMap Nat α} {x : α} (h : (m.erase j).lookup k = some x) :
    m.lookup k = some x :=
  (HashMap.of_lookup_erase h).2

theorem erase_none {α : Type} {m : HashMap Nat α} (j : Nat) (h : m.lookup k = none) :
    (m.erase j).lookup k = none := by
  cases hx : (m.erase j).lookup k with
  | none => rfl
  | some x => exact absurd (h.symm.trans (of_erase hx)) (by simp)

theorem Kept.xvncEnds (hi : Kept settings s) : Kept settings { s with xvncs := s.xvncs.erase j } :=
  { hi with xvncs := fun k x hx => hi.xvncs k x (of_erase hx) }

theorem Owns.xvncEnds (h : Owns settings s k stage c) :
    Owns settings { s with xvncs := s.xvncs.erase j } k stage c :=
  { h with
    noXvnc := fun hrank => erase_none j (h.noXvnc hrank)
    opens := fun x hx => h.opens x (of_erase hx)
    xvnc := fun x hx => h.xvnc x (of_erase hx) }

theorem Kept.chromiumEnds (hi : Kept settings s) :
    Kept settings { s with chromiums := s.chromiums.erase j } :=
  { hi with chromiums := fun k x hx => hi.chromiums k x (of_erase hx) }

theorem Owns.chromiumEnds (h : Owns settings s k stage c) :
    Owns settings { s with chromiums := s.chromiums.erase j } k stage c :=
  { h with
    noChromium := fun hrank => erase_none j (h.noChromium hrank)
    chromium := fun x hx => h.chromium x (of_erase hx) }

theorem Kept.xvncListens {x : Xvnc} (hi : Kept settings s) (hx : s.xvncs.lookup j = some x) :
    Kept settings { s with sockets := x.display :: s.sockets } :=
  { hi with
    sockets := fun n hn => by
      rcases List.mem_cons.1 hn with rfl | hn
      · exact AList.lookup_isSome.1 (by rw [hi.xvncs j x hx]; rfl)
      · exact hi.sockets n hn }

/-- Who listens on the session's display is its own Xvnc, which is gone when it removes the files. -/
theorem Owns.xvncListens {x : Xvnc} (hi : Kept settings s) (hx : s.xvncs.lookup j = some x)
    (h : Owns settings s k stage c) : Owns settings { s with sockets := x.display :: s.sockets } k stage c :=
  { h with
    unlinked := fun hrank hmem => by
      rcases List.mem_cons.1 hmem with heq | hmem
      · have hheld := hi.xvncs j x hx
        rw [← heq, h.held, Option.some.injEq] at hheld
        subst hheld
        exact absurd ((h.noXvnc (by omega)).symm.trans hx) (by simp)
      · exact h.unlinked hrank hmem }

theorem Kept.chromiumWrites {x : Chromium} (hi : Kept settings s) :
    Kept settings { s with dirs := s.dirs.modify x.dir ({ · with profile := true }) } :=
  { hi with dirs := fun n hn => hi.dirs n ((HashMap.mem_modify _ _ _ _).1 hn) }

theorem Owns.chromiumWrites {x : Chromium} (hi : Kept settings s) (hx : s.chromiums.lookup j = some x)
    (h : Owns settings s k stage c) :
    Owns settings { s with dirs := s.dirs.modify x.dir ({ · with profile := true }) } k stage c := by
  obtain ⟨hheld, hdir⟩ := hi.chromiums j x hx
  refine { h with
    key := fun hrank hrank' => ?_, opens := fun y hy => ?_,
    blank := fun hclears hrank hrank' d hd => ?_, swept := ?_ }
  · obtain ⟨d, hd, hpasswd⟩ := h.key hrank hrank'
    rw [HashMap.lookup_modify, hd]
    split
    · exact ⟨_, rfl, hpasswd⟩
    · exact ⟨d, rfl, hpasswd⟩
  · obtain ⟨d, hd, hpasswd⟩ := h.opens y hy
    rw [HashMap.lookup_modify, hd]
    split
    · exact ⟨_, rfl, hpasswd⟩
    · exact ⟨d, rfl, hpasswd⟩
  · have hother : c.display ≠ x.dir := by
      intro heq
      rw [← hdir, ← heq, h.held, Option.some.injEq] at hheld
      subst hheld
      exact absurd ((h.noChromium (by omega)).symm.trans hx) (by simp)
    rw [HashMap.lookup_modify, if_neg hother] at hd
    exact h.blank hclears hrank hrank' d hd
  · exact fun hrank hmem => h.swept hrank ((HashMap.mem_modify _ _ _ _).1 hmem)

/-- What happens outside takes nothing from a session. -/
theorem outside_keeps {e : Outside} (hi : Kept settings s) (hs : s.outside e = some s') :
    Kept settings s' ∧ s'.holder = s.holder ∧
      ∀ k stage c, Owns settings s k stage c → Owns settings s' k stage c := by
  cases e with
  | hangUp j =>
    cases hs
    exact ⟨{ hi with }, rfl, fun _ _ _ h => { h with }⟩
  | xvncListens j =>
    obtain ⟨x, hx, rfl⟩ := Option.map_eq_some_iff.1 hs
    exact ⟨hi.xvncListens hx, rfl, fun _ _ _ h => h.xvncListens hi hx⟩
  | xvncEnds j =>
    cases hs
    exact ⟨hi.xvncEnds, rfl, fun _ _ _ h => h.xvncEnds⟩
  | chromiumWrites j =>
    obtain ⟨x, hx, rfl⟩ := Option.map_eq_some_iff.1 hs
    exact ⟨hi.chromiumWrites, rfl, fun _ _ _ h => h.chromiumWrites hi hx⟩
  | chromiumEnds j =>
    cases hs
    exact ⟨hi.chromiumEnds, rfl, fun _ _ _ h => h.chromiumEnds⟩

/-! ## Every step -/

/-- A stage with a display moves on, and only the last one lets go of it. -/
theorem next_moved {o : Option Flight} (hi : Kept settings s) (h : Owns settings s k stage c)
    (hs : c.next k s stage = some (s', o)) :
    (∃ stage' c', o = some (.holding stage' c') ∧ Moved settings k s s' c c' stage') ∨
      (stage = .unlinked ∧ o = none ∧ s' = s.leave k c) := by
  cases stage with
  | taken =>
    cases hs
    exact .inl ⟨_, _, rfl, taken_moved hi h⟩
  | cleared => exact .inl (orFail_moved hi h h.answered (cleared_moved hi h) (Option.some.inj hs))
  | made => exact .inl (orFail_moved hi h h.answered (made_moved hi h) (Option.some.inj hs))
  | keyed =>
    cases hs
    exact .inl ⟨_, _, rfl, keyed_moved hi h⟩
  | unlocked => exact .inl (orFail_moved hi h h.answered (unlocked_moved hi h) (Option.some.inj hs))
  | waiting =>
    simp only [Claim.next] at hs
    split at hs
    · cases hs
      exact .inl ⟨_, _, rfl, hi, .refl, rfl, rfl, waiting_owns h⟩
    split at hs
    · cases hs
      exact .inl ⟨_, _, rfl, hi, .refl, rfl, rfl, h.fail h.answered⟩
    · cases hs
  | shown =>
    simp only [Claim.next] at hs
    split at hs
    · exact .inl (orFail_moved hi h h.answered (shown_moved hi h) (Option.some.inj hs))
    · cases hs
  | proxied =>
    exact .inl (orFail_moved hi h h.answered (proxied_moved hi h h.fresh) (Option.some.inj hs))
  | started =>
    cases hs
    have hsent : c.sent ++ [.ready c.vncPort c.plan.password] = [.ready c.vncPort c.plan.password] := by
      rw [show c.sent = [] from h.answered]
      rfl
    refine .inl ⟨_, _, rfl, hi, .refl, rfl, rfl, ?_⟩
    split
    · exact h.answer (by decide) (by decide) hsent
    · exact h.answer (by decide) (by decide) (.inl hsent)
  | ready =>
    have hready : c.sent = [.ready c.vncPort c.plan.password] := h.answered
    simp only [Claim.next] at hs
    split at hs
    · rename_i outcome _
      cases hs
      refine .inl ⟨_, _, rfl, hi, .refl, rfl, rfl, h.answer (by decide) (by decide) (.inr ⟨outcome, ?_⟩)⟩
      rw [hready]
      rfl
    split at hs
    · cases hs
      refine .inl ⟨_, _, rfl, hi, .refl, rfl, rfl, ?_⟩
      exact h.answer (by decide) (by decide) (.inl ⟨rfl, .inl hready⟩)
    · cases hs
  | idle =>
    simp only [Claim.next] at hs
    split at hs
    · cases hs
      refine .inl ⟨_, _, rfl, hi, .refl, rfl, rfl, ?_⟩
      exact h.answer (by decide) (by decide) (.inl ⟨rfl, h.answered⟩)
    · cases hs
  | ended reason =>
    cases hs
    exact .inl ⟨_, _, rfl, ended_moved hi h⟩
  | dropped reason =>
    cases hs
    exact .inl ⟨_, _, rfl, dropped_moved hi h⟩
  | replied =>
    have hmoved := replied_moved hi h
    simp only [Claim.next] at hs
    split at hs
    · rename_i hcleans
      cases hs
      rw [if_pos hcleans] at hmoved
      exact .inl ⟨_, _, rfl, hmoved⟩
    · rename_i hcleans
      cases hs
      rw [if_neg hcleans] at hmoved
      exact .inl ⟨_, _, rfl, hmoved⟩
  | removed =>
    cases hs
    exact .inl ⟨_, _, rfl, removed_moved hi h⟩
  | unlinked =>
    cases hs
    exact .inr ⟨rfl, rfl, rfl⟩

variable {w w' : World Shared Flight}

/-- Everything a world of sessions keeps. -/
structure Sound (settings : Settings) (w : World Shared Flight) : Prop where
  holds : Holds (Kept settings) (Relies settings) w
  owned : Owned w

/-- What one session's step must keep. -/
structure Keeps (settings : Settings) (w : World Shared Flight) (k : Nat) (s' : Shared)
    (o : Option Flight) : Prop where
  kept : Kept settings s'
  own : ∀ g, o = some g → Relies settings k s' g
  others : ∀ j g, j ≠ k → w.flights.lookup j = some g → Relies settings j s' g
  owned : Owned ⟨s', put w.flights k o⟩

theorem Sound.owns (h : Sound settings w) (hk : w.flights.lookup k = some (.holding stage c)) :
    Owns settings w.shared k stage c :=
  h.holds.flights k _ hk

/-- Another session has another display. -/
theorem Owns.display_ne {stage' : Stage} {c' : Claim} (h : Owns settings s k stage c)
    (h' : Owns settings s j stage' c') (hj : j ≠ k) : c'.display ≠ c.display := by
  intro heq
  have hheld := h'.held
  rw [heq, h.held, Option.some.injEq] at hheld
  exact hj hheld.symm

/-- Who frames, keeps what the others rely on. -/
theorem Sound.others (h : Sound settings w) (hf : Frame k n w.shared s')
    (hn : ∀ j stage c, j ≠ k → w.flights.lookup j = some (.holding stage c) → c.display ≠ n) :
    ∀ j g, j ≠ k → w.flights.lookup j = some g → Relies settings j s' g := by
  intro j g hj hg
  cases g with
  | reading plan => trivial
  | holding stage c => exact (h.owns hg).frame hf hj (hn j stage c hj hg)

/-- Nobody who has not taken a display has started anything. -/
theorem Sound.nothing (h : Sound settings w) {plan : Plan} (hk : w.flights.lookup k = some (.reading plan))
    (n : Nat) : w.shared.holder.lookup n ≠ some k := by
  intro hheld
  obtain ⟨stage, c, hc, -⟩ := h.owned n k hheld
  rw [hk] at hc
  cases hc

theorem moved_keeps {stage' : Stage} {c' : Claim} (h : Sound settings w)
    (hk : w.flights.lookup k = some (.holding stage c)) (hm : Moved settings k w.shared s' c c' stage') :
    Keeps settings w k s' (some (.holding stage' c')) where
  kept := hm.kept
  own g hg := by
    cases hg
    exact hm.owns
  others := h.others hm.frame fun j _ _ hj hg => (h.owns hk).display_ne (h.owns hg) hj
  owned n j hheld := by
    have hold : w.shared.holder.lookup n = some j := hm.holder ▸ hheld
    obtain ⟨stage₀, c₀, hc₀, hn⟩ := h.owned n j hold
    by_cases hj : j = k
    · subst hj
      rw [hk] at hc₀
      cases hc₀
      exact ⟨stage', c', AList.lookup_insert _, hm.display.trans hn⟩
    · exact ⟨stage₀, c₀, (AList.lookup_insert_ne hj).trans hc₀, hn⟩

theorem leave_keeps (h : Sound settings w) (hk : w.flights.lookup k = some (.holding .unlinked c)) :
    Keeps settings w k (w.shared.leave k c) none where
  kept := unlinked_kept h.holds.shared (h.owns hk)
  own := ready_of_none
  others := by
    refine h.others (n := c.display) ⟨fun m hm => AList.lookup_erase_ne hm, fun _ _ => rfl, fun _ _ => .rfl,
      fun _ _ => rfl, fun _ _ => rfl, fun _ _ => rfl, List.Subset.refl _⟩ ?_
    exact fun j _ _ hj hg => (h.owns hk).display_ne (h.owns hg) hj
  owned n j hheld := by
    rw [Shared.leave_holder] at hheld
    obtain ⟨hn, hheld⟩ := HashMap.of_lookup_erase hheld
    obtain ⟨stage₀, c₀, hc₀, hdisplay⟩ := h.owned n j hheld
    have hj : j ≠ k := by
      rintro rfl
      rw [hk] at hc₀
      cases hc₀
      exact hn hdisplay.symm
    exact ⟨stage₀, c₀, (AList.lookup_erase_ne hj).trans hc₀, hdisplay⟩

theorem close_keeps {plan : Plan} {reason : String} (h : Sound settings w)
    (hk : w.flights.lookup k = some (.reading plan)) :
    Keeps settings w k (w.shared.close k [.failed reason]) none where
  kept := close_kept h.holds.shared (.inl ⟨reason, rfl⟩)
  own := ready_of_none
  others j g _ hg := by
    have hrelies := h.holds.flights j g hg
    cases g with
    | reading plan => trivial
    | holding stage c => exact { (show Owns settings w.shared j stage c from hrelies) with }
  owned n j hheld := by
    obtain ⟨stage₀, c₀, hc₀, hdisplay⟩ := h.owned n j hheld
    have hj : j ≠ k := by
      rintro rfl
      exact h.nothing hk n hheld
    exact ⟨stage₀, c₀, (AList.lookup_erase_ne hj).trans hc₀, hdisplay⟩

theorem take_keeps {plan : Plan} (h : Sound settings w) (hk : w.flights.lookup k = some (.reading plan))
    (hfree : n ∉ w.shared.used) (hn : n ∈ settings.displays) (request : Open) :
    Keeps settings w k (w.shared.take k n)
      (some (.holding .taken { plan, request, display := n })) := by
  have hi := h.holds.shared
  have hfree' : n ∉ w.shared.holder := fun hmem => hfree ((hi.used n).2 hmem)
  have hx : w.shared.xvncs.lookup k = none := Option.eq_none_iff_forall_ne_some.2 fun x hx =>
    h.nothing hk _ (hi.xvncs k x hx)
  have hp : w.shared.proxies.lookup k = none := Option.eq_none_iff_forall_ne_some.2 fun p hp =>
    (hi.proxies k p hp).elim fun m hm => h.nothing hk m hm
  have hc : w.shared.chromiums.lookup k = none := Option.eq_none_iff_forall_ne_some.2 fun x hx =>
    h.nothing hk _ (hi.chromiums k x hx).1
  refine ⟨take_kept hi hfree' hn, fun g hg => ?_, ?_, fun m j hheld => ?_⟩
  · cases hg
    exact take_owns hn hx hp hc plan request
  · refine h.others (n := n) ⟨fun m hm => AList.lookup_insert_ne hm, fun _ _ => rfl, fun _ _ => .rfl,
      fun _ _ => rfl, fun _ _ => rfl, fun _ _ => rfl, List.Subset.refl _⟩ ?_
    rintro j stage c - hg rfl
    exact hfree' (h.owns hg).mem_holder
  · rw [Shared.take_holder, HashMap.lookup_insert_eq] at hheld
    split at hheld
    · rename_i hm
      cases hheld
      exact ⟨_, _, AList.lookup_insert _, hm.symm⟩
    · obtain ⟨stage₀, c₀, hc₀, hdisplay⟩ := h.owned m j hheld
      have hj : j ≠ k := by
        rintro rfl
        exact h.nothing hk m hheld
      exact ⟨stage₀, c₀, (AList.lookup_insert_ne hj).trans hc₀, hdisplay⟩

/-- A session's step keeps everything. -/
theorem next_keeps {f : Flight} {o : Option Flight} (h : Sound settings w)
    (hk : w.flights.lookup k = some f) (hs : f.next settings k w.shared = some (s', o)) :
    Keeps settings w k s' o := by
  cases f with
  | reading plan =>
    simp only [Flight.next] at hs
    split at hs
    · cases hs
      exact close_keeps h hk
    split at hs
    · cases hs
      exact close_keeps h hk
    · rename_i request _ _ n hfind
      cases hs
      have hfree := List.find?_some hfind
      exact take_keeps h hk (of_decide_eq_true hfree) (List.mem_of_find?_eq_some hfind) request
  | holding stage c =>
    rcases next_moved h.holds.shared (h.owns hk) hs with ⟨stage', c', rfl, hm⟩ | ⟨rfl, rfl, rfl⟩
    · exact moved_keeps h hk hm
    · exact leave_keeps h hk

theorem Sound.step {e : Interleave.Event Flight Outside} (h : Sound settings w)
    (hs : Interleave.step (system settings) w e = some w') : Sound settings w' := by
  refine ⟨h.holds.step hs ?_ ?_ ?_, ?_⟩
  · intro k f hf
    cases f with
    | reading plan => trivial
    | holding stage c => cases hf
  · intro k f s o _ hk hn
    have hkeeps := next_keeps h hk hn
    exact ⟨hkeeps.kept, hkeeps.own, hkeeps.others⟩
  · intro e' s _ ho
    obtain ⟨hkept, -, howns⟩ := outside_keeps h.holds.shared ho
    refine ⟨hkept, fun k g hg => ?_⟩
    cases g with
    | reading plan => trivial
    | holding stage c => exact howns k stage c (h.owns hg)
  · rcases step_cases hs with ⟨k, f, -, hnot, -, rfl⟩ | ⟨k, f, s, o, -, hk, hn, rfl⟩ | ⟨e', s, -, ho, rfl⟩
    · intro n j hheld
      obtain ⟨stage, c, hc, hdisplay⟩ := h.owned n j hheld
      have hj : j ≠ k := by
        rintro rfl
        exact hnot (AList.lookup_isSome.1 (by rw [hc]; rfl))
      exact ⟨stage, c, (AList.lookup_insert_ne hj).trans hc, hdisplay⟩
    · exact (next_keeps h hk hn).owned
    · intro n j hheld
      obtain ⟨-, hholder, -⟩ := outside_keeps h.holds.shared ho
      exact h.owned n j (hholder ▸ hheld)

theorem Sound.quiet : Sound settings (World.quiet {}) where
  holds := Holds.quiet {
    used := fun n => by simp
    listed := fun n hn => absurd hn List.not_mem_nil
    xvncs := fun k x hx => by cases hx
    proxies := fun k p hp => by cases hp
    chromiums := fun k x hx => by cases hx
    sockets := fun n hn => absurd hn List.not_mem_nil
    dirs := fun n hn => absurd hn (AList.notMem_empty n)
    answers := fun replies hr => absurd hr List.not_mem_nil }
  owned n k hheld := by cases hheld

theorem Sound.run {es : List (Interleave.Event Flight Outside)}
    (h : Run.run (Interleave.step (system settings)) (World.quiet {}) es = some w) : Sound settings w :=
  Run.inv_of_run (I := fun _ w => Sound settings w) Sound.quiet (fun _ _ _ _ _ hs h => h.step hs) h

/-! ## What was answered -/

theorem Opened.mem {reply : Reply} (h : Opened c) (hmem : reply ∈ c.sent) :
    reply = .ready c.vncPort c.plan.password ∨ ∃ outcome : Outcome, reply = outcome.reply := by
  rcases h with hsent | ⟨outcome, hsent⟩
  · rw [hsent] at hmem
    exact .inl (List.mem_singleton.1 hmem)
  · rw [hsent, List.mem_cons, List.mem_singleton] at hmem
    exact hmem.imp_right fun heq => ⟨outcome, heq⟩

theorem Answered.of_ready {port : UInt16} {password : String} (h : Answered c stage)
    (hmem : .ready port password ∈ c.sent) : port = c.vncPort ∧ password = c.plan.password := by
  have hopened (ho : Opened c) : port = c.vncPort ∧ password = c.plan.password := by
    rcases ho.mem hmem with heq | ⟨outcome, heq⟩
    · cases heq
      exact ⟨rfl, rfl⟩
    · cases outcome <;> cases heq
  have hnone (he : c.sent = []) : port = c.vncPort ∧ password = c.plan.password := by
    rw [he] at hmem
    cases hmem
  have hended (reason : Option String) (he : (reason = none ∧ Opened c) ∨ (reason ≠ none ∧ c.sent = [])) :
      port = c.vncPort ∧ password = c.plan.password :=
    he.elim (fun ho => hopened ho.2) fun hn => hnone hn.2
  have hreplied (he : Opened c ∨ ∃ reason, c.sent = [.failed reason]) :
      port = c.vncPort ∧ password = c.plan.password := by
    rcases he with ho | ⟨reason, hsent⟩
    · exact hopened ho
    · rw [hsent] at hmem
      cases List.mem_singleton.1 hmem
  cases stage with
  | ready => exact hopened (.inl h)
  | idle => exact hopened h
  | ended reason | dropped reason => exact hended reason h
  | replied | removed | unlinked => exact hreplied h
  | _ => exact hnone h

theorem Answered.of_failed {reason : String} (h : Answered c stage) (hmem : .failed reason ∈ c.sent) :
    12 ≤ stage.rank := by
  have hopened (ho : Opened c) : False := by
    rcases ho.mem hmem with heq | ⟨outcome, heq⟩
    · cases heq
    · cases outcome <;> cases heq
  have hnone (he : c.sent = []) : False := by
    rw [he] at hmem
    cases hmem
  cases stage with
  | ready => exact (hopened (.inl h)).elim
  | idle => exact (hopened h).elim
  | ended reason | dropped reason => exact (h.elim (fun ho => hopened ho.2) fun hn => hnone hn.2).elim
  | replied | removed | unlinked => decide
  | _ => exact (hnone h).elim

/-! ## Sessions are apart -/

theorem Settings.mem_displays : n ∈ settings.displays ↔ 1 ≤ n ∧ n ≤ settings.sessions := by
  rw [Settings.displays, List.mem_map]
  constructor
  · rintro ⟨m, hm, rfl⟩
    rw [List.mem_range] at hm
    omega
  · intro h
    exact ⟨n - 1, List.mem_range.2 (by omega), by omega⟩

/-- A port is that of one display. -/
theorem vncPort_inj {m : Nat} (hn : n ∈ settings.displays) (hm : m ∈ settings.displays)
    (h : UInt16.ofNat (5900 + n) = UInt16.ofNat (5900 + m)) : n = m := by
  have := settings.accepted
  rw [Settings.mem_displays] at hn hm
  have hnat := congrArg UInt16.toNat h
  rw [UInt16.toNat_ofNat', UInt16.toNat_ofNat', Nat.mod_eq_of_lt (by omega), Nat.mod_eq_of_lt (by omega)] at hnat
  omega

theorem Sound.has (h : Sound settings w) : Has w k n ↔ w.shared.holder.lookup n = some k := by
  constructor
  · rintro ⟨stage, c, hc, rfl⟩
    exact (h.owns hc).held
  · exact h.owned n k

theorem Sound.mem_holder (h : Sound settings w) : n ∈ w.shared.holder ↔ ∃ k, Has w k n := by
  rw [← AList.lookup_isSome, Option.isSome_iff_exists]
  exact exists_congr fun _ => h.has.symm

/-- Who has started something has a display. -/
theorem Sound.holding (h : Sound settings w) (hheld : w.shared.holder.lookup n = some k) :
    ∃ stage c, w.flights.lookup k = some (.holding stage c) ∧ Owns settings w.shared k stage c := by
  obtain ⟨stage, c, hc, -⟩ := h.owned n k hheld
  exact ⟨stage, c, hc, h.owns hc⟩

theorem Sound.told {port : UInt16} {password : String} (h : Sound settings w) (hc : Runs w k c)
    (hsent : .ready port password ∈ c.sent) : port = c.vncPort ∧ password = c.plan.password ∧
    ∀ j x, w.shared.xvncs.lookup j = some x → .ofNat (5900 + x.display) = port →
      j = k ∧ ∃ d, w.shared.dirs.lookup x.display = some d ∧ d.passwd = some password := by
  obtain ⟨stage, hc⟩ := hc
  have howns := h.owns hc
  obtain ⟨rfl, rfl⟩ := howns.answered.of_ready hsent
  refine ⟨rfl, rfl, fun j x hx hport => ?_⟩
  have hheld := h.holds.shared.xvncs j x hx
  obtain ⟨stage', c', -, howns'⟩ := h.holding hheld
  have hdisplay : x.display = c'.display := by rw [howns'.xvnc x hx]
  have heq : x.display = c.display := vncPort_inj (hdisplay ▸ howns'.listed) howns.listed hport
  rw [heq, howns.held, Option.some.injEq] at hheld
  subst hheld
  rw [heq]
  exact ⟨rfl, howns.opens x hx⟩

theorem Sound.apart (h : Sound settings w) : Apart settings w where
  one k j n hk hj := by
    rw [h.has] at hk hj
    exact Option.some.inj (hk.symm.trans hj)
  listed k n hk := by
    obtain ⟨stage, c, hc, rfl⟩ := hk
    exact (h.owns hc).listed
  used n := (h.holds.shared.used n).trans h.mem_holder
  xvncs k x hx := by
    obtain ⟨stage, c, hc, howns⟩ := h.holding (h.holds.shared.xvncs k x hx)
    have heq := howns.xvnc x hx
    have hdisplay : x.display = c.display := by rw [heq]
    exact ⟨c, ⟨stage, hc⟩, heq, hdisplay ▸ howns.opens x hx⟩
  proxies k p hp := by
    obtain ⟨n, hn⟩ := h.holds.shared.proxies k p hp
    obtain ⟨stage, c, hc, howns⟩ := h.holding hn
    exact ⟨c, ⟨stage, hc⟩, howns.proxy p hp⟩
  chromiums k x hx := by
    obtain ⟨stage, c, hc, howns⟩ := h.holding (h.holds.shared.chromiums k x hx).1
    obtain ⟨fresh, heq, hfresh⟩ := howns.chromium x hx
    exact ⟨c, fresh, ⟨stage, hc⟩, heq, hfresh⟩
  sockets n hn := h.mem_holder.1 (h.holds.shared.sockets n hn)
  dirs n hn := (h.holds.shared.dirs n hn).imp_left h.mem_holder.1
  told k c port password hc hsent := h.told hc hsent
  failed k c reason hc hsent := by
    obtain ⟨stage, hc⟩ := hc
    have howns := h.owns hc
    have hrank := howns.answered.of_failed hsent
    exact ⟨howns.noXvnc (.inr hrank), howns.noProxy (.inr hrank), howns.noChromium (.inr hrank)⟩
  answers := h.holds.shared.answers

/-- **Browser sessions are apart**: however the steps of any number of sessions and what happens outside
interleave, and whichever operations fail. -/
theorem sessions_apart (settings : Settings) (es : List (Interleave.Event Flight Outside))
    (w : World Shared Flight)
    (h : Run.run (Interleave.step (system settings)) (World.quiet {}) es = some w) : Apart settings w :=
  (Sound.run h).apart

/-- A printer's web interface. -/
def printer : Plan where
  line := some { host := "p", port := 443, spki := "k", width := 1, height := 1 }
  password := "secret"
  port := 40000

/-- Session `k` makes `n` steps. -/
def turns (k n : Nat) : List (Interleave.Event Flight Outside) := List.replicate n (.next k)

/-- Two sessions start in each other's way, and one ends. -/
def twoSessions : List (Interleave.Event Flight Outside) :=
  [.start 0 (.reading printer),
    .start 1 (.reading { printer with port := 40001, password := "other" }), .next 1, .next 0] ++
    turns 0 5 ++ turns 1 5 ++ [.outside (.xvncListens 0), .outside (.xvncListens 1)] ++ turns 1 4 ++
    turns 0 4 ++ [.outside (.hangUp 1)] ++ turns 1 6

theorem sessions_apart_two : ∃ w, Run.run (Interleave.step (system ⟨2, by decide⟩)) (World.quiet {})
    twoSessions = some w ∧ Apart ⟨2, by decide⟩ w := by
  have hrun : (Run.run (Interleave.step (system ⟨2, by decide⟩)) (World.quiet {})
      twoSessions).isSome = true := by decide
  obtain ⟨w, hw⟩ := Option.isSome_iff_exists.1 hrun
  exact ⟨w, hw, sessions_apart ⟨2, by decide⟩ _ w hw⟩

end Browser.Session

import RemoteHub.Server.Proxy
import RemoteHub.Lib.Split

/-!
# Which entry names the client

`joined` are the entries of all headers from left to right, and `Names` says which address they name: the
right-most one that is no trusted proxy's, if trusted proxies alone are right of it, and else the
furthest of the proxies. `clientAddress` gives that address (`follow_iff`), and what stands left of an
entry that is no trusted proxy's does not count (`follow_left`).
-/

namespace Server.Proxy

open Net Connector

/-- The address that an entry is. -/
def address (entry : String) : Option IpAddr := parse (Text.trim entry)

/-- The entry is the address of a trusted proxy. -/
def Relays (trusted : List Network) (entry : String) : Prop :=
  ∃ ip, address entry = some ip ∧ isTrusted trusted ip = true

/-- The entries of the header values, joined in order. -/
def joined (forwarded : List String) : List String := forwarded.flatMap (Text.split ',')

/-- The address that entries name, on a connection from the trusted proxy `client`. -/
inductive Names (trusted : List Network) (client : IpAddr) (es : List String) : IpAddr → Prop
  /-- The right-most untrusted address, and every entry right of it is a trusted proxy's. -/
  | untrusted {before after : List String} {entry : String} {ip : IpAddr} (hes : es = before ++ entry :: after)
      (hafter : ∀ e ∈ after, Relays trusted e) (hentry : address entry = some ip)
      (hip : isTrusted trusted ip = false) : Names trusted client es ip
  /-- The left-most of the trusted proxies at the right end, and what is left of it is no address. -/
  | furthest {before run : List String} {entry : String} {ip : IpAddr} (hes : es = before ++ entry :: run)
      (hrun : ∀ e ∈ entry :: run, Relays trusted e) (hentry : address entry = some ip)
      (hbefore : ∀ e ∈ before.getLast?, address e = none) : Names trusted client es ip
  /-- No trusted proxy is at the right end, and no address. -/
  | nobody (hlast : ∀ e ∈ es.getLast?, address e = none) : Names trusted client es client

/-! ## The loop -/

variable {trusted : List Network} {client ip : IpAddr} {forwarded forwarded' : List String}
  {es before before' after run rest rest' : List String} {entry : String}

theorem entries_eq (forwarded : List String) : entries forwarded = (joined forwarded).reverse := by
  rw [entries, joined, List.reverse_flatMap]
  rfl

theorem follow_none (h : address entry = none) : follow trusted client (entry :: rest) = client := by
  unfold address at h
  unfold follow
  rw [h]

theorem follow_some (h : address entry = some ip) : follow trusted client (entry :: rest) =
    if isTrusted trusted ip then follow trusted ip rest else ip := by
  unfold address at h
  conv_lhs => unfold follow
  rw [h]

theorem follow_last (h : ∀ e ∈ es.getLast?, address e = none) :
    follow trusted client es.reverse = client := by
  cases es using List.reverseRecOn with
  | nil => rfl
  | append_singleton es e =>
    rw [List.reverse_concat]
    exact follow_none (h e List.getLast?_concat)

/-- Trusted proxies pass the question on. -/
theorem follow_relays (h : ∀ e ∈ run, Relays trusted e) (client : IpAddr) (rest : List String) :
    follow trusted client (run.reverse ++ rest) =
      follow trusted ((run.head?.bind address).getD client) rest := by
  induction run generalizing rest with
  | nil => rfl
  | cons e run ih =>
    obtain ⟨ip, hip, htrusted⟩ := h e List.mem_cons_self
    have hrest := ih (fun e he => h e (List.mem_cons_of_mem _ he)) (e :: rest)
    rw [List.reverse_cons, List.append_assoc, List.singleton_append, hrest, follow_some hip,
      if_pos htrusted, List.head?_cons, Option.bind_some, hip, Option.getD_some]

theorem names_follow (trusted : List Network) (client : IpAddr) (es : List String) :
    Names trusted client es (follow trusted client es.reverse) := by
  induction es using List.reverseRecOn generalizing client with
  | nil => exact .nobody (by simp)
  | append_singleton es e ih =>
    rw [List.reverse_concat]
    cases he : address e with
    | none =>
      rw [follow_none he]
      refine .nobody fun e' he' => ?_
      rw [List.getLast?_concat, Option.mem_some_iff] at he'
      rw [← he', he]
    | some ip =>
      rw [follow_some he]
      have hlast : isTrusted trusted ip = true → ∀ run, (∀ e ∈ run, Relays trusted e) →
          ∀ e' ∈ run ++ [e], Relays trusted e' := by
        intro htrusted run hrun e' he'
        rcases List.mem_append.1 he' with he' | he'
        · exact hrun e' he'
        · rw [List.mem_singleton.1 he']
          exact ⟨ip, he, htrusted⟩
      split
      · rename_i htrusted
        generalize hnamed : follow trusted ip es.reverse = named
        have hnames := ih ip
        rw [hnamed] at hnames
        cases hnames with
        | @untrusted before after entry ip' hes hafter hentry hip =>
          have hes' : es ++ [e] = before ++ entry :: (after ++ [e]) := by
            rw [hes, List.append_assoc, List.cons_append]
          exact .untrusted hes' (hlast htrusted _ hafter) hentry hip
        | @furthest before run entry ip' hes hrun hentry hbefore =>
          have hes' : es ++ [e] = before ++ entry :: (run ++ [e]) := by
            rw [hes, List.append_assoc, List.cons_append]
          exact .furthest hes' (hlast htrusted _ hrun) hentry hbefore
        | nobody hlast' => exact .furthest rfl (hlast htrusted [] (by simp)) he hlast'
      · rename_i hip
        exact .untrusted rfl (by simp) he (Bool.eq_false_of_not_eq_true hip)

/-- **The loop finds the address that the entries name.** -/
theorem follow_iff : follow trusted client es.reverse = ip ↔ Names trusted client es ip := by
  refine ⟨fun h => h ▸ names_follow trusted client es, fun h => ?_⟩
  cases h with
  | untrusted hes hafter hentry hip =>
    rw [hes, List.reverse_append, List.reverse_cons, List.append_assoc, follow_relays hafter,
      List.singleton_append, follow_some hentry, hip]
    rfl
  | furthest hes hrun hentry hbefore =>
    rw [hes, List.reverse_append, follow_relays hrun, List.head?_cons, Option.bind_some, hentry]
    exact follow_last hbefore
  | nobody hlast => exact follow_last hlast

/-- What stands left of an entry that is no trusted proxy's does not count. -/
theorem follow_left (h : ¬Relays trusted entry) (client : IpAddr) (run rest rest' : List String) :
    follow trusted client (run ++ entry :: rest) = follow trusted client (run ++ entry :: rest') := by
  induction run generalizing client with
  | nil =>
    cases hentry : address entry with
    | none => rw [List.nil_append, List.nil_append, follow_none hentry, follow_none hentry]
    | some ip =>
      have hip : ¬isTrusted trusted ip = true := fun htrusted => h ⟨ip, hentry, htrusted⟩
      rw [List.nil_append, List.nil_append, follow_some hentry, follow_some hentry, if_neg hip, if_neg hip]
  | cons e run ih =>
    cases he : address e with
    | none => rw [List.cons_append, List.cons_append, follow_none he, follow_none he]
    | some ip => rw [List.cons_append, List.cons_append, follow_some he, follow_some he, ih]

theorem clientAddress_eq (peer : IpAddr) (forwarded : List String) (trusted : List Network) :
    clientAddress peer forwarded trusted =
      if isTrusted trusted peer.toCanonical then
        follow trusted peer.toCanonical (joined forwarded).reverse
      else peer.toCanonical := by
  rw [clientAddress, entries_eq]

theorem clientAddress_left {peer : IpAddr} (h : ¬Relays trusted entry)
    (hes : joined forwarded = before ++ entry :: after)
    (hes' : joined forwarded' = before' ++ entry :: after) :
    clientAddress peer forwarded trusted = clientAddress peer forwarded' trusted := by
  have hleft := follow_left h peer.toCanonical after.reverse before.reverse before'.reverse
  rw [clientAddress_eq, clientAddress_eq, hes, hes', List.reverse_append, List.reverse_append,
    List.reverse_cons, List.append_assoc, List.append_assoc, List.singleton_append,
    List.singleton_append, hleft]

/-! ## The headers -/

theorem joined_append (forwarded forwarded' : List String) :
    joined (forwarded ++ forwarded') = joined forwarded ++ joined forwarded' :=
  List.flatMap_append

theorem joined_comma (text line : String) (forwarded : List String) :
    joined ((text ++ "," ++ line) :: forwarded) = Text.split ',' text ++ joined (line :: forwarded) := by
  rw [joined, joined, List.flatMap_cons, List.flatMap_cons, ← List.append_assoc]
  exact congrArg (· ++ _) (Text.split_append ',' text line)

/-- Proxies write addresses as `to_string` does. -/
theorem parse_toText (ip : IpAddr) : parse ip.toText = some ip.toCanonical := by
  rw [parse, IpAddr.parse_toText]
  rfl

/-- **The client is the right-most untrusted address** that trusted proxies alone have passed on, and
nothing that a client sends can change it. -/
theorem client_address_named (trusted : List Network) (peer : IpAddr) (forwarded : List String) :
    (isTrusted trusted peer.toCanonical = false →
      clientAddress peer forwarded trusted = peer.toCanonical) ∧
    (isTrusted trusted peer.toCanonical = true → ∀ ip,
      clientAddress peer forwarded trusted = ip ↔
        Names trusted peer.toCanonical (joined forwarded) ip) ∧
    (∀ forwarded' before before' entry after, ¬Relays trusted entry →
      joined forwarded = before ++ entry :: after → joined forwarded' = before' ++ entry :: after →
      clientAddress peer forwarded trusted = clientAddress peer forwarded' trusted) ∧
    (∀ forwarded', joined forwarded = joined forwarded' →
      clientAddress peer forwarded trusted = clientAddress peer forwarded' trusted) ∧
    ∀ sent text line appended entry ip, forwarded = line :: appended → entry ∈ joined forwarded →
      address entry = some ip → isTrusted trusted ip = false →
      clientAddress peer (sent ++ forwarded) trusted = clientAddress peer forwarded trusted ∧
      clientAddress peer (sent ++ (text ++ "," ++ line) :: appended) trusted =
        clientAddress peer forwarded trusted := by
  refine ⟨fun hpeer => ?_, fun hpeer ip => ?_, ?_, fun forwarded' hes => ?_, ?_⟩
  · rw [clientAddress_eq, hpeer]
    rfl
  · rw [clientAddress_eq, if_pos hpeer]
    exact follow_iff
  · intro forwarded' before before' entry after h hes hes'
    exact clientAddress_left h hes hes'
  · rw [clientAddress_eq, clientAddress_eq, hes]
  · rintro sent text line appended entry ip rfl hmem hentry hip
    have hrelays : ¬Relays trusted entry := by
      rintro ⟨ip', hentry', htrusted⟩
      rw [hentry] at hentry'
      cases hentry'
      rw [hip] at htrusted
      cases htrusted
    obtain ⟨before, after, hes⟩ := List.append_of_mem hmem
    have hsent : joined (sent ++ line :: appended) = (joined sent ++ before) ++ entry :: after := by
      rw [joined_append, hes, List.append_assoc]
    have htext : joined (sent ++ (text ++ "," ++ line) :: appended) =
        (joined sent ++ (Text.split ',' text ++ before)) ++ entry :: after := by
      rw [joined_append, joined_comma, hes, List.append_assoc, List.append_assoc]
    exact ⟨clientAddress_left hrelays hsent hes, clientAddress_left hrelays htext hes⟩

/-- A client behind two proxies, which sends a header of its own before theirs. -/
theorem client_address_named_spoofed :
    Names [⟨.v4 0x0a000000, 8, by decide⟩] (.v4 0x0a000001) (joined ["203.0.113.9, 10.0.0.2"]) (.v4 0xcb007109) ∧
    clientAddress (.v4 0x0a000001) ["6.6.6.6", "203.0.113.9, 10.0.0.2"] [⟨.v4 0x0a000000, 8, by decide⟩] =
      .v4 0xcb007109 := by
  obtain ⟨-, hnames, -, -, hsent⟩ := client_address_named [⟨.v4 0x0a000000, 8, by decide⟩] (.v4 0x0a000001)
    ["203.0.113.9, 10.0.0.2"]
  have hclient : clientAddress (.v4 0x0a000001) ["203.0.113.9, 10.0.0.2"] [⟨.v4 0x0a000000, 8, by decide⟩] =
      .v4 0xcb007109 := by decide
  refine ⟨(hnames (by decide) _).1 hclient, ?_⟩
  exact (hsent ["6.6.6.6"] "" "203.0.113.9, 10.0.0.2" [] "203.0.113.9" (.v4 0xcb007109) rfl (by decide) (by decide)
    (by decide)).1.trans hclient

end Server.Proxy

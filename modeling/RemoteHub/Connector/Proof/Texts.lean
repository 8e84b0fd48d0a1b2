import RemoteHub.Connector.Proof.Access
import RemoteHub.Lib.IpText

/-!
# Saved lists are read again

A network is read from its text (`Network.parse_toText`), the ports are (`Ports.parseList_portsText`),
and a host name is unless it is an IPv4 address: then the text that `save` writes is read as that
address (`Address.parse_toText_host`). `from_str` takes such a name with dots at its end (`Dotted`), as
it looks for an address before it takes them off.
-/

namespace Net

variable {ip : IpAddr} {c : Char}

theorem isAddress_bounds (h : isAddress c = true) : 46 ≤ c.toNat ∧ c.toNat ≤ 102 ∧ c.toNat ≠ 47 := by
  rw [isAddress, Bool.or_eq_true, Bool.or_eq_true, decide_eq_true_eq, decide_eq_true_eq] at h
  rcases h with (h | rfl) | rfl
  · unfold isDigit digitValue at h
    obtain ⟨v, hv⟩ := Option.isSome_iff_exists.1 h
    obtain ⟨hv, -⟩ := Option.filter_eq_some_iff.1 hv
    have h0 : '0'.toNat = 48 := rfl
    have h9 : '9'.toNat = 57 := rfl
    have ha : 'a'.toNat = 97 := rfl
    have hf : 'f'.toNat = 102 := rfl
    have hA : 'A'.toNat = 65 := rfl
    have hF : 'F'.toNat = 70 := rfl
    split at hv
    · omega
    · split at hv
      · omega
      · split at hv
        · omega
        · cases hv
  · decide
  · decide

theorem isIpv4_le (h : isIpv4 c = true) : c.toNat ≤ 57 := by
  rw [isIpv4, Bool.or_eq_true, decide_eq_true_eq] at h
  rcases h with h | rfl
  · unfold isDigit digitValue at h
    obtain ⟨v, hv⟩ := Option.isSome_iff_exists.1 h
    obtain ⟨hv, hlt⟩ := Option.filter_eq_some_iff.1 hv
    have hlt := of_decide_eq_true hlt
    have h9 : '9'.toNat = 57 := rfl
    split at hv
    · omega
    · split at hv
      · cases hv
        omega
      · split at hv
        · cases hv
          omega
        · cases hv
  · decide

theorem isWhitespace_of_isAddress (h : isAddress c = true) : Text.isWhitespace c = false := by
  obtain ⟨hlow, hhigh, -⟩ := isAddress_bounds h
  simp only [Text.isWhitespace, Bool.or_eq_false_iff, Bool.and_eq_false_iff, decide_eq_false_iff_not]
  omega

theorem IpAddr.toText_isAddress (ip : IpAddr) : ∀ c ∈ ip.toText.toList, isAddress c = true :=
  (IpAddr.of_parse ip.parse_toText).2

theorem slash_notMem (ip : IpAddr) : '/' ∉ ip.toText.toList := fun h =>
  (isAddress_bounds (ip.toText_isAddress _ h)).2.2 rfl

@[simp] theorem IpAddr.toCanonical_toCanonical (ip : IpAddr) : ip.toCanonical.toCanonical = ip.toCanonical := by
  cases ip with
  | v4 value => rfl
  | v6 value =>
    cases h : IpAddr.toIpv4Mapped value with
    | none => simp [IpAddr.toCanonical, h]
    | some ipv4 => simp [IpAddr.toCanonical, h]

end Net

namespace Connector

open Net Except

/-! ## Networks -/

theorem toList_repr_eq_iff {m n : Nat} : m.repr.toList = n.repr.toList ↔ m = n := by
  rw [String.toList_inj]
  refine ⟨fun h => ?_, fun h => by rw [h]⟩
  have hm := Text.parseUnsigned_repr (Nat.le_max_left m n)
  rw [h, Text.parseUnsigned_repr (Nat.le_max_right m n)] at hm
  exact (Option.some.inj hm).symm

theorem isDigit_of_mem_repr {n : Nat} {c : Char} (h : c ∈ n.repr.toList) : c.isDigit = true := by
  rw [Nat.toList_repr] at h
  exact Nat.isDigit_of_mem_toDigits (by decide) (by decide) h

theorem isWhitespace_of_isDigit {c : Char} (h : c.isDigit = true) : Text.isWhitespace c = false := by
  simp only [Char.isDigit, Bool.and_eq_true, decide_eq_true_eq, ge_iff_le, UInt32.le_iff_toNat_le] at h
  have hlow : 48 ≤ c.toNat := h.1
  have hhigh : c.toNat ≤ 57 := h.2
  simp only [Text.isWhitespace, Bool.or_eq_false_iff, Bool.and_eq_false_iff, decide_eq_false_iff_not]
  omega

theorem notMem_repr {n : Nat} {c : Char} (hc : c.isDigit = false) : c ∉ n.repr.toList := fun h => by
  rw [isDigit_of_mem_repr h] at hc
  cases hc

namespace Network

variable {network : Network} {text : String}

theorem toList_toText (network : Network) :
    network.toText.toList = network.address.toText.toList ++ '/' :: network.length.repr.toList := by
  simp [toText]

theorem splitOnce_toText (network : Network) :
    Text.splitOnce '/' network.toText = some (network.address.toText, network.length.repr) := by
  rw [Text.splitOnce_of_append (slash_notMem network.address) network.toList_toText, String.ofList_toList,
    String.ofList_toList]

theorem bits_le (ip : IpAddr) : bits ip ≤ 255 := by
  cases ip with
  | v4 value => exact show 32 ≤ 255 by decide
  | v6 value => exact show 128 ≤ 255 by decide

theorem canonical_of_parse (h : parse text = some network) :
    network.address.toCanonical = network.address := by
  simp only [parse] at h
  obtain ⟨address, -, h⟩ := Option.bind_eq_some_iff.1 h
  obtain ⟨length, -, h⟩ := Option.bind_eq_some_iff.1 h
  split at h
  · cases h
    exact IpAddr.toCanonical_toCanonical address
  · cases h

/-- A network is read from its text. -/
theorem parse_toText (h : network.address.toCanonical = network.address) :
    parse network.toText = some network := by
  have hlength := Text.parseUnsigned_repr (network.bounded.trans (bits_le _))
  simp only [parse, splitOnce_toText, IpAddr.parse_toText, Option.bind_some, h, hlength,
    dif_pos network.bounded]

/-- A text without `/` is a single address. -/
theorem parse_of_notMem (h : '/' ∉ text.toList) :
    parse text = (IpAddr.parse text).map fun ip => ⟨ip.toCanonical, bits ip.toCanonical, le_rfl⟩ := by
  rw [parse, Text.splitOnce_of_notMem h]
  dsimp only
  cases IpAddr.parse text with
  | none => rfl
  | some ip => simp only [Option.bind_some, Option.map_some, le_refl, dif_pos]

end Network

namespace Address

/-! ## Addresses -/

theorem suffix_toText {network : Network} {n : Nat} :
    ('/' :: n.repr.toList).isSuffixOf network.toText.toList = true ↔ network.length = n := by
  have hdigit : ∀ k : Nat, '/' ∉ k.repr.toList := fun k => notMem_repr (by decide)
  rw [List.isSuffixOf_iff_suffix, network.toList_toText]
  constructor
  · rintro ⟨before, h⟩
    have hparts := (List.append_cons_inj_of_notMem (slash_notMem network.address) (hdigit _)).1 h.symm
    exact toList_repr_eq_iff.1 hparts.2.2
  · rintro rfl
    exact List.suffix_append _ _

/-- A single address is written without its `/32` or `/128`. -/
theorem toText_range (network : Network) : (range network).toText =
    if network.length = bits network.address then network.address.toText else network.toText := by
  have h32 : "/32".toList = '/' :: (32).repr.toList := by decide
  have h128 : "/128".toList = '/' :: (128).repr.toList := by decide
  have htake : network.toText.toList.takeWhile (· ≠ '/') = network.address.toText.toList := by
    rw [network.toList_toText, List.takeWhile_append_of_pos]
    · simp
    · intro c hc
      exact decide_eq_true fun heq => slash_notMem network.address (heq ▸ hc)
  have hsingle : (("/32".toList.isSuffixOf network.toText.toList && ':' ∉ network.toText.toList) ||
      "/128".toList.isSuffixOf network.toText.toList) = true ↔ network.length = bits network.address := by
    rw [Bool.or_eq_true, Bool.and_eq_true, h32, h128, suffix_toText, suffix_toText, decide_eq_true_eq]
    have hbounded := network.bounded
    have hcolon : ':' ∈ network.toText.toList ↔ ':' ∈ network.address.toText.toList := by
      rw [network.toList_toText, List.mem_append, List.mem_cons]
      refine ⟨fun h => ?_, .inl⟩
      rcases h with h | h | h
      · exact h
      · exact absurd h (by decide)
      · exact absurd h (notMem_repr (by decide))
    rw [hcolon]
    cases haddress : network.address with
    | v4 value =>
      rw [haddress] at hbounded
      have hnone : ':' ∉ (IpAddr.v4 value).toText.toList := fun h => by
        have hdigit := IpAddr.of_parse_v4 (IpAddr.v4 value).parse_toText _ h
        exact absurd hdigit (by decide)
      have hbits : bits (.v4 value) = 32 := rfl
      rw [hbits] at hbounded ⊢
      constructor
      · rintro (⟨h, -⟩ | h)
        · exact h
        · omega
      · exact fun h => .inl ⟨h, hnone⟩
    | v6 value =>
      have hsome := IpAddr.of_parse_v6 (IpAddr.v6 value).parse_toText
      have hbits : bits (.v6 value) = 128 := rfl
      rw [hbits]
      constructor
      · rintro (⟨-, h⟩ | h)
        · exact absurd hsome h
        · exact h
      · exact .inr
  rw [toText, htake, String.ofList_toList]
  split
  · rw [if_pos (hsingle.1 ‹_›)]
  · rw [if_neg fun h => ‹¬_› (hsingle.2 h)]

/-- A text of addresses, `/` and digits has no blanks. -/
theorem trim_toText (network : Network) : Text.trim network.toText = network.toText := by
  refine Text.trim_eq_self fun c hc => ?_
  rw [network.toList_toText, List.mem_append, List.mem_cons] at hc
  rcases hc with hc | rfl | hc
  · exact isWhitespace_of_isAddress (network.address.toText_isAddress c hc)
  · decide
  · exact isWhitespace_of_isDigit (isDigit_of_mem_repr hc)

theorem parse_eq_range {text : String} {network : Network} (h : Network.parse (Text.trim text) = some network) :
    parse text = .ok (range network) := by
  unfold parse
  dsimp only
  rw [h]

/-- **A range is read from its text.** -/
theorem parse_toText_range {network : Network} (h : network.address.toCanonical = network.address) :
    parse (range network).toText = .ok (range network) := by
  by_cases hlength : network.length = bits network.address
  · have htext : (range network).toText = network.address.toText := by rw [toText_range, if_pos hlength]
    have htrim : Text.trim network.address.toText = network.address.toText :=
      Text.trim_eq_self fun c hc => isWhitespace_of_isAddress (network.address.toText_isAddress c hc)
    have hparse : Network.parse network.address.toText = some network := by
      rw [Network.parse_of_notMem (slash_notMem _), IpAddr.parse_toText, Option.map_some]
      obtain ⟨address, length, hbounded⟩ := network
      dsimp only at h hlength
      subst hlength
      simp only [h]
    exact htext ▸ parse_eq_range (htrim.symm ▸ hparse)
  · have htext : (range network).toText = network.toText := by rw [toText_range, if_neg hlength]
    exact htext ▸ parse_eq_range ((trim_toText network).symm ▸ Network.parse_toText h)

/-! ## Host names -/

variable {others : List Char} {host text name : String}

theorem label_toLower (others : List Char) (l : List Char) :
    label others (.ofList (l.map Char.toLower)) = label others (.ofList l) := by
  have hall : (l.map Char.toLower).all (fun c => c.isAlphanum || c ∈ others) =
      l.all fun c => c.isAlphanum || c ∈ others := by
    rw [List.all_map]
    congr 1
    funext c
    rw [Bool.eq_iff_iff]
    simp only [Function.comp_apply, Bool.or_eq_true, Text.isAlphanum_toLower, decide_eq_true_eq]
    refine or_congr_right' fun hc => ?_
    rcases Text.toLower_cases c with ⟨hlower, -⟩ | ⟨hlow, hhigh, -⟩
    · rw [hlower]
    · exact absurd (Text.isAlphanum_iff.2 (.inl ⟨hlow, hhigh⟩)) hc
  have hhyphen : ∀ o : Option Char, o.map Char.toLower = some '-' ↔ o = some '-' := by
    intro o
    rw [Option.map_eq_some_iff]
    constructor
    · rintro ⟨c, hc, hlower⟩
      rw [hc, (Text.toLower_eq_iff (by decide)).1 hlower]
    · exact fun h => ⟨'-', h, rfl⟩
  have hhead : (l.map Char.toLower).head? ≠ some '-' ↔ l.head? ≠ some '-' := by
    rw [List.head?_map, ne_eq, hhyphen]
  have hlast : (l.map Char.toLower).getLast? ≠ some '-' ↔ l.getLast? ≠ some '-' := by
    rw [List.getLast?_map, ne_eq, hhyphen]
  simp only [label, Text.utf8ByteSize_map_toLower, String.toList_ofList, hall, hhead, hlast]

/-- A character of a host name. -/
def isHost (others : List Char) (c : Char) : Bool := c.isAlphanum || c ∈ others || c = '.'

theorem of_hostName (h : hostName others host = true) :
    (∀ c ∈ host.toList, isHost others c = true) ∧ host.toList.getLast? ≠ some '.' := by
  simp only [hostName, Bool.and_eq_true, decide_eq_true_eq] at h
  obtain ⟨-, h⟩ := h
  rw [Text.split, List.all_map, List.all_eq_true] at h
  refine ⟨fun c hc => ?_, fun hlast => ?_⟩
  · by_cases hdot : c = '.'
    · rw [isHost, hdot, decide_eq_true rfl, Bool.or_true]
    · have hc : c ∈ [] ++ host.toList := hc
      obtain ⟨part, hpart, hc⟩ := Text.exists_mem_pieces hc hdot
      have hlabel := h part hpart
      simp only [Function.comp_apply, label, Bool.and_eq_true, String.toList_ofList] at hlabel
      rw [isHost, List.all_eq_true.1 hlabel.1.1.2 c hc, Bool.true_or]
  · obtain ⟨front, hfront⟩ := List.getLast?_eq_some_iff.1 hlast
    have hnil := h [] (hfront ▸ Text.nil_mem_pieces)
    exact absurd hnil (by simp [label])

theorem isWhitespace_of_isHost {c : Char} (h : isHost ['-', '_'] c = true) :
    Text.isWhitespace c = false := by
  rw [isHost, Bool.or_eq_true, Bool.or_eq_true, Text.isAlphanum_iff, decide_eq_true_eq,
    decide_eq_true_eq] at h
  rcases h with (h | h) | rfl
  · simp only [Text.isWhitespace, Bool.or_eq_false_iff, Bool.and_eq_false_iff, decide_eq_false_iff_not]
    omega
  · rcases List.mem_pair.1 h with rfl | rfl <;> decide
  · decide

theorem hostName_toLower (others : List Char) (host : String) :
    hostName others (Text.toAsciiLowercase host) = hostName others host := by
  have hparts : (Text.split '.' (Text.toAsciiLowercase host)).all (label others) =
      (Text.split '.' host).all (label others) := by
    rw [Text.split, Text.split, Text.toAsciiLowercase, String.toList_ofList,
      ← List.map_nil (f := Char.toLower), Text.pieces_map_toLower (by decide), List.all_map, List.all_map,
      List.all_map]
    congr 1
    funext l
    exact label_toLower others l
  have hsize : (Text.toAsciiLowercase host).utf8ByteSize = host.utf8ByteSize := by
    rw [Text.toAsciiLowercase, Text.utf8ByteSize_map_toLower, String.ofList_toList]
  rw [hostName, hostName, hsize, hparts]

theorem trimDots_eq_self (h : host.toList.getLast? ≠ some '.') : trimDots host = host := by
  have hdrop : host.toList.reverse.dropWhile (· = '.') = host.toList.reverse := by
    cases hlist : host.toList.reverse with
    | nil => rfl
    | cons c rest =>
      have hc : host.toList.getLast? = some c := by rw [← List.head?_reverse, hlist, List.head?_cons]
      rw [List.dropWhile_cons_of_neg]
      rintro hdot
      rw [of_decide_eq_true hdot] at hc
      exact h hc
  rw [trimDots, hdrop, List.reverse_reverse, String.ofList_toList]

/-- `from_str` takes nothing off a host name. -/
theorem plain_hostName (hchars : ∀ c ∈ host.toList, isHost ['-', '_'] c = true)
    (hlast : host.toList.getLast? ≠ some '.') :
    Network.parse (Text.trim host) =
        (IpAddr.parse host).map (fun ip => ⟨ip.toCanonical, bits ip.toCanonical, le_rfl⟩) ∧
      trimDots (Text.trim host) = host := by
  have htrim := Text.trim_eq_self fun c hc => isWhitespace_of_isHost (hchars c hc)
  rw [htrim]
  exact ⟨Network.parse_of_notMem fun hc => absurd (hchars _ hc) (by decide), trimDots_eq_self hlast⟩

/-- The case of a text makes no other address of it. -/
theorem parse_toAsciiLowercase (hcolon : ':' ∉ host.toList) :
    IpAddr.parse (Text.toAsciiLowercase host) = IpAddr.parse host := by
  have hlist : (Text.toAsciiLowercase host).toList = host.toList.map Char.toLower := String.toList_ofList
  have hself : (∀ c ∈ host.toList, isIpv4 c.toLower = true ∨ isIpv4 c = true) →
      Text.toAsciiLowercase host = host := by
    intro h
    rw [← String.toList_inj, hlist]
    have hmap : host.toList.map Char.toLower = host.toList.map id := by
      refine List.map_congr_left fun c hc => ?_
      rcases Text.toLower_cases c with ⟨hlower, -⟩ | ⟨hlow, hhigh, hnum⟩
      · exact hlower
      · rcases h c hc with h | h
        · have := isIpv4_le h
          omega
        · have := isIpv4_le h
          omega
    rw [hmap, List.map_id]
  cases h : IpAddr.parse host with
  | some ip =>
    cases ip with
    | v4 value => rw [hself fun c hc => .inr (IpAddr.of_parse_v4 h c hc), h]
    | v6 value => exact absurd (IpAddr.of_parse_v6 h) hcolon
  | none =>
    cases hlower : IpAddr.parse (Text.toAsciiLowercase host) with
    | none => rfl
    | some ip =>
      cases ip with
      | v4 value =>
        have hchars := IpAddr.of_parse_v4 hlower
        rw [hlist] at hchars
        rw [hself fun c hc => .inl (hchars _ (List.mem_map_of_mem hc)), h] at hlower
        cases hlower
      | v6 value =>
        have hmem := IpAddr.of_parse_v6 hlower
        rw [hlist] at hmem
        obtain ⟨c, hc, hlower⟩ := List.mem_map.1 hmem
        exact absurd ((Text.toLower_eq_iff (by decide)).1 hlower ▸ hc) hcolon

theorem parse_of_host (hnetwork : Network.parse (Text.trim text) = none)
    (hname : hostName ['-', '_'] (trimDots (Text.trim text)) = true) :
    parse text = .ok (.host (Text.toAsciiLowercase (trimDots (Text.trim text)))) := by
  unfold parse
  dsimp only
  rw [hnetwork]
  exact if_pos hname

/-- What `from_str` makes of a text. -/
theorem parse_eq_ok {address : Address} (h : parse text = .ok address) :
    (∃ network, Network.parse (Text.trim text) = some network ∧ address = .range network) ∨
      (Network.parse (Text.trim text) = none ∧ hostName ['-', '_'] (trimDots (Text.trim text)) = true ∧
        address = .host (Text.toAsciiLowercase (trimDots (Text.trim text)))) := by
  cases hnetwork : Network.parse (Text.trim text) with
  | some network =>
    rw [parse_eq_range hnetwork] at h
    exact .inl ⟨network, rfl, (Except.ok.inj h).symm⟩
  | none =>
    by_cases hname : hostName ['-', '_'] (trimDots (Text.trim text)) = true
    · rw [parse_of_host hnetwork hname] at h
      exact .inr ⟨rfl, hname, (Except.ok.inj h).symm⟩
    · unfold parse at h
      dsimp only at h
      rw [hnetwork] at h
      dsimp only at h
      rw [if_neg hname] at h
      cases h

/-- An IPv4 address with dots at its end, which `from_str` takes as a host name. -/
def Dotted (text : String) : Prop :=
  Network.parse (Text.trim text) = none ∧ (IpAddr.parse (trimDots (Text.trim text))).isSome = true

instance (text : String) : Decidable (Dotted text) := by
  unfold Dotted
  infer_instance

/-- **An address comes back** unless it was entered as a dotted one. -/
theorem parse_toText {address : Address} (h : parse text = .ok address) :
    parse address.toText = .ok address ↔ ¬Dotted text := by
  rcases parse_eq_ok h with ⟨network, hnetwork, rfl⟩ | ⟨hnetwork, hname, rfl⟩
  · refine iff_of_true (parse_toText_range (Network.canonical_of_parse hnetwork)) fun hdotted => ?_
    rw [Dotted, hnetwork] at hdotted
    cases hdotted.1
  · have hhost := of_hostName hname
    rw [← hostName_toLower] at hname
    have hlower := of_hostName hname
    obtain ⟨hparse, hself⟩ := plain_hostName hlower.1 hlower.2
    rw [parse_toAsciiLowercase fun hc => absurd (hhost.1 _ hc) (by decide)] at hparse
    cases hip : IpAddr.parse (trimDots (Text.trim text)) with
    | some ip =>
      rw [hip, Option.map_some] at hparse
      refine iff_of_false (fun heq => ?_) (fun hdotted => hdotted ⟨hnetwork, by rw [hip]; rfl⟩)
      rw [toText, parse_eq_range hparse] at heq
      cases heq
    | none =>
      rw [hip, Option.map_none] at hparse
      refine iff_of_true ?_ (fun hdotted => ?_)
      · have hread := parse_of_host hparse (hself.symm ▸ hname)
        rwa [hself, Text.toAsciiLowercase_toAsciiLowercase] at hread
      · rw [Dotted, hip] at hdotted
        cases hdotted.2

end Address

namespace Ports

/-! ## Ports -/

variable {ports : Ports} {text : String}

/-- What `from_str` makes. -/
def Valid (ports : Ports) : Prop := 0 < ports.first ∧ ports.first ≤ ports.last ∧ ports.last ≤ 65535

theorem valid_of_parse (h : parse text = .ok ports) : ports.Valid := by
  have hport : ∀ {part : String} {n : Nat},
      (((Text.parseUnsigned 65535 (Text.trim part)).filter (0 < ·)).elim
        (.error (.invalidPorts text)) .ok : Except InventoryError Nat) = .ok n → 0 < n ∧ n ≤ 65535 := by
    intro part n hn
    rw [elim_eq_ok, Option.filter_eq_some_iff, decide_eq_true_eq] at hn
    exact ⟨hn.2, Text.parseUnsigned_le hn.1⟩
  simp only [parse] at h
  -- one text or two, the first and the last port are both read
  split at h
  all_goals
    obtain ⟨first, hfirst, h⟩ := bind_eq_ok.1 h
    obtain ⟨last, hlast, h⟩ := bind_eq_ok.1 h
    obtain ⟨_, hpair, h⟩ := bind_eq_ok.1 h
    cases hpair
    obtain ⟨_, hle, h⟩ := bind_eq_ok.1 h
    rw [refuse_eq_ok, Nat.not_lt] at hle
    cases h
    exact ⟨(hport hfirst).1, hle, (hport hlast).2⟩

theorem port_repr {n : Nat} {e : InventoryError} (hpos : 0 < n) (hle : n ≤ 65535) :
    (((Text.parseUnsigned 65535 (Text.trim n.repr)).filter (0 < ·)).elim (.error e) .ok :
      Except InventoryError Nat) = .ok n := by
  rw [Text.trim_eq_self fun c hc => isWhitespace_of_isDigit (isDigit_of_mem_repr hc),
    Text.parseUnsigned_repr hle, elim_eq_ok, Option.filter_eq_some_iff]
  exact ⟨rfl, decide_eq_true hpos⟩

/-- Ports are read from their text. -/
theorem parse_toText (h : ports.Valid) : parse ports.toText = .ok ports := by
  obtain ⟨hpos, hle, hlast⟩ := h
  obtain ⟨first, last⟩ := ports
  dsimp only at hpos hle hlast
  have hdigit : ∀ k : Nat, '-' ∉ k.repr.toList := fun k => notMem_repr (by decide)
  have hread : ∀ first last : Nat, first ≤ last → ∀ e : InventoryError,
      (do
        let a ← Except.ok first
        let b ← Except.ok last
        let bounds ← pure (a, b)
        refuse (bounds.2 < bounds.1) e
        pure { first := bounds.1, last := bounds.2 } : Except InventoryError Ports) = .ok ⟨first, last⟩ :=
    fun first last hle e => bind_eq_ok.2 ⟨first, rfl, bind_eq_ok.2 ⟨last, rfl,
      bind_eq_ok.2 ⟨(first, last), rfl, bind_eq_ok.2 ⟨(), refuse_eq_ok.2 (Nat.not_lt.2 hle), rfl⟩⟩⟩⟩
  simp only [toText]
  split
  · rename_i heq
    subst heq
    simp only [parse, Text.splitOnce_of_notMem (hdigit first), port_repr hpos hlast]
    exact hread first first le_rfl _
  · have hsplit : Text.splitOnce '-' (first.repr ++ "-" ++ last.repr) = some (first.repr, last.repr) := by
      have htext : (first.repr ++ "-" ++ last.repr).toList = first.repr.toList ++ '-' :: last.repr.toList := by simp
      rw [Text.splitOnce_of_append (hdigit first) htext, String.ofList_toList, String.ofList_toList]
    simp only [parse, hsplit, port_repr hpos (hle.trans hlast), port_repr (hpos.trans_le hle) hlast]
    exact hread first last hle _

/-- A character of such a text. -/
theorem mem_toText {c : Char} (h : c ∈ ports.toText.toList) : c.isDigit = true ∨ c = '-' := by
  rw [toText] at h
  split at h
  · exact .inl (isDigit_of_mem_repr h)
  · rw [String.toList_append, String.toList_append, List.mem_append, List.mem_append] at h
    rcases h with (h | h) | h
    · exact .inl (isDigit_of_mem_repr h)
    · exact .inr (List.mem_singleton.1 h)
    · exact .inl (isDigit_of_mem_repr h)

theorem toText_ne_empty (ports : Ports) : ports.toText ≠ "" := by
  intro h
  have hlen : 0 < ports.first.repr.toList.length := by
    rw [Nat.toList_repr]
    exact List.length_pos_of_ne_nil Nat.toDigits_ne_nil
  have hlist : ports.toText.toList = [] := by rw [h]; rfl
  rw [toText] at hlist
  split at hlist
  · rw [hlist] at hlen
    cases hlen
  · rw [String.toList_append, String.toList_append] at hlist
    simp at hlist

theorem toList_portsText (ports : Ports) (rest : List Ports) : (portsText (ports :: rest)).toList =
    ports.toText.toList ++ (rest.map fun p => ' ' :: p.toText.toList).flatMap (',' :: ·) := by
  rw [portsText, List.map_cons, Text.toList_intercalate_cons, List.flatMap_map, List.flatMap_map]
  rfl

theorem parts_portsText (ports : List Ports) : parts (portsText ports) = ports.map toText := by
  cases ports with
  | nil => decide
  | cons ports rest =>
    have hcomma : ∀ p : Ports, ',' ∉ p.toText.toList := fun p h => by
      rcases mem_toText h with h | h <;> cases h
    have hblank : ∀ p : Ports, ' ' ∉ p.toText.toList := fun p h => by
      rcases mem_toText h with h | h <;> cases h
    have hcut : Text.pieces ',' [] (portsText (ports :: rest)).toList =
        ports.toText.toList :: rest.map fun p => ' ' :: p.toText.toList := by
      rw [toList_portsText, Text.pieces_joined (hcomma ports)]
      intro part hpart
      obtain ⟨p, -, rfl⟩ := List.mem_map.1 hpart
      rw [List.mem_cons, not_or]
      exact ⟨by decide, hcomma p⟩
    have hrest : ∀ rest : List Ports, ((rest.map fun p => String.ofList (' ' :: p.toText.toList)).flatMap
        (Text.split ' ')).filter (· ≠ "") = rest.map toText := by
      intro rest
      induction rest with
      | nil => rfl
      | cons p rest ih =>
        have hpart : Text.split ' ' (.ofList (' ' :: p.toText.toList)) = ["", p.toText] := by
          rw [Text.split, String.toList_ofList]
          have h : Text.pieces ' ' [] ([] ++ [p.toText.toList].flatMap (' ' :: ·)) = [[], p.toText.toList] :=
            Text.pieces_joined List.not_mem_nil (by simpa using hblank p)
          simp only [List.nil_append, List.flatMap_cons, List.flatMap_nil, List.append_nil] at h
          rw [h]
          simp
        rw [List.map_cons, List.flatMap_cons, List.filter_append, ih, hpart]
        simp [toText_ne_empty]
    have hfirst : Text.split ' ' ports.toText = [ports.toText] := by
      rw [Text.split, Text.pieces_of_notMem (hblank ports)]
      simp
    rw [parts, Text.split, hcut, List.map_cons, List.flatMap_cons, List.filter_append, List.map_map]
    have hhead : (Text.split ' ' (.ofList ports.toText.toList)).filter (· ≠ "") = [ports.toText] := by
      rw [String.ofList_toList, hfirst]
      simp [toText_ne_empty]
    rw [hhead]
    exact congrArg (ports.toText :: ·) (hrest rest)

/-- What `parse_list` makes. -/
theorem valid_of_parseList {list : List Ports} (h : parseList text = .ok list) :
    list ≠ [] ∧ ∀ ports ∈ list, ports.Valid := by
  obtain ⟨list', hlist, h⟩ := bind_eq_ok.1 h
  obtain ⟨_, hne, h⟩ := bind_eq_ok.1 h
  cases h
  refine ⟨refuse_eq_ok.1 hne, fun ports hports => ?_⟩
  obtain ⟨part, -, hpart⟩ := (mem_mapM hlist).1 hports
  exact valid_of_parse hpart

/-- **A list of ports is read from its text.** -/
theorem parseList_portsText {list : List Ports} (h : parseList text = .ok list) :
    parseList (portsText list) = .ok list := by
  obtain ⟨hne, hvalid⟩ := valid_of_parseList h
  rw [parseList, parts_portsText, mapM_map_eq_ok fun p hp => parse_toText (hvalid p hp)]
  exact bind_eq_ok.2 ⟨list, rfl, bind_eq_ok.2 ⟨(), refuse_eq_ok.2 hne, rfl⟩⟩

end Ports

/-! ## The list -/

section
variable {list : Inventory} {device : Device} {form : DeviceForm}

theorem Address.ofJson_toText (address : Address) :
    Address.ofJson (.string address.toText) = some address ↔ Address.parse address.toText = .ok address := by
  rw [Address.ofJson, Json.asStr, Option.bind_some]
  cases Address.parse address.toText <;> simp [Except.toOption]

theorem DeviceForm.device_eq_ok (h : form.device = .ok device) :
    validName form.name = .ok device.name ∧ Address.parse form.address = .ok device.address ∧
      Ports.parseList form.ports = .ok device.ports := by
  obtain ⟨name, hname, h⟩ := bind_eq_ok.1 h
  obtain ⟨address, haddress, h⟩ := bind_eq_ok.1 h
  obtain ⟨ports, hports, h⟩ := bind_eq_ok.1 h
  cases h
  exact ⟨hname, haddress, hports⟩

theorem Ports.ofJson_toText {ports : Ports} (h : ports.Valid) :
    Ports.ofJson (.string ports.toText) = some ports := by
  rw [Ports.ofJson, Json.asStr, Option.bind_some, Ports.parse_toText h]
  rfl

/-- A device is read again if its address is. -/
theorem Device.ofJson_toJson (h : ∀ ports ∈ device.ports, ports.Valid) :
    Device.ofJson device.toJson = some device ↔
      Address.parse device.address.toText = .ok device.address := by
  have hports : vecOf Ports.ofJson (.array (device.ports.map fun ports => .string ports.toText)) =
      some device.ports := Option.mapM_map_eq_some.2 fun ports hports => Ports.ofJson_toText (h ports hports)
  have hgroups : vecOf Json.asStr (.array (device.groups.map .string)) = some device.groups :=
    Option.mapM_map_eq_some.2 fun group _ => rfl
  have hread : Device.ofJson device.toJson = (Address.ofJson (.string device.address.toText)).map fun address =>
      { device with address } := by
    simp only [Device.ofJson, Device.toJson, Json.field, List.find?_cons, Option.map_some,
      Option.bind_some, String.reduceEq, decide_true, decide_false, Json.asStr, hports, vecOrDefault, hgroups]
    cases Address.ofJson (.string device.address.toText) <;> rfl
  rw [← Address.ofJson_toText, hread, Option.map_eq_some_iff]
  constructor
  · rintro ⟨address, haddress, heq⟩
    rw [haddress, ← heq]
  · exact fun haddress => ⟨device.address, haddress, rfl⟩

theorem Inventory.ofJson_toJson (h : ∀ device ∈ list.devices, ∀ ports ∈ device.ports, ports.Valid) :
    Inventory.ofJson list.toJson = some list ↔
      ∀ device ∈ list.devices, Address.parse device.address.toText = .ok device.address := by
  have hgroups : (list.groups.map Json.string).mapM Json.asStr = some list.groups :=
    Option.mapM_map_eq_some.2 fun group _ => rfl
  have hread : Inventory.ofJson list.toJson =
      ((list.devices.map Device.toJson).mapM Device.ofJson).map fun devices => { list with devices } := by
    simp only [Inventory.ofJson, Inventory.toJson, Json.field, List.find?_cons, Option.map_some,
      String.reduceEq, decide_true, decide_false, vecOrDefault, hgroups, vecOf]
    cases (list.devices.map Device.toJson).mapM Device.ofJson <;> rfl
  rw [hread, Option.map_eq_some_iff]
  have hdevices : (list.devices.map Device.toJson).mapM Device.ofJson = some list.devices ↔
      ∀ device ∈ list.devices, Address.parse device.address.toText = .ok device.address :=
    Option.mapM_map_eq_some.trans (forall₂_congr fun device hdevice => Device.ofJson_toJson (h device hdevice))
  rw [← hdevices]
  constructor
  · rintro ⟨devices, hmap, heq⟩
    rw [hmap, ← heq]
  · exact fun hmap => ⟨list.devices, hmap, rfl⟩

end

/-! ## What was entered -/

/-- A device that was entered, under no dotted address. -/
def Device.Entered (device : Device) : Prop :=
  ∃ form : DeviceForm, form.device = .ok device ∧ ¬Address.Dotted form.address

section
variable {lower : String → String} {f f' : Files} {call : Call} {r : Except ChangeError Unit}
  {now : OffsetDateTime} {device : Device} {list : Inventory}

theorem Device.Entered.valid (h : device.Entered) : ∀ ports ∈ device.ports, ports.Valid := by
  obtain ⟨form, hform, -⟩ := h
  exact (Ports.valid_of_parseList (DeviceForm.device_eq_ok hform).2.2).2

theorem Device.Entered.withGroups (h : device.Entered) (groups : List String) :
    Device.Entered { device with groups } := by
  obtain ⟨form, hform, hdotted⟩ := h
  refine ⟨{ form with groups }, ?_, hdotted⟩
  obtain ⟨name, hname, hform⟩ := bind_eq_ok.1 hform
  obtain ⟨address, haddress, hform⟩ := bind_eq_ok.1 hform
  obtain ⟨ports, hports, hform⟩ := bind_eq_ok.1 hform
  cases hform
  exact bind_eq_ok.2 ⟨name, hname, bind_eq_ok.2 ⟨address, haddress, bind_eq_ok.2 ⟨ports, hports, rfl⟩⟩⟩

/-- A call lists no other devices than those entered. -/
theorem Effect.entered (h : Effect lower now f call r f') (hf : ∀ device ∈ f.inventory.devices, device.Entered)
    (hcall : ∀ device, call = .addDevice device → device.Entered) :
    ∀ device ∈ f'.inventory.devices, device.Entered := by
  intro device hdevice
  cases h with
  | deviceAdded hadd =>
    obtain ⟨-, -, -, hperm⟩ := Inventory.addDevice_eq_ok hadd
    rcases List.mem_cons.1 (hperm.mem_iff.1 hdevice) with rfl | hdevice
    · exact hcall device rfl
    · exact hf device hdevice
  | deviceRemoved hremove =>
    obtain ⟨before, d, after, hlist, -, rfl⟩ := Inventory.removeDevice_eq_ok hremove
    refine hf device ?_
    rw [hlist]
    rcases List.mem_append.1 hdevice with hdevice | hdevice
    · exact List.mem_append_left _ hdevice
    · exact List.mem_append_right _ (List.mem_cons_of_mem d hdevice)
  | groupAdded _ hadd =>
    rw [(Inventory.addGroup_eq_ok hadd).2.1] at hdevice
    exact hf device hdevice
  | groupRemoved hremove =>
    rw [Inventory.removeGroup_eq_ok hremove] at hdevice
    obtain ⟨d, hd, rfl⟩ := List.mem_map.1 hdevice
    exact (hf d hd).withGroups _
  | _ => exact hf device hdevice

theorem entered_after (lower : String → String) (calls : List Made)
    (hf : ∀ device ∈ f.inventory.devices, device.Entered)
    (hcalls : ∀ made ∈ calls, ∀ device, made.call = .addDevice device → device.Entered) :
    ∀ device ∈ (after lower f calls).inventory.devices, device.Entered := by
  induction calls generalizing f with
  | nil => exact hf
  | cons made calls ih =>
    refine ih ?_ fun m hm => hcalls m (List.mem_cons_of_mem made hm)
    exact (run_effect lower made.now made.call f made.failing).entered hf
      (hcalls made List.mem_cons_self)

end

/-- **What is saved comes back.** An accepted address is read from its text again exactly if it was not
entered as an IPv4 address with dots at its end; a list of ports always is. So a list of accepted
devices is loaded as it was saved exactly if none of them was entered so, and after any calls that add
no such device, whichever writes failed, the list that is loaded is the one that was saved. -/
theorem saved_comes_back (lower : String → String) (toVecPretty : Json → List UInt8)
    (fromSlice : List UInt8 → Option Json) :
    (∀ text address, Address.parse text = .ok address →
      (Address.parse address.toText = .ok address ↔ ¬Address.Dotted text)) ∧
    (∀ text ports, Ports.parseList text = .ok ports → Ports.parseList (portsText ports) = .ok ports) ∧
    (∀ list : Inventory, fromSlice (toVecPretty list.toJson) = some list.toJson →
      (∀ device ∈ list.devices, ∃ form : DeviceForm, form.device = .ok device) →
      (Inventory.load fromSlice (some (list.save toVecPretty)) = some list ↔
        ∀ device ∈ list.devices, ∀ form : DeviceForm, form.device = .ok device →
          ¬Address.Dotted form.address)) ∧
    ∀ calls : List Made,
      (∀ made ∈ calls, ∀ device, made.call = .addDevice device → device.Entered) →
      fromSlice (toVecPretty (after lower {} calls).inventory.toJson) =
        some (after lower {} calls).inventory.toJson →
      Inventory.load fromSlice (some ((after lower {} calls).inventory.save toVecPretty)) =
        some (after lower {} calls).inventory := by
  have hload : ∀ list : Inventory, fromSlice (toVecPretty list.toJson) = some list.toJson →
      Inventory.load fromSlice (some (list.save toVecPretty)) = Inventory.ofJson list.toJson := by
    intro list hserde
    rw [Inventory.load, Inventory.save, hserde, Option.bind_some]
  refine ⟨fun text address h => Address.parse_toText h, fun text ports h => Ports.parseList_portsText h,
    fun list hserde hforms => ?_, fun calls hcalls hserde => ?_⟩
  · rw [hload list hserde, Inventory.ofJson_toJson]
    · refine forall₂_congr fun device hdevice => ?_
      obtain ⟨form, hform⟩ := hforms device hdevice
      constructor
      · intro hread form' hform'
        exact (Address.parse_toText (DeviceForm.device_eq_ok hform').2.1).1 hread
      · intro h
        exact (Address.parse_toText (DeviceForm.device_eq_ok hform).2.1).2 (h form hform)
    · intro device hdevice
      obtain ⟨form, hform⟩ := hforms device hdevice
      exact (Ports.valid_of_parseList (DeviceForm.device_eq_ok hform).2.2).2
  · have hentered := entered_after lower calls (f := {}) (fun device h => absurd h List.not_mem_nil) hcalls
    rw [hload _ hserde, Inventory.ofJson_toJson fun device hdevice => (hentered device hdevice).valid]
    intro device hdevice
    obtain ⟨form, hform, hdotted⟩ := hentered device hdevice
    exact (Address.parse_toText (DeviceForm.device_eq_ok hform).2.1).2 hdotted

theorem saved_comes_back_sql :
    ∃ device : Device, DeviceForm.device ⟨"sql", "10.0.0.5", "22, 8000-8100", []⟩ = .ok device ∧
      ∃ (toVecPretty : Json → List UInt8) (fromSlice : List UInt8 → Option Json),
        Inventory.load fromSlice (some (Inventory.save toVecPretty { devices := [device] })) =
          some { devices := [device] } := by
  let device : Device :=
    { name := "sql", address := .range ⟨.v4 0x0a000005, 32, le_rfl⟩, ports := [⟨22, 22⟩, ⟨8000, 8100⟩],
      groups := [] }
  let pretty : List UInt8 := ("\x7b\n  \"devices\": [\n    \x7b\n      \"name\": \"sql\",\n" ++
    "      \"address\": \"10.0.0.5\",\n      \"ports\": [\n        \"22\",\n        \"8000-8100\"\n" ++
    "      ],\n      \"groups\": []\n    \x7d\n  ],\n  \"groups\": []\n\x7d").toUTF8.toList
  have hform : DeviceForm.device ⟨"sql", "10.0.0.5", "22, 8000-8100", []⟩ = .ok device := by decide
  refine ⟨device, hform, fun _ => pretty,
    fun bytes => if bytes = pretty then some (Inventory.toJson { devices := [device] }) else none, ?_⟩
  refine ((saved_comes_back id (fun _ => pretty)
    fun bytes => if bytes = pretty then some (Inventory.toJson { devices := [device] }) else none).2.2.1
    { devices := [device] } (if_pos rfl) ?_).2 ?_
  · intro d hd
    rw [List.mem_singleton.1 hd]
    exact ⟨_, hform⟩
  · intro d hd form hd'
    rw [List.mem_singleton.1 hd] at hd'
    refine ((saved_comes_back id (fun _ => pretty) fun _ => none).1 form.address device.address
      (DeviceForm.device_eq_ok hd').2.1).1 ?_
    decide

/-- `10.0.0.5.` is a host name, and what is written of it is an address. -/
theorem dotted_changes : ¬∀ text address, Address.parse text = .ok address →
    Address.parse address.toText = .ok address := by
  intro h
  have hparse : Address.parse "10.0.0.5." = .ok (.host "10.0.0.5") := by decide
  have hread := h _ _ hparse
  exact absurd hread (by decide)

end Connector

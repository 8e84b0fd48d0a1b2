import RemoteHub.Lib.IpText
import RemoteHub.Lib.Split
import RemoteHub.Server.Site
import RemoteHub.Web.Site

/-!
# Pages and logins on both sides

Of the same two URLs, the server and the extension say the same (`belongs_eq`): a host that the extension
takes for an address is one. They differ in what they trim off a text, U+0085 or U+FEFF, and give the
parser of URLs different texts then, which no parser need read alike (`siteMatches_alike`).
-/

namespace Web.Site

open UrlParser

variable {parser : UrlParser} {psl : String → Option String} {login page : Url}

/-! ## Hosts -/

section
variable {name : String} {address : UrlHost}

theorem lastLabel_of_pieces {a b c d s : List Char} (h : Text.pieces '.' [] s = [a, b, c, d]) :
    (s.reverse.takeWhile (· ≠ '.')).reverse = d := by
  have hmem : d ∈ Text.pieces '.' [] s := by simp [h]
  have hd : '.' ∉ d := Text.notMem_of_mem_pieces List.not_mem_nil hmem
  have hs := Text.joined_pieces h
  have hsplit : s = (a ++ '.' :: b ++ '.' :: c) ++ '.' :: d := by simpa using hs
  have hall : ∀ e ∈ d.reverse, decide (e ≠ '.') = true := by
    intro e he
    rw [decide_eq_true_eq]
    rintro rfl
    exact hd (List.mem_reverse.1 he)
  rw [hsplit, List.reverse_append, List.reverse_cons, List.append_assoc,
    List.takeWhile_append_of_pos hall]
  simp

/-- A name that is no address in the URL Standard is none for the extension. -/
theorem isAddress_domain (hnumber : ¬EndsInNumber name.toList) (hbracket : '[' ∉ name.toList) :
    isAddress (bare name) = false := by
  have hbare : (bare name).toList =
      if name.toList.getLast? = some '.' then name.toList.dropLast else name.toList := by
    rw [bare]
    split
    · rw [String.toList_ofList]
    · rfl
  have hmem : ∀ c ∈ (bare name).toList, c ∈ name.toList := by
    intro c hc
    rw [hbare] at hc
    split at hc
    · exact List.mem_of_mem_dropLast hc
    · exact hc
  rw [isAddress, Bool.or_eq_false_iff, decide_eq_false_iff_not]
  refine ⟨fun hhead => hbracket (hmem _ (List.mem_of_mem_head? hhead)), ?_⟩
  by_contra hipv4
  rw [Bool.not_eq_false, isIpv4, Bool.and_eq_true, decide_eq_true_eq] at hipv4
  obtain ⟨a, b, c, d, hpieces⟩ : ∃ a b c d, Text.pieces '.' [] (bare name).toList = [a, b, c, d] := by
    match hp : Text.pieces '.' [] (bare name).toList, hipv4.1 with
    | [a, b, c, d], _ => exact ⟨a, b, c, d, rfl⟩
  have hlabel : lastLabel name.toList = d := by
    rw [← lastLabel_of_pieces hpieces, hbare, lastLabel]
    split <;> rfl
  have hdigits := List.all_eq_true.1 hipv4.2 d (by simp [hpieces])
  rw [Bool.and_eq_true, decide_eq_true_eq] at hdigits
  exact hnumber ⟨hlabel ▸ hdigits.1, hlabel ▸ List.all_eq_true.1 hdigits.2⟩

/-- An IPv4 address is written with four labels, the last of which ends the text. -/
theorem ipv4Text_eq (value : BitVec 32) : ∃ a b c d : Nat, Net.ipv4Text value =
    Nat.toDigits 10 a ++ ([b, c, d].map (Nat.toDigits 10)).flatMap ('.' :: ·) := by
  obtain ⟨a, b, c, d, hoctets⟩ : ∃ a b c d, Net.octets value = [a, b, c, d] := ⟨_, _, _, _, rfl⟩
  refine ⟨a, b, c, d, ?_⟩
  rw [Net.ipv4Text, hoctets]
  simp [Net.separated]

theorem isDigit_toDigits (n : Nat) : (Nat.toDigits 10 n).all Char.isDigit = true :=
  List.all_eq_true.2 fun _ hc => Nat.isDigit_of_mem_toDigits (by decide) (by decide) hc

theorem isIpv4_ipv4Text (value : BitVec 32) : isIpv4 (.ofList (Net.ipv4Text value)) = true := by
  obtain ⟨a, b, c, d, htext⟩ := ipv4Text_eq value
  have hdot : ∀ n, '.' ∉ Nat.toDigits 10 n := by
    intro n hn
    exact absurd (List.all_eq_true.1 (isDigit_toDigits n) _ hn) (by decide)
  have hpieces : Text.pieces '.' [] (Nat.toDigits 10 a ++ ([b, c, d].map (Nat.toDigits 10)).flatMap ('.' :: ·)) =
      Nat.toDigits 10 a :: [b, c, d].map (Nat.toDigits 10) :=
    Text.pieces_joined (hdot a) (by simp [hdot])
  rw [isIpv4, String.toList_ofList, htext, hpieces]
  simp [Nat.toDigits_ne_nil, isDigit_toDigits]

theorem bare_eq_self (h : name.toList.getLast? ≠ some '.') : bare name = name := if_neg h

/-- A host that is an address ends with a digit or a bracket. -/
theorem bare_address (h : ∀ name, address ≠ .domain name) :
    bare (parser.hostText address) = parser.hostText address := by
  refine bare_eq_self fun hlast => ?_
  cases address with
  | domain name => exact h name rfl
  | ipv4 value =>
    obtain ⟨a, b, c, d, htext⟩ := ipv4Text_eq value
    obtain ⟨e, he⟩ := Option.isSome_iff_exists.1 (List.getLast?_isSome.2 (Nat.toDigits_ne_nil (n := d) (b := 10)))
    have hend : (Net.ipv4Text value).getLast? = some e := by
      rw [htext]
      simp [List.getLast?_append, List.getLast?_cons, he]
    have hdigit := List.all_eq_true.1 (isDigit_toDigits d) _ (List.mem_of_getLast? he)
    rw [hostText, String.toList_ofList, hend] at hlast
    rw [Option.some.inj hlast] at hdigit
    exact absurd hdigit (by decide)
  | ipv6 value =>
    rw [hostText, String.toList_ofList, List.getLast?_append] at hlast
    exact absurd (Option.some.inj hlast) (by decide)

theorem isAddress_address (h : ∀ name, address ≠ .domain name) :
    isAddress (parser.hostText address) = true := by
  cases address with
  | domain name => exact absurd rfl (h name)
  | ipv4 value =>
    rw [hostText, isAddress, isIpv4_ipv4Text, Bool.or_true]
  | ipv6 value =>
    rw [hostText, isAddress, String.toList_ofList]
    rfl

/-- Addresses with the same text are the same. -/
theorem hostText_inj (hparser : parser.Standard) {address' : UrlHost} (h : ∀ name, address ≠ .domain name)
    (h' : ∀ name, address' ≠ .domain name) (htext : parser.hostText address = parser.hostText address') :
    address = address' := by
  have hmixed : ∀ value value', parser.hostText (.ipv4 value) ≠ parser.hostText (.ipv6 value') := by
    intro value value' heq
    obtain ⟨a, b, c, d, htext⟩ := ipv4Text_eq value
    rw [hostText, hostText, String.ofList_inj, htext] at heq
    have hbracket : '[' ∈ Nat.toDigits 10 a := by
      have hhead := congrArg List.head? heq
      rw [List.head?_append_of_ne_nil _ Nat.toDigits_ne_nil] at hhead
      exact List.mem_of_mem_head? hhead
    exact absurd (List.all_eq_true.1 (isDigit_toDigits a) _ hbracket) (by decide)
  cases address with
  | domain name => exact absurd rfl (h name)
  | ipv4 value =>
    cases address' with
    | domain name => exact absurd rfl (h' name)
    | ipv4 value' =>
      rw [hostText, hostText, String.ofList_inj] at htext
      have hread := Net.readIpv4_text value (Net.stops_nil 10)
      have hread' := Net.readIpv4_text value' (Net.stops_nil 10)
      rw [htext, hread'] at hread
      rw [(Prod.mk.inj (Option.some.inj hread)).1]
    | ipv6 value' => exact absurd htext (hmixed value value')
  | ipv6 value =>
    cases address' with
    | domain name => exact absurd rfl (h' name)
    | ipv4 value' => exact absurd htext.symm (hmixed value' value)
    | ipv6 value' =>
      rw [hostText, hostText, String.ofList_inj] at htext
      have hinner := List.append_cancel_right (List.cons_eq_cons.1 htext).2
      rw [hparser.ipv6 value value' (String.toList_inj.1 hinner)]

/-- A host with the text of an address is that address. -/
theorem address_of_text (hparser : parser.Standard) {host : UrlHost} (haddress : ∀ name, address ≠ .domain name)
    (hname : ∀ name, host = .domain name → isAddress (bare name) = false)
    (htext : bare (parser.hostText address) = bare (parser.hostText host)) : address = host := by
  rw [bare_address haddress] at htext
  have hhost : ∀ name, host ≠ .domain name := by
    rintro name rfl
    have hfalse := hname name rfl
    rw [hostText] at htext
    rw [← htext, isAddress_address haddress] at hfalse
    cases hfalse
  rw [bare_address hhost] at htext
  exact hostText_inj hparser haddress hhost htext

theorem isAddress_bare (h : ∀ name, address ≠ .domain name) :
    isAddress (bare (parser.hostText address)) = true := by
  rw [bare_address h]
  exact isAddress_address h

end

/-! ## URLs -/

/-- A URL of the web, as a parser of the standard reads it. -/
structure Read (parser : UrlParser) (url : Url) : Prop where
  text : ∃ text, parser.parse text = some url
  scheme : url.scheme ∈ ["http", "https"]

theorem port_eq (hlogin : login.scheme ∈ ["http", "https"]) (hscheme : login.scheme = page.scheme) :
    port login = port page ↔ Server.Site.portOrKnownDefault login = Server.Site.portOrKnownDefault page := by
  have hport : ∀ url : Url, url.scheme ∈ ["http", "https"] →
      ∃ n : Nat, port url = n.repr ∧ Server.Site.portOrKnownDefault url = some n := by
    intro url hurl
    rw [port, Server.Site.portOrKnownDefault]
    cases url.port with
    | some n => exact ⟨n, rfl, rfl⟩
    | none =>
      rcases List.mem_pair.1 hurl with hscheme | hscheme
      · exact ⟨80, by rw [hscheme]; decide, by rw [hscheme]; decide⟩
      · exact ⟨443, by rw [hscheme]; decide, by rw [hscheme]; decide⟩
  obtain ⟨n, hweb, hserver⟩ := hport login hlogin
  obtain ⟨m, hweb', hserver'⟩ := hport page (hscheme ▸ hlogin)
  rw [hweb, hweb', hserver, hserver', Option.some.injEq]
  exact Nat.repr_inj

theorem registrable_domain {name : String} (h : isAddress name = false) :
    registrable psl name = Server.Site.registrable psl name := by
  rw [registrable, Server.Site.registrable, h]
  simp

theorem ite_false_eq_true {p : Prop} [Decidable p] {b : Bool} :
    (if p then false else b) = true ↔ ¬p ∧ b = true := by
  by_cases h : p <;> simp [h]

theorem ite_true_eq_true {p : Prop} [Decidable p] {b : Bool} :
    (if p then true else b) = true ↔ p ∨ b = true := by
  by_cases h : p <;> simp [h]

/-- When the extension says that a page belongs to a login. -/
theorem belongs_iff : belongs parser psl login page = true ↔ login.scheme = page.scheme ∧ port login = port page ∧
    (bare (hostname parser login) = bare (hostname parser page) ∨ login.scheme = "https" ∧
      isAddress (bare (hostname parser login)) = false ∧ isAddress (bare (hostname parser page)) = false ∧
      ∃ d, registrable psl (bare (hostname parser login)) = some d ∧
        registrable psl (bare (hostname parser page)) = some d) := by
  unfold belongs
  dsimp only
  generalize bare (hostname parser login) = a, bare (hostname parser page) = b
  have hsame : (decide (registrable psl a ≠ none) && decide (registrable psl a = registrable psl b)) = true ↔
      ∃ d, registrable psl a = some d ∧ registrable psl b = some d := by
    cases registrable psl a <;> simp [eq_comm]
  rw [ite_false_eq_true, ite_true_eq_true, ite_false_eq_true, hsame]
  simp only [not_or, ne_eq, not_not, Bool.not_eq_true, and_assoc]

/-- When the server says so of two names. -/
theorem server_domains {name name' : String} (h : login.host = some (.domain name))
    (h' : page.host = some (.domain name')) : Server.Site.belongs psl login page = true ↔
      login.scheme = page.scheme ∧
      Server.Site.portOrKnownDefault login = Server.Site.portOrKnownDefault page ∧
      (Server.Site.bare name = Server.Site.bare name' ∨ login.scheme = "https" ∧
        ∃ d, Server.Site.registrable psl (Server.Site.bare name) = some d ∧
          Server.Site.registrable psl (Server.Site.bare name') = some d) := by
  unfold Server.Site.belongs
  rw [h, h']
  dsimp only
  generalize Server.Site.bare name = a, Server.Site.bare name' = b
  rw [ite_false_eq_true, ite_true_eq_true, ite_false_eq_true]
  simp only [not_or, ne_eq, not_not, and_assoc]
  cases Server.Site.registrable psl a <;> cases Server.Site.registrable psl b <;> simp [eq_comm]

/-- When the server says so of hosts of which one is an address. -/
theorem server_addresses {host host' : UrlHost} (h : login.host = some host) (h' : page.host = some host')
    (haddress : (∀ name, host ≠ .domain name) ∨ ∀ name, host' ≠ .domain name) :
    Server.Site.belongs psl login page = true ↔ login.scheme = page.scheme ∧
      Server.Site.portOrKnownDefault login = Server.Site.portOrKnownDefault page ∧ host = host' := by
  unfold Server.Site.belongs
  rw [h, h', ite_false_eq_true]
  simp only [not_or, ne_eq, not_not, and_assoc]
  refine and_congr_right fun _ => and_congr_right fun _ => ?_
  cases host with
  | domain name =>
    cases host' with
    | domain name' => exact haddress.elim (fun h => absurd rfl (h name)) fun h => absurd rfl (h name')
    | ipv4 value => exact decide_eq_true_iff
    | ipv6 value => exact decide_eq_true_iff
  | ipv4 value => exact decide_eq_true_iff
  | ipv6 value => exact decide_eq_true_iff

/-- **The server and the extension say the same of two URLs.** -/
theorem belongs_eq (hparser : parser.Standard) (hlogin : Read parser login) (hpage : Read parser page) :
    belongs parser psl login page = Server.Site.belongs psl login page := by
  obtain ⟨text, htext⟩ := hlogin.text
  obtain ⟨text', htext'⟩ := hpage.text
  obtain ⟨host, hhost⟩ := Option.ne_none_iff_exists'.1 (hparser.host text login htext hlogin.scheme)
  obtain ⟨host', hhost'⟩ := Option.ne_none_iff_exists'.1 (hparser.host text' page htext' hpage.scheme)
  have hname : ∀ name, login.host = some (.domain name) → isAddress (bare name) = false := by
    intro name hname
    obtain ⟨hnumber, hbracket⟩ := hparser.domain text login name htext hname
    exact isAddress_domain hnumber hbracket
  have hname' : ∀ name, page.host = some (.domain name) → isAddress (bare name) = false := by
    intro name hname
    obtain ⟨hnumber, hbracket⟩ := hparser.domain text' page name htext' hname
    exact isAddress_domain hnumber hbracket
  have hhostname : hostname parser login = parser.hostText host := by rw [hostname, hhost, Option.elim_some]
  have hhostname' : hostname parser page = parser.hostText host' := by rw [hostname, hhost', Option.elim_some]
  rw [Bool.eq_iff_iff, belongs_iff, hhostname, hhostname']
  by_cases haddress : (∀ name, host ≠ .domain name) ∨ ∀ name, host' ≠ .domain name
  · rw [server_addresses hhost hhost' haddress]
    refine and_congr_right fun hscheme => and_congr (port_eq hlogin.scheme hscheme) ⟨?_, ?_⟩
    · rintro (hsame | ⟨-, hlogin, hpage, -⟩)
      · rcases haddress with haddress | haddress
        · exact address_of_text hparser haddress (fun name h => hname' name (h ▸ hhost')) hsame
        · exact (address_of_text hparser haddress (fun name h => hname name (h ▸ hhost)) hsame.symm).symm
      · rcases haddress with haddress | haddress
        · rw [isAddress_bare haddress] at hlogin
          cases hlogin
        · rw [isAddress_bare haddress] at hpage
          cases hpage
    · rintro rfl
      exact .inl rfl
  · simp only [not_or, not_forall, ne_eq, not_not] at haddress
    obtain ⟨⟨name, rfl⟩, name', rfl⟩ := haddress
    rw [server_domains hhost hhost']
    refine and_congr_right fun hscheme => and_congr (port_eq hlogin.scheme hscheme) ?_
    have hlogin := hname name hhost
    have hpage := hname' name' hhost'
    dsimp only [hostText]
    rw [registrable_domain hlogin, registrable_domain hpage, hlogin, hpage]
    simp only [true_and]
    rfl

/-! ## Texts -/

/-- What the parser is given of a trimmed text. -/
def given (trimmed : String) : Option String :=
  if trimmed = "" then none
  else some (if "://".toList <:+: trimmed.toList then trimmed else "https://" ++ trimmed)

/-- The URLs of the web that are read. -/
def readWeb (parser : UrlParser) (text : Option String) : Option Url :=
  (text.bind parser.parse).filter fun url => url.scheme ∈ ["http", "https"]

/-- What either side says, of what it gives the parser. -/
def answer (parser : UrlParser) (psl : String → Option String) (login page : Option String) : Bool :=
  match readWeb parser login, readWeb parser page with
  | some login, some page => Server.Site.belongs psl login page
  | _, _ => false

section
variable {loginUrl pageOrigin text : String}

theorem server_parse : Server.Site.parse parser text = readWeb parser (given (Text.trim text)) := by
  rw [Server.Site.parse, readWeb, given]
  dsimp only
  by_cases hempty : Text.trim text = ""
  · rw [if_pos hempty, if_pos hempty]
    rfl
  · rw [if_neg hempty, if_neg hempty]
    split <;> rfl

theorem web_parse : parse parser text = readWeb parser (given (trim text)) := by
  rw [parse, readWeb, given]
  by_cases hempty : trim text = ""
  · rw [if_pos hempty, if_pos hempty]
    rfl
  · rw [if_neg hempty, if_neg hempty, Option.bind_some]
    simp

theorem server_answer : Server.Site.siteMatches parser psl loginUrl pageOrigin =
    answer parser psl (given (Text.trim loginUrl)) (given (Text.trim pageOrigin)) := by
  rewrite [Server.Site.siteMatches, answer, server_parse, server_parse]
  rfl

theorem read_of_readWeb {given : Option String} {url : Url} (h : readWeb parser given = some url) :
    Read parser url := by
  obtain ⟨hread, hscheme⟩ := Option.filter_eq_some_iff.1 h
  obtain ⟨text, -, htext⟩ := Option.bind_eq_some_iff.1 hread
  exact ⟨⟨text, htext⟩, of_decide_eq_true hscheme⟩

theorem web_answer (hparser : parser.Standard) : siteMatches parser psl loginUrl pageOrigin =
    answer parser psl (given (trim loginUrl)) (given (trim pageOrigin)) := by
  rw [siteMatches, answer, web_parse, web_parse]
  cases hlogin : readWeb parser (given (trim loginUrl)) with
  | none => rfl
  | some login =>
    cases hpage : readWeb parser (given (trim pageOrigin)) with
    | none => rfl
    | some page => exact belongs_eq hparser (read_of_readWeb hlogin) (read_of_readWeb hpage)

end

/-! ## Parsers that read a few texts -/

section
variable {known : List String} {x y x' y' : Option String}

/-- A parser that takes the `known` texts for the same page. -/
def knows (known : List String) : UrlParser where
  parse text := if text ∈ known then some ⟨"https", some (.domain "example.com"), none⟩ else none
  ipv6Text value := value.toNat.repr

theorem knows_standard (known : List String) : (knows known).Standard := by
  have hparse : ∀ text url, (knows known).parse text = some url →
      url = ⟨"https", some (.domain "example.com"), none⟩ := by
    intro text url h
    by_cases hmem : text ∈ known
    · exact (Option.some.inj ((if_pos hmem).symm.trans h)).symm
    · cases (if_neg hmem).symm.trans h
  refine ⟨fun text url h _ => ?_, fun text url name h hname => ?_, fun value value' h => ?_⟩
  · rw [hparse text url h]
    exact Option.some_ne_none _
  · rw [hparse text url h] at hname
    cases hname
    have hlabel : 'c' ∈ lastLabel "example.com".toList := by decide
    exact ⟨fun h => absurd (h.2 'c' hlabel) (by decide), by decide⟩
  · exact BitVec.eq_of_toNat_eq (Nat.repr_inj.1 h)

theorem answer_knows : answer (knows known) psl x y = true ↔
    (∃ s ∈ known, x = some s) ∧ ∃ s ∈ known, y = some s := by
  have hread : ∀ x : Option String, readWeb (knows known) x =
      if ∃ s ∈ known, x = some s then some ⟨"https", some (.domain "example.com"), none⟩ else none := by
    intro x
    cases x with
    | none => rw [if_neg (by simp)]; rfl
    | some s =>
      by_cases hmem : s ∈ known
      · rw [if_pos ⟨s, hmem, rfl⟩, readWeb, Option.bind_some, knows]
        simp [hmem]
      · rw [if_neg (by simpa using hmem), readWeb, Option.bind_some, knows]
        simp [hmem]
  rw [answer, hread x, hread y]
  by_cases hx : ∃ s ∈ known, x = some s
  · rw [if_pos hx, iff_true_intro hx, true_and]
    by_cases hy : ∃ s ∈ known, y = some s
    · rw [if_pos hy]
      exact iff_of_true (server_domains rfl rfl |>.2 ⟨rfl, rfl, .inl rfl⟩) hy
    · rw [if_neg hy]
      exact iff_of_false Bool.false_ne_true hy
  · rw [if_neg hx]
    exact iff_of_false Bool.false_ne_true fun h => hx h.1

/-- Texts of which every parser makes the same are the same texts, in one order or the other. -/
theorem given_eq (h : ∀ known, answer (knows known) psl x y = answer (knows known) psl x' y') :
    ((x = none ∨ y = none) ∧ (x' = none ∨ y' = none)) ∨ (x = x' ∧ y = y') ∨ (x = y' ∧ y = x') := by
  have hknows : ∀ known : List String, ((∃ s ∈ known, x = some s) ∧ ∃ s ∈ known, y = some s) ↔
      (∃ s ∈ known, x' = some s) ∧ ∃ s ∈ known, y' = some s := by
    intro known
    rw [← answer_knows, ← answer_knows, h known]
  cases x with
  | none =>
    refine .inl ⟨.inl rfl, ?_⟩
    cases x' with
    | none => exact .inl rfl
    | some s =>
      cases y' with
      | none => exact .inr rfl
      | some t => simpa using hknows [s, t]
  | some s =>
    cases y with
    | none =>
      refine .inl ⟨.inr rfl, ?_⟩
      cases x' with
      | none => exact .inl rfl
      | some s' =>
        cases y' with
        | none => exact .inr rfl
        | some t' => simpa using hknows [s', t']
    | some t =>
      have hst := hknows [s, t]
      cases x' with
      | none => simp at hst
      | some s' =>
        cases y' with
        | none => simp at hst
        | some t' =>
          have hst' := hknows [s', t']
          simp only [List.mem_cons, List.not_mem_nil, or_false, Option.some.injEq, exists_eq_right'] at hst hst'
          grind

end

/-! ## Trimming -/

section
variable {loginUrl pageOrigin text s t : String}

theorem toList_trim : (Text.trim text).toList = Trim.trimBy Text.isWhitespace text.toList :=
  String.toList_ofList

theorem toList_webTrim : (trim text).toList = Trim.trimBy isWhitespace text.toList := String.toList_ofList

/-- What either side takes off. -/
def isBlank (c : Char) : Bool := Text.isWhitespace c || isWhitespace c

theorem clean_isBlank {l : List Char} (h : Trim.Clean Text.isWhitespace l) (h' : Trim.Clean isWhitespace l) :
    Trim.Clean isBlank l :=
  ⟨fun c hc => Bool.or_eq_false_iff.2 ⟨h.head c hc, h'.head c hc⟩,
    fun c hc => Bool.or_eq_false_iff.2 ⟨h.last c hc, h'.last c hc⟩⟩

theorem clean_trim (text : String) : Trim.Clean Text.isWhitespace (Text.trim text).toList := by
  rw [toList_trim]
  exact Trim.clean_trimBy

theorem clean_webTrim (text : String) : Trim.Clean isWhitespace (trim text).toList := by
  rw [toList_webTrim]
  exact Trim.clean_trimBy

theorem trim_eq_of_clean (h : Trim.Clean isBlank (Text.trim text).toList)
    (h' : Trim.Clean isBlank (trim text).toList) : Text.trim text = trim text := by
  rw [toList_trim] at h
  rw [toList_webTrim] at h'
  have hp : ∀ c, Text.isWhitespace c = true → isBlank c = true := fun c hc => Bool.or_eq_true_iff.2 (.inl hc)
  have hq : ∀ c, isWhitespace c = true → isBlank c = true := fun c hc => Bool.or_eq_true_iff.2 (.inr hc)
  exact congrArg String.ofList (Trim.trimBy_eq_of_clean hp hq h h')

/-- A scheme before a text leaves its end as it is. -/
theorem clean_scheme {p : Char → Bool} (hp : p 'h' = false) (hs : s ≠ "") (h : Trim.Clean p s.toList) :
    Trim.Clean p ("https://" ++ s).toList := by
  rw [String.toList_append]
  refine ⟨fun c hc => ?_, fun c hc => h.last c ?_⟩
  · rw [← Option.some.inj hc]
    exact hp
  · rwa [List.getLast?_append_of_ne_nil _ fun hnil => hs (String.toList_eq_nil_iff.1 hnil)] at hc

/-- Both sides see the same scheme separators. -/
theorem separator_trim (text : String) : "://".toList <:+: (Text.trim text).toList ↔ "://".toList <:+: (trim text).toList := by
  have hserver : ∀ c ∈ "://".toList, Text.isWhitespace c = false := by decide
  have hweb : ∀ c ∈ "://".toList, isWhitespace c = false := by decide
  have hne : "://".toList ≠ [] := by simp
  rw [toList_trim, toList_webTrim, Trim.infix_trimBy hne hserver, Trim.infix_trimBy hne hweb]

theorem given_some (hs : s ≠ "") : given s = some (if "://".toList <:+: s.toList then s else "https://" ++ s) :=
  if_neg hs

theorem given_inj (hflag : "://".toList <:+: s.toList ↔ "://".toList <:+: t.toList) (h : given s = given t) :
    s = t := by
  by_cases hs : s = ""
  · by_cases ht : t = ""
    · rw [hs, ht]
    · rw [given_some ht, given, if_pos hs] at h
      cases h
  · by_cases ht : t = ""
    · rw [given_some hs, given, if_pos ht] at h
      cases h
    · rw [given_some hs, given_some ht, Option.some.injEq] at h
      by_cases hseparator : "://".toList <:+: s.toList
      · rwa [if_pos hseparator, if_pos (hflag.1 hseparator)] at h
      · rw [if_neg hseparator, if_neg fun h => hseparator (hflag.2 h)] at h
        exact (String.append_right_inj _).1 h

theorem given_eq_none (h : given s = none) : s = "" := by
  by_contra hs
  rw [given_some hs] at h
  cases h

theorem trim_eq_of_same (h : Text.trim loginUrl = trim pageOrigin) (h' : Text.trim pageOrigin = trim loginUrl) :
    Text.trim loginUrl = trim loginUrl ∧ Text.trim pageOrigin = trim pageOrigin := by
  have hserver := clean_isBlank (clean_trim loginUrl) (h ▸ clean_webTrim pageOrigin)
  have hweb := clean_isBlank (h' ▸ clean_trim pageOrigin) (clean_webTrim loginUrl)
  have hlogin := trim_eq_of_clean hserver hweb
  exact ⟨hlogin, (h'.trans hlogin.symm).trans h⟩

/-- A text with a scheme next to one without, each given as the other one is. -/
theorem trim_eq_of_mixed (h : Text.trim loginUrl = "https://" ++ trim pageOrigin)
    (h' : trim loginUrl = "https://" ++ Text.trim pageOrigin) (hpage : Text.trim pageOrigin ≠ "")
    (hpage' : trim pageOrigin ≠ "") :
    Text.trim loginUrl = trim loginUrl ∧ Text.trim pageOrigin = trim pageOrigin := by
  have hserver := clean_isBlank (clean_trim loginUrl)
    (h ▸ clean_scheme (by decide) hpage' (clean_webTrim pageOrigin))
  have hweb := clean_isBlank (h' ▸ clean_scheme (by decide) hpage (clean_trim pageOrigin))
    (clean_webTrim loginUrl)
  have hlogin := trim_eq_of_clean hserver hweb
  refine ⟨hlogin, ?_⟩
  rw [h, h'] at hlogin
  exact ((String.append_right_inj _).1 hlogin).symm

/-- Texts that are given to the parser the other way round are trimmed alike. -/
theorem trim_eq_of_crossed (h : given (Text.trim loginUrl) = given (trim pageOrigin))
    (h' : given (Text.trim pageOrigin) = given (trim loginUrl)) (hlogin : Text.trim loginUrl ≠ "")
    (hpage : Text.trim pageOrigin ≠ "") :
    Text.trim loginUrl = trim loginUrl ∧ Text.trim pageOrigin = trim pageOrigin := by
  have hlogin' : trim loginUrl ≠ "" := by
    intro hempty
    rw [hempty] at h'
    exact hpage (given_eq_none h')
  have hpage' : trim pageOrigin ≠ "" := by
    intro hempty
    rw [hempty] at h
    exact hlogin (given_eq_none h)
  have hl := separator_trim loginUrl
  have hp := separator_trim pageOrigin
  by_cases hflag : "://".toList <:+: (Text.trim loginUrl).toList ↔ "://".toList <:+: (Text.trim pageOrigin).toList
  · exact trim_eq_of_same (given_inj (hflag.trans hp) h) (given_inj (hflag.symm.trans hl) h')
  · rw [given_some hlogin, given_some hpage', Option.some.injEq, ← if_congr hp rfl rfl] at h
    rw [given_some hpage, given_some hlogin', Option.some.injEq, ← if_congr hl rfl rfl] at h'
    by_cases hseparator : "://".toList <:+: (Text.trim loginUrl).toList
    · have hnone : ¬"://".toList <:+: (Text.trim pageOrigin).toList := fun hsome =>
        hflag (iff_of_true hseparator hsome)
      rw [if_pos hseparator, if_neg hnone] at h
      rw [if_pos hseparator, if_neg hnone] at h'
      exact trim_eq_of_mixed h h'.symm hpage hpage'
    · have hsome : "://".toList <:+: (Text.trim pageOrigin).toList := by
        by_contra hnone
        exact hflag (iff_of_false hseparator hnone)
      rw [if_neg hseparator, if_pos hsome] at h
      rw [if_neg hseparator, if_pos hsome] at h'
      exact (trim_eq_of_mixed h' h.symm hlogin hlogin').symm

end

/-- **When both sides say the same, whatever URLs they read.** -/
theorem siteMatches_alike (loginUrl pageOrigin : String) :
    (∀ parser psl, UrlParser.Standard parser → siteMatches parser psl loginUrl pageOrigin =
        Server.Site.siteMatches parser psl loginUrl pageOrigin) ↔
      ((Text.trim loginUrl = "" ∨ Text.trim pageOrigin = "") ∧ (trim loginUrl = "" ∨ trim pageOrigin = "")) ∨
      (Text.trim loginUrl = trim loginUrl ∧ Text.trim pageOrigin = trim pageOrigin) := by
  constructor
  · intro h
    have hknows : ∀ known, answer (knows known) some (given (Text.trim loginUrl)) (given (Text.trim pageOrigin)) =
        answer (knows known) some (given (trim loginUrl)) (given (trim pageOrigin)) := by
      intro known
      rw [← server_answer, ← web_answer (knows_standard known)]
      exact (h (knows known) some (knows_standard known)).symm
    rcases given_eq hknows with ⟨hserver, hweb⟩ | ⟨hlogin, hpage⟩ | ⟨hlogin, hpage⟩
    · exact .inl ⟨hserver.imp given_eq_none given_eq_none, hweb.imp given_eq_none given_eq_none⟩
    · exact .inr ⟨given_inj (separator_trim loginUrl) hlogin, given_inj (separator_trim pageOrigin) hpage⟩
    · by_cases hempty : Text.trim loginUrl = "" ∨ Text.trim pageOrigin = ""
      · refine .inl ⟨hempty, ?_⟩
        rcases hempty with hempty | hempty
        · rw [hempty] at hlogin
          exact .inr (given_eq_none hlogin.symm)
        · rw [hempty] at hpage
          exact .inl (given_eq_none hpage.symm)
      · rw [not_or] at hempty
        exact .inr (trim_eq_of_crossed hlogin hpage hempty.1 hempty.2)
  · intro h parser psl hparser
    rw [web_answer hparser, server_answer]
    rcases h with ⟨hserver, hweb⟩ | ⟨hlogin, hpage⟩
    · have hnone : ∀ {s t : String}, s = "" ∨ t = "" → answer parser psl (given s) (given t) = false := by
        rintro s t (rfl | rfl)
        · rfl
        · rw [answer]
          cases readWeb parser (given s) <;> rfl
      rw [hnone hserver, hnone hweb]
    · rw [hlogin, hpage]

/-- A parser that reads one page. -/
theorem byte_order_mark : UrlParser.Standard (knows ["https://example.com"]) ∧
    siteMatches (knows ["https://example.com"]) some "\uFEFFhttps://example.com" "https://example.com" = true ∧
    Server.Site.siteMatches (knows ["https://example.com"]) some "\uFEFFhttps://example.com"
      "https://example.com" = false := by
  refine ⟨knows_standard _, ?_, ?_⟩
  · decide
  · decide

end Web.Site

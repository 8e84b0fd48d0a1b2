import RemoteHub.Connector.Proof.Texts

/-!
# Which addresses a network contains

A mask of `length` bits keeps the first `length` bits and no others, also where the shift would take all of
them (`getMsbD_mask`), so `contains` compares these of addresses of one family (`contains_iff`). Both
sides are canonical: an IPv6 address that stands for an IPv4 one (`mapped`) is that one.
-/

namespace Connector

open Net

/-- `Ipv4Addr::to_ipv6_mapped`. -/
def mapped (value : BitVec 32) : BitVec 128 := .ofNat 128 (0xffff * 2 ^ 32 + value.toNat)

theorem toIpv4Mapped_mapped (value : BitVec 32) : IpAddr.toIpv4Mapped (mapped value) = some value := by
  have hlt := value.isLt
  have hnum : (mapped value).toNat = 0xffff * 2 ^ 32 + value.toNat := by
    rw [mapped, BitVec.toNat_ofNat]
    omega
  have hdiv : (0xffff * 2 ^ 32 + value.toNat) / 2 ^ 32 = 0xffff := by omega
  have hmod : BitVec.ofNat 32 (0xffff * 2 ^ 32 + value.toNat) = value := by
    apply BitVec.eq_of_toNat_eq
    rw [BitVec.toNat_ofNat]
    omega
  rw [IpAddr.toIpv4Mapped, hnum, if_pos hdiv, hmod]

@[simp] theorem toCanonical_mapped (value : BitVec 32) : (IpAddr.v6 (mapped value)).toCanonical = .v4 value := by
  rw [IpAddr.toCanonical, toIpv4Mapped_mapped]
  rfl

/-- The two addresses are of one family and their first `n` bits are equal. -/
def Agree (n : Nat) : IpAddr → IpAddr → Prop
  | .v4 a, .v4 b => ∀ i < n, a.getMsbD i = b.getMsbD i
  | .v6 a, .v6 b => ∀ i < n, a.getMsbD i = b.getMsbD i
  | _, _ => False

namespace Network

variable {network : Network} {text : String}

theorem getMsbD_mask {w n : Nat} (h : n ≤ w) (i : Nat) : (mask w (w - n)).getMsbD i = decide (i < n) := by
  unfold mask
  split
  · rw [BitVec.getMsbD_shiftLeft, BitVec.getMsbD_allOnes]
    congr 1
    rw [eq_iff_iff]
    omega
  · have hn : ¬i < n := by omega
    rw [decide_eq_false hn]
    exact BitVec.getMsbD_zero

theorem and_mask_eq_iff {w n : Nat} (h : n ≤ w) (a b : BitVec w) :
    a &&& mask w (w - n) = b &&& mask w (w - n) ↔ ∀ i < n, a.getMsbD i = b.getMsbD i := by
  constructor
  · intro heq i hi
    have hbit := congrArg (·.getMsbD i) heq
    simpa only [BitVec.getMsbD_and, getMsbD_mask h, hi, decide_true, Bool.and_true] using hbit
  · intro hbits
    refine BitVec.eq_of_getMsbD_eq fun i _ => ?_
    rw [BitVec.getMsbD_and, BitVec.getMsbD_and, getMsbD_mask h]
    by_cases hi : i < n
    · rw [hbits i hi]
    · rw [decide_eq_false hi, Bool.and_false, Bool.and_false]

/-- **A network contains the addresses that begin like its own.** -/
theorem contains_iff (network : Network) (ip : IpAddr) :
    network.contains ip = true ↔ Agree network.length network.address ip.toCanonical := by
  obtain ⟨address, length, hbounded⟩ := network
  unfold contains
  dsimp only
  cases address <;> cases ip.toCanonical
  · exact decide_eq_true_iff.trans (and_mask_eq_iff hbounded _ _)
  · exact ⟨Bool.false_ne_true, False.elim⟩
  · exact ⟨Bool.false_ne_true, False.elim⟩
  · exact decide_eq_true_iff.trans (and_mask_eq_iff hbounded _ _)

/-- The text in front of the first `/`. -/
def addressPart (text : String) : String := .ofList (text.toList.takeWhile (· ≠ '/'))

theorem addressPart_eq (text : String) :
    addressPart text = ((Text.splitOnce '/' text).map (·.1)).getD text := by
  rw [addressPart, Text.splitOnce, List.span_eq_takeWhile_dropWhile]
  cases hrest : text.toList.dropWhile (· ≠ '/') with
  | nil =>
    have hall := List.takeWhile_append_dropWhile (p := (· ≠ '/')) (l := text.toList)
    rw [hrest, List.append_nil] at hall
    rw [hall, String.ofList_toList]
    rfl
  | cons c rest => rfl

/-- What is in front of the `/` is read, and taken for the IPv4 address it may stand for. -/
theorem address_of_parse (h : parse text = some network) :
    ∃ ip, IpAddr.parse (addressPart text) = some ip ∧ network.address = ip.toCanonical := by
  rw [addressPart_eq]
  unfold parse at h
  cases hsplit : Text.splitOnce '/' text with
  | none =>
    rw [hsplit] at h
    obtain ⟨ip, hip, h⟩ := Option.bind_eq_some_iff.1 h
    obtain ⟨length, -, h⟩ := Option.bind_eq_some_iff.1 h
    split at h
    · cases h
      exact ⟨ip, hip, rfl⟩
    · cases h
  | some parts =>
    rw [hsplit] at h
    obtain ⟨ip, hip, h⟩ := Option.bind_eq_some_iff.1 h
    obtain ⟨length, -, h⟩ := Option.bind_eq_some_iff.1 h
    split at h
    · cases h
      exact ⟨ip, hip, rfl⟩
    · cases h

/-- **What a network that was read contains**: the addresses of its family that begin with its first
`length` bits, which are at most as many as an address has. Addresses that stand for IPv4 ones are these,
in the text as in the question, and the network is read from its own text again. -/
theorem contains_of_parse (h : parse text = some network) :
    network.length ≤ bits network.address ∧
    (∀ ip, network.contains ip = true ↔ Agree network.length network.address ip.toCanonical) ∧
    (∀ value, network.contains (.v6 (mapped value)) = network.contains (.v4 value)) ∧
    (∃ ip, IpAddr.parse (addressPart text) = some ip ∧ network.address = ip.toCanonical) ∧
    (∀ value, network.address ≠ .v6 (mapped value)) ∧
    parse network.toText = some network := by
  have hcanonical := canonical_of_parse h
  refine ⟨network.bounded, network.contains_iff, fun value => ?_, address_of_parse h, fun value hvalue => ?_,
    parse_toText hcanonical⟩
  · rw [Bool.eq_iff_iff, contains_iff, contains_iff, toCanonical_mapped]
    rfl
  · rw [hvalue, toCanonical_mapped] at hcanonical
    cases hcanonical

theorem contains_of_parse_mapped : ∃ network, parse "::ffff:10.1.0.0/16" = some network ∧
    network.toText = "10.1.0.0/16" ∧ network.contains (.v6 (mapped 0x0a01ffff)) = true ∧
    parse network.toText = some network := by
  have hparse : parse "::ffff:10.1.0.0/16" = some ⟨.v4 0x0a010000, 16, by decide⟩ := by decide +kernel
  obtain ⟨-, -, hmapped, -, -, htext⟩ := contains_of_parse hparse
  exact ⟨_, hparse, by decide, (hmapped _).trans (by decide), htext⟩

end Network

end Connector

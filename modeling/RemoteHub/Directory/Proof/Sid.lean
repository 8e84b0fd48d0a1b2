import Mathlib.Order.Basic
import RemoteHub.Directory.Sid
import RemoteHub.Lib.Split

/-!
# The forms of a SID

An `Identity` is what a SID names: an authority and sub-authorities. `Identity.bytes` is its binary form
and `Identity.text` the text that `from_bytes` makes of it (`fromBytes_bytes`). Every accepted text is
another spelling of such a text at most (`exists_of_parse`), and `to_bytes` reads all spellings alike
(`toBytes_eq`); the one that `from_bytes` gives back has plain numbers (`text_eq_iff`).
-/

namespace Directory

open Digits Text

/-! ## Sub-authorities -/

theorem map_toNat_ofNat {l : List Nat} (h : ∀ d ∈ l, d < 256) :
    (l.map UInt8.ofNat).map UInt8.toNat = l := by
  rw [List.map_map]
  refine (List.map_congr_left fun d hd => ?_).trans (List.map_id l)
  exact Nat.mod_eq_of_lt (h d hd)

theorem map_ofNat_toNat (bytes : Bytes) : (bytes.map UInt8.toNat).map UInt8.ofNat = bytes := by
  rw [List.map_map]
  exact (List.map_congr_left fun b _ => UInt8.ofNat_toNat).trans (List.map_id bytes)

theorem toNat_lt (bytes : Bytes) : ∀ d ∈ bytes.map UInt8.toNat, d < 256 := by
  intro d hd
  obtain ⟨b, -, rfl⟩ := List.mem_map.1 hd
  exact b.toNat_lt

/-- Bytes are the digits of their number. -/
theorem digits_bytes (bytes : Bytes) :
    (digits 256 bytes.length (ofDigits 256 (bytes.map UInt8.toNat))).map UInt8.ofNat = bytes := by
  have h := digits_ofDigits (toNat_lt bytes)
  rw [List.length_map] at h
  rw [h, map_ofNat_toNat]

/-- A number is that of its bytes. -/
theorem ofDigits_bytes {w n : Nat} (h : n < 256 ^ w) :
    ofDigits 256 (((digits 256 w n).map UInt8.ofNat).map UInt8.toNat) = n := by
  rw [map_toNat_ofNat fun d hd => mem_digits_lt (by decide) hd, ofDigits_digits h]

namespace Sid

@[simp] theorem length_toLeBytes (n : Nat) : (toLeBytes n).length = 4 := by
  simp [toLeBytes]

theorem fromLeBytes_toLeBytes {n : Nat} (h : n < 2 ^ 32) : fromLeBytes (toLeBytes n) = n := by
  rw [fromLeBytes, toLeBytes, ← List.map_reverse, List.reverse_reverse]
  exact ofDigits_bytes (h.trans_eq (by decide))

theorem toLeBytes_fromLeBytes {bytes : Bytes} (h : bytes.length = 4) :
    toLeBytes (fromLeBytes bytes) = bytes := by
  have hdigits := digits_bytes bytes.reverse
  rw [List.length_reverse, h] at hdigits
  rw [toLeBytes, fromLeBytes, List.map_reverse, hdigits, List.reverse_reverse]

theorem fromLeBytes_lt {bytes : Bytes} (h : bytes.length = 4) : fromLeBytes bytes < 2 ^ 32 := by
  have hlt := ofDigits_lt (toNat_lt bytes.reverse)
  rw [List.length_map, List.length_reverse, h] at hlt
  exact hlt.trans_eq (by decide)

theorem chunks_append {part rest : Bytes} (h : part.length = 4) :
    chunks (part ++ rest) = part :: chunks rest := by
  obtain ⟨a, b, c, d, rfl⟩ : ∃ a b c d, part = [a, b, c, d] := by
    match part, h with
    | [a, b, c, d], _ => exact ⟨a, b, c, d, rfl⟩
  rfl

theorem chunks_flatMap (subs : List Nat) : chunks (subs.flatMap toLeBytes) = subs.map toLeBytes := by
  induction subs with
  | nil => rfl
  | cons sub subs ih =>
    rw [List.flatMap_cons, chunks_append (length_toLeBytes sub), ih, List.map_cons]

/-- A list of `k` sub-authorities has `k` chunks of four bytes. -/
theorem chunks_spec {k : Nat} {bytes : Bytes} (h : bytes.length = 4 * k) :
    (chunks bytes).length = k ∧ (∀ chunk ∈ chunks bytes, chunk.length = 4) ∧
      (chunks bytes).flatten = bytes := by
  induction k generalizing bytes with
  | zero =>
    rw [List.eq_nil_of_length_eq_zero h]
    exact ⟨rfl, fun chunk hchunk => absurd hchunk List.not_mem_nil, rfl⟩
  | succ k ih =>
    have hlen : (bytes.take 4).length = 4 := by
      rw [List.length_take]
      omega
    have hrest : (bytes.drop 4).length = 4 * k := by
      rw [List.length_drop]
      omega
    obtain ⟨hlength, hfour, hflat⟩ := ih hrest
    rw [← List.take_append_drop 4 bytes, chunks_append hlen]
    refine ⟨by rw [List.length_cons, hlength], ?_, by rw [List.flatten_cons, hflat]⟩
    intro chunk hchunk
    rcases List.mem_cons.1 hchunk with rfl | hchunk
    · exact hlen
    · exact hfour chunk hchunk

end Sid

/-! ## Identities -/

/-- What a SID names. -/
structure Identity where
  authority : Nat
  subs : List Nat
  authority_lt : authority < 2 ^ 48
  subs_lt : ∀ sub ∈ subs, sub < 2 ^ 32

namespace Identity

variable (i : Identity)

def bytes : Bytes :=
  [1, .ofNat i.subs.length] ++ (digits 256 6 i.authority).map UInt8.ofNat ++
    i.subs.flatMap Sid.toLeBytes

def text : String :=
  i.subs.foldl (fun sid sub => sid ++ "-" ++ sub.repr) ("S-1-" ++ i.authority.repr)

theorem toList_foldl (subs : List Nat) (s : String) :
    (subs.foldl (fun sid sub => sid ++ "-" ++ sub.repr) s).toList =
      s.toList ++ (subs.map fun sub => Nat.toDigits 10 sub).flatMap ('-' :: ·) := by
  induction subs generalizing s with
  | nil => simp
  | cons sub subs ih => simp [ih, Nat.toList_repr]

theorem toList_text :
    i.text.toList = ['S'] ++
      (['1'] :: Nat.toDigits 10 i.authority :: i.subs.map fun sub => Nat.toDigits 10 sub).flatMap
        ('-' :: ·) := by
  rw [text, toList_foldl, String.toList_append, Nat.toList_repr]
  simp

theorem hyphen_notMem (n : Nat) : '-' ∉ Nat.toDigits 10 n := by
  intro h
  exact absurd (Nat.isDigit_of_mem_toDigits (by decide) (by decide) h) (by decide)

theorem split_text :
    split '-' i.text = "S" :: "1" :: i.authority.repr :: i.subs.map Nat.repr := by
  rw [split, toList_text, pieces_joined (by decide)]
  · simp [Nat.repr_eq_ofList_toDigits]
  · intro p hp
    rcases List.mem_cons.1 hp with rfl | hp
    · decide
    · rcases List.mem_cons.1 hp with rfl | hp
      · exact hyphen_notMem _
      · obtain ⟨sub, -, rfl⟩ := List.mem_map.1 hp
        exact hyphen_notMem sub

end Identity

namespace Sid

variable {i : Identity} {bytes : Bytes} {sid : Sid} {s authority : String} {subs : List String}

/-- `from_bytes` reads the binary form of an identity. -/
theorem fromBytes_bytes (h : i.subs.length < 256) : fromBytes i.bytes = some ⟨i.text⟩ := by
  have hcount : (UInt8.ofNat i.subs.length).toNat = i.subs.length := Nat.mod_eq_of_lt h
  have hsix : ((digits 256 6 i.authority).map UInt8.ofNat).length = 6 := by simp
  have hsubs : (i.subs.flatMap toLeBytes).length = 4 * i.subs.length := by
    rw [List.length_flatMap, List.map_congr_left fun sub _ => length_toLeBytes sub]
    simp [Nat.mul_comm]
  have hread : (i.subs.map toLeBytes).map fromLeBytes = i.subs := by
    rw [List.map_map]
    refine (List.map_congr_left fun sub hsub => ?_).trans (List.map_id _)
    rw [Function.comp_apply, fromLeBytes_toLeBytes (i.subs_lt sub hsub), id]
  have hlen : ((digits 256 6 i.authority).map UInt8.ofNat ++ i.subs.flatMap toLeBytes).length =
      6 + 4 * i.subs.length := by rw [List.length_append, hsix, hsubs]
  rw [Identity.bytes, List.append_assoc, List.cons_append, List.cons_append, List.nil_append, fromBytes,
    if_neg (by rw [hlen, hcount]; simp), List.take_left' hsix, List.drop_left' hsix, chunks_flatMap,
    hread, ofDigits_bytes (i.authority_lt.trans_eq (by decide))]
  rfl

/-- Whatever it reads is one. -/
theorem exists_of_fromBytes (h : fromBytes bytes = some sid) :
    ∃ i : Identity, i.subs.length = (bytes.getD 1 0).toNat ∧ bytes = i.bytes ∧ sid = ⟨i.text⟩ := by
  match bytes, h with
  | revision :: count :: rest, h =>
    simp only [fromBytes] at h
    split at h
    · cases h
    · rename_i hvalid
      rw [not_or, not_not, not_not] at hvalid
      obtain ⟨rfl, hlen⟩ := hvalid
      have hrest : (rest.drop 6).length = 4 * count.toNat := by
        rw [List.length_drop]
        omega
      obtain ⟨hlength, hfour, hflat⟩ := chunks_spec hrest
      have hsix : (rest.take 6).length = 6 := by
        rw [List.length_take]
        omega
      have hlt := ofDigits_lt (toNat_lt (rest.take 6))
      rw [List.length_map, hsix] at hlt
      refine ⟨⟨ofDigits 256 ((rest.take 6).map UInt8.toNat), (chunks (rest.drop 6)).map fromLeBytes,
        hlt.trans_eq (by decide), ?_⟩, by rw [List.length_map, hlength]; rfl, ?_, ?_⟩
      · intro sub hsub
        obtain ⟨chunk, hchunk, rfl⟩ := List.mem_map.1 hsub
        exact fromLeBytes_lt (hfour chunk hchunk)
      · have hauthority := digits_bytes (rest.take 6)
        rw [hsix] at hauthority
        have hsubs : ((chunks (rest.drop 6)).map fromLeBytes).flatMap toLeBytes = rest.drop 6 := by
          rw [List.flatMap_map]
          refine (List.flatMap_congr fun chunk hchunk => toLeBytes_fromLeBytes (hfour chunk hchunk)).trans ?_
          rw [List.flatMap_id', hflat]
        rw [Identity.bytes, hauthority, hsubs, List.length_map, hlength, UInt8.ofNat_toNat,
          List.append_assoc, List.take_append_drop]
        rfl
      · exact (Option.some.inj h).symm

/-- `to_bytes` reads the numbers of a text, however they are spelt. -/
theorem toBytes_eq (hsplit : split '-' s = "S" :: "1" :: authority :: subs)
    (hauthority : parseUnsigned (2 ^ 64 - 1) authority = some i.authority)
    (hsubs : subs.map (parseUnsigned (2 ^ 32 - 1)) = i.subs.map some) :
    toBytes ⟨s⟩ = i.bytes := by
  have hread : subs.filterMap (parseUnsigned (2 ^ 32 - 1)) = i.subs := by
    have hmap := congrArg (List.filterMap id) hsubs
    rw [List.filterMap_map, List.filterMap_map] at hmap
    simpa using hmap
  have hdrop : ("S" :: "1" :: authority :: subs).drop 2 = authority :: subs := rfl
  rw [toBytes, hsplit, hdrop, List.head?_cons, List.tail_cons, Option.bind_some, hauthority,
    Option.getD_some, hread, drop_digits 256 2 6]
  rfl

theorem toBytes_text (i : Identity) : toBytes ⟨i.text⟩ = i.bytes := by
  refine toBytes_eq i.split_text (parseUnsigned_repr ?_) ?_
  · have := i.authority_lt
    omega
  · rw [List.map_map]
    refine List.map_congr_left fun sub hsub => parseUnsigned_repr ?_
    have := i.subs_lt sub hsub
    omega

theorem map_eq_of_isSome {α β : Type} {f : α → Option β} {l : List α} (h : ∀ a ∈ l, (f a).isSome = true) :
    l.map f = (l.filterMap f).map some := by
  induction l with
  | nil => rfl
  | cons a l ih =>
    obtain ⟨b, hb⟩ := Option.isSome_iff_exists.1 (h a List.mem_cons_self)
    rw [List.map_cons, List.filterMap_cons_some hb, List.map_cons, hb,
      ih fun a ha => h a (List.mem_cons_of_mem _ ha)]

/-- An accepted text spells an identity of at most 15 sub-authorities. -/
theorem exists_of_parse (h : parse s = some sid) :
    sid = ⟨s⟩ ∧ ∃ (i : Identity) (authority : String) (subs : List String),
      i.subs.length ≤ 15 ∧ split '-' s = "S" :: "1" :: authority :: subs ∧
      parseUnsigned (2 ^ 64 - 1) authority = some i.authority ∧
      subs.map (parseUnsigned (2 ^ 32 - 1)) = i.subs.map some := by
  simp only [parse] at h
  split at h
  · cases h
  rename_i hhead
  rw [not_or, not_not, not_not] at hhead
  split at h
  · cases h
  rename_i authority subs hdrop
  split at h
  swap
  · cases h
  rename_i hvalid
  obtain ⟨hcount, hauthority, hsubs⟩ := hvalid
  obtain ⟨n, hn, hlt⟩ := (Option.any_eq_true _ _).1 hauthority
  rw [decide_eq_true_eq] at hlt
  refine ⟨(Option.some.inj h).symm, ⟨n, subs.filterMap (parseUnsigned (2 ^ 32 - 1)), hlt, ?_⟩,
    authority, subs, ?_, ?_, hn, ?_⟩
  · intro m hm
    obtain ⟨sub, -, hsub⟩ := List.mem_filterMap.1 hm
    have := parseUnsigned_le hsub
    omega
  · have := List.length_filterMap_le (parseUnsigned (2 ^ 32 - 1)) subs
    rw [List.length_cons] at hcount
    show (subs.filterMap (parseUnsigned (2 ^ 32 - 1))).length ≤ 15
    omega
  · obtain ⟨h0, h1⟩ := hhead
    match hparts : split '-' s, h0, h1 with
    | a :: b :: rest, h0, h1 =>
      rw [hparts] at hdrop
      cases h0
      cases h1
      exact congrArg ("S" :: "1" :: ·) hdrop
  · exact map_eq_of_isSome (List.all_eq_true.1 hsubs)

/-- The text of an identity is accepted if it has no more than 15 sub-authorities. -/
theorem parse_text (i : Identity) : parse i.text = some ⟨i.text⟩ ↔ i.subs.length ≤ 15 := by
  constructor
  · intro h
    obtain ⟨-, j, authority, subs, hlen, hsplit, -, hsubs⟩ := exists_of_parse h
    rw [i.split_text] at hsplit
    have hmap : i.subs.map Nat.repr = subs := by
      simp only [List.cons.injEq] at hsplit
      exact hsplit.2.2.2
    have hlength := congrArg List.length hsubs
    rw [List.length_map, List.length_map, ← hmap, List.length_map] at hlength
    omega
  · intro h
    have hauthority : parseUnsigned (2 ^ 64 - 1) i.authority.repr = some i.authority := by
      have := i.authority_lt
      exact parseUnsigned_repr (by omega)
    have hdrop : ("S" :: "1" :: i.authority.repr :: i.subs.map Nat.repr).drop 2 =
        i.authority.repr :: i.subs.map Nat.repr := rfl
    simp only [parse]
    rw [i.split_text, if_neg (by simp), hdrop]
    refine if_pos ⟨by rw [List.length_cons, List.length_map]; omega, ?_, ?_⟩
    · rw [hauthority, Option.any_some, decide_eq_true_eq]
      exact i.authority_lt
    · rw [List.all_eq_true]
      intro number hnumber
      obtain ⟨sub, hsub, rfl⟩ := List.mem_map.1 hnumber
      have := i.subs_lt sub hsub
      rw [parseUnsigned_repr (by omega)]
      rfl

/-- The numbers of a text: the authority and the sub-authorities. -/
def numbers (s : String) : List String := (split '-' s).drop 2

/-- The spelling that `from_bytes` gives is the plain one. -/
theorem text_eq_iff (hsplit : split '-' s = "S" :: "1" :: authority :: subs)
    (hauthority : parseUnsigned (2 ^ 64 - 1) authority = some i.authority)
    (hsubs : subs.map (parseUnsigned (2 ^ 32 - 1)) = i.subs.map some) :
    s = i.text ↔ ∀ number ∈ numbers s, plainNumber number = true := by
  have hnumbers : numbers s = authority :: subs := by
    rw [numbers, hsplit]
    rfl
  rw [split_inj (c := '-'), hsplit, i.split_text, hnumbers, List.forall_mem_cons,
    plainNumber_iff hauthority, ← plainNumbers_iff hsubs]
  simp

/-! ## There and back -/

/-- What `from_bytes` reads is written back, and accepted as a text if there are not too many
sub-authorities. -/
theorem of_fromBytes (h : fromBytes bytes = some sid) :
    sid.toBytes = bytes ∧ (parse sid.text = some sid ↔ (bytes.getD 1 0).toNat ≤ 15) := by
  obtain ⟨i, hcount, rfl, rfl⟩ := exists_of_fromBytes h
  refine ⟨toBytes_text i, ?_⟩
  rw [← hcount]
  exact parse_text i

/-- An accepted text comes back from its bytes if its numbers are plain. -/
theorem of_parse (h : parse s = some sid) :
    fromBytes sid.toBytes = some sid ↔ ∀ number ∈ numbers s, plainNumber number = true := by
  obtain ⟨rfl, i, authority, subs, hlen, hsplit, hauthority, hsubs⟩ := exists_of_parse h
  rw [toBytes_eq hsplit hauthority hsubs, fromBytes_bytes (by omega),
    ← text_eq_iff hsplit hauthority hsubs, Option.some.injEq, mk.injEq, eq_comm]

/-- **The forms of a SID agree** where there are at most 15 sub-authorities and the numbers of a text
are plain, and nowhere else: a binary form with more makes a text that is refused, and a text with
another spelling does not come back. -/
theorem forms_agree (bytes : List UInt8) (s s' : String) :
    (∀ sid, fromBytes bytes = some sid →
      (sid.toBytes = bytes ∧ parse sid.text = some sid ↔ (bytes.getD 1 0).toNat ≤ 15)) ∧
    (∀ sid, parse s = some sid →
      (fromBytes sid.toBytes = some sid ↔ ∀ number ∈ numbers s, plainNumber number = true)) ∧
    ∀ sid sid', parse s = some sid → parse s' = some sid' →
      (∀ number ∈ numbers s, plainNumber number = true) →
      (∀ number ∈ numbers s', plainNumber number = true) →
      sid.toBytes = sid'.toBytes → sid = sid' := by
  refine ⟨fun sid h => ?_, fun sid h => of_parse h, fun sid sid' h h' hs hs' heq => ?_⟩
  · obtain ⟨hbytes, htext⟩ := of_fromBytes h
    rw [htext]
    exact and_iff_right hbytes
  · have hsid := (of_parse h).2 hs
    rw [heq, (of_parse h').2 hs'] at hsid
    exact (Option.some.inj hsid).symm

theorem forms_agree_authenticated_users :
    (toBytes ⟨"S-1-5-11"⟩ = [1, 1, 0, 0, 0, 0, 0, 5, 11, 0, 0, 0] ∧
        parse "S-1-5-11" = some ⟨"S-1-5-11"⟩) ∧
      fromBytes (toBytes ⟨"S-1-5-11"⟩) = some ⟨"S-1-5-11"⟩ :=
  have hforms := forms_agree [1, 1, 0, 0, 0, 0, 0, 5, 11, 0, 0, 0] "S-1-5-11" "S-1-5-11"
  ⟨(hforms.1 ⟨"S-1-5-11"⟩ (by decide)).2 (by decide),
    (hforms.2.1 ⟨"S-1-5-11"⟩ (by decide)).2 (by decide)⟩

/-- Two spellings of one identity are both accepted, and only one of them is what the directory gives;
of sixteen sub-authorities the directory gives a text that is refused. -/
theorem spelt_twice :
    parse "S-1-5-21" = some ⟨"S-1-5-21"⟩ ∧ parse "S-1-5-021" = some ⟨"S-1-5-021"⟩ ∧
      toBytes ⟨"S-1-5-021"⟩ = toBytes ⟨"S-1-5-21"⟩ ∧
      fromBytes (toBytes ⟨"S-1-5-021"⟩) ≠ some ⟨"S-1-5-021"⟩ ∧
      ∃ sid, fromBytes ([1, 16, 0, 0, 0, 0, 0, 5] ++ List.replicate 64 0) = some sid ∧
        parse sid.text = none := by
  refine ⟨by decide, by decide, by decide, by decide,
    ⟨"S-1-5-0-0-0-0-0-0-0-0-0-0-0-0-0-0-0-0"⟩, by decide, by decide⟩

end Sid

end Directory

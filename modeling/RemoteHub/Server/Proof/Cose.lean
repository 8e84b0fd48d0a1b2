import Mathlib.Logic.Relation
import RemoteHub.Server.Cose

/-!
# What the reader of COSE keys takes

`Reads r bs r'`: from `r` to `r'` the reader took the bytes `bs`, which stand there in its data. Each
of its operations takes the bytes of one item (`next_eq_some` and the ones after it), in whichever form
they write it, and the loop those of the entries (`entries_eq_some`). `coseEs256_eq_some` says of which
bytes there is a key.
-/

namespace Server.Webauthn

open DataItem

variable {r r' r'' : Cbor} {bs cs : Bytes} {b : UInt8} {major n : Nat} {i label : Int} {v : Value}
  {p p' : Parts} {es : List (Int × Value)}

structure Reads (r : Cbor) (bs : Bytes) (r' : Cbor) : Prop where
  data : r'.data = r.data
  pos : r'.pos = r.pos + bs.length
  taken : r.data.drop r.pos = bs ++ r.data.drop r'.pos
  within : r'.pos ≤ r.data.length

namespace Reads

theorem refl (h : r.pos ≤ r.data.length) : Reads r [] r := ⟨rfl, rfl, rfl, h⟩

theorem trans (h : Reads r bs r') (h' : Reads r' cs r'') : Reads r (bs ++ cs) r'' where
  data := h'.data.trans h.data
  pos := by rw [h'.pos, h.pos, List.length_append, Nat.add_assoc]
  taken := by
    have htaken := h'.taken
    rw [h.data] at htaken
    rw [h.taken, htaken, List.append_assoc]
  within := h.data ▸ h'.within

theorem eq (h : Reads r bs r') : r' = ⟨r.data, r.pos + bs.length⟩ := by
  cases r'
  rw [← h.data, ← h.pos]

/-- What is taken in one piece can be taken in two. -/
theorem split (bs cs : Bytes) (h : Reads r (bs ++ cs) r'') : ∃ r', Reads r bs r' ∧ Reads r' cs r'' := by
  have hpos := h.pos
  rw [List.length_append] at hpos
  have hrest : r.data.drop (r.pos + bs.length) = cs ++ r.data.drop r''.pos := by
    rw [← List.drop_drop, h.taken, List.append_assoc, List.drop_left]
  refine ⟨⟨r.data, r.pos + bs.length⟩, ⟨rfl, rfl, ?_, ?_⟩, ⟨h.data, ?_, hrest, h.within⟩⟩
  · rw [hrest, h.taken, List.append_assoc]
  · exact Nat.le_trans (Nat.le_add_right _ cs.length) (Nat.add_assoc .. ▸ hpos ▸ h.within)
  · rw [hpos, Nat.add_assoc]

theorem of_append (bs cs ds : Bytes) :
    Reads ⟨bs ++ (cs ++ ds), bs.length⟩ cs ⟨bs ++ (cs ++ ds), (bs ++ cs).length⟩ where
  data := rfl
  pos := List.length_append
  taken := by
    rw [List.drop_left, ← List.append_assoc bs cs ds, List.drop_left]
  within := by
    rw [← List.append_assoc bs cs ds]
    exact (List.prefix_append (bs ++ cs) ds).length_le

end Reads

/-! ## One item -/

theorem byte_eq_some : r.byte = some (b, r') ↔ Reads r [b] r' := by
  simp only [Cbor.byte, Option.bind_eq_bind, Option.bind_eq_some_iff, Option.pure_def,
    Option.some.injEq, Prod.mk.injEq]
  constructor
  · rintro ⟨b, hb, rfl, rfl⟩
    obtain ⟨hlt, hget⟩ := List.getElem?_eq_some_iff.1 hb
    exact ⟨rfl, rfl, hget ▸ List.drop_eq_getElem_cons hlt, hlt⟩
  · intro h
    refine ⟨b, ?_, rfl, h.eq.symm⟩
    rw [← Nat.add_zero r.pos, ← List.getElem?_drop, h.taken]
    rfl

theorem take_eq_some : r.take n = some (bs, r') ↔ bs.length = n ∧ Reads r bs r' := by
  rw [Cbor.take]
  constructor
  · intro h
    split at h
    case isFalse => cases h
    case isTrue hle =>
      cases h
      have hlength : ((r.data.drop r.pos).take n).length = n := by
        rw [List.length_take, List.length_drop]
        omega
      refine ⟨hlength, rfl, congrArg _ hlength.symm, ?_, hle⟩
      rw [← List.drop_drop, List.take_append_drop]
  · rintro ⟨rfl, h⟩
    have hwithin := h.within
    rw [h.pos] at hwithin
    rw [if_pos hwithin, h.taken, List.take_left, h.eq]

theorem toNat_shiftRight_five (b : UInt8) : (b >>> 5).toNat = b.toNat / 32 := by
  rw [UInt8.toNat_shiftRight, Nat.shiftRight_eq_div_pow]
  rfl

theorem toNat_and_31 (b : UInt8) : (b &&& 0x1f).toNat = b.toNat % 32 :=
  (UInt8.toNat_and b 0x1f).trans (Nat.and_two_pow_sub_one_eq_mod b.toNat 5)

/-- The first byte of a head has the type in its top three bits. -/
theorem eq_ofNat (b : UInt8) : b = .ofNat (32 * (b >>> 5).toNat + (b &&& 0x1f).toNat) := by
  rw [toNat_shiftRight_five, toNat_and_31, Nat.div_add_mod, UInt8.ofNat_toNat]

theorem ofNat_parts (hmajor : major < 8) (hn : n < 32) :
    (UInt8.ofNat (32 * major + n) >>> 5).toNat = major ∧
      (UInt8.ofNat (32 * major + n) &&& 0x1f).toNat = n := by
  have hnat : (UInt8.ofNat (32 * major + n)).toNat = 32 * major + n :=
    UInt8.toNat_ofNat_of_lt' (by change _ < 256; omega)
  rw [toNat_shiftRight_five, toNat_and_31, hnat]
  omega

theorem next_eq_some : r.next = some ((major, n), r') ↔
    major < 8 ∧ ∃ h, Head major n h ∧ Reads r h r' := by
  simp only [Cbor.next, Option.bind_eq_bind, Option.bind_eq_some_iff, Option.pure_def, Prod.exists,
    byte_eq_some]
  constructor
  · rintro ⟨first, r₁, hfirst, h⟩
    have hmajor : (first >>> 5).toNat < 8 := by
      have := first.toNat_lt
      rw [toNat_shiftRight_five]
      omega
    have hbyte := eq_ofNat first
    split_ifs at h with hshort hone htwo
    · cases h
      rw [hbyte] at hfirst
      exact ⟨hmajor, _, .here (Nat.lt_succ_of_le hshort), hfirst⟩
    · simp only [Option.bind_eq_some_iff, Prod.exists, byte_eq_some, Option.some.injEq,
        Prod.mk.injEq] at h
      obtain ⟨a, r₂, ha, ⟨rfl, rfl⟩, rfl⟩ := h
      rw [hbyte, hone] at hfirst
      exact ⟨hmajor, _, .one a, hfirst.trans ha⟩
    · simp only [Option.bind_eq_some_iff, Prod.exists, byte_eq_some, Option.some.injEq,
        Prod.mk.injEq] at h
      obtain ⟨a, r₂, ha, b, r₃, hb, ⟨rfl, rfl⟩, rfl⟩ := h
      rw [hbyte, htwo] at hfirst
      exact ⟨hmajor, _, .two a b, (hfirst.trans ha).trans hb⟩
  · rintro ⟨hmajor, h, hhead, hreads⟩
    cases hhead with
    | here hn =>
      obtain ⟨hmajor', hinfo⟩ := ofNat_parts hmajor (Nat.lt_trans hn (by decide))
      refine ⟨_, r', hreads, ?_⟩
      rw [hinfo, hmajor', if_pos (Nat.le_of_lt_succ hn)]
    | one a =>
      obtain ⟨hmajor', hinfo⟩ := ofNat_parts hmajor (n := 24) (by decide)
      obtain ⟨r₁, hfirst, ha⟩ := hreads.split [_] _
      refine ⟨_, r₁, hfirst, ?_⟩
      rw [hinfo, hmajor', if_neg (by decide), if_pos rfl, byte_eq_some.2 ha]
      rfl
    | two a b =>
      obtain ⟨hmajor', hinfo⟩ := ofNat_parts hmajor (n := 25) (by decide)
      obtain ⟨r₁, hfirst, hrest⟩ := hreads.split [_] _
      obtain ⟨r₂, ha, hb⟩ := hrest.split [_] _
      refine ⟨_, r₁, hfirst, ?_⟩
      rw [hinfo, hmajor', if_neg (by decide), if_neg (by decide), if_pos rfl, byte_eq_some.2 ha,
        Option.bind_some, byte_eq_some.2 hb]
      rfl

theorem head_eq_some : Cbor.head major r = some (n, r') ↔
    major < 8 ∧ ∃ h, Head major n h ∧ Reads r h r' := by
  rw [← next_eq_some]
  simp only [Cbor.head, Option.bind_eq_bind, Option.bind_eq_some_iff, Option.pure_def, Prod.exists,
    Option.ite_none_right_eq_some, Option.some.injEq, Prod.mk.injEq]
  constructor
  · rintro ⟨_, _, _, hnext, rfl, rfl, rfl⟩
    exact hnext
  · intro hnext
    exact ⟨_, _, _, hnext, rfl, rfl, rfl⟩

theorem int_eq_some : r.int = some (i, r') ↔ ∃ bs, Item (.int i) bs ∧ Reads r bs r' := by
  simp only [Cbor.int, Option.bind_eq_bind, Option.bind_eq_some_iff, Option.pure_def, Prod.exists]
  constructor
  · rintro ⟨major, n, r₁, hnext, h⟩
    obtain ⟨-, bs, hhead, hreads⟩ := next_eq_some.1 hnext
    split at h
    · cases h
      exact ⟨bs, .positive hhead, hreads⟩
    · cases h
      exact ⟨bs, .negative hhead, hreads⟩
    · cases h
  · rintro ⟨bs, hitem, hreads⟩
    cases hitem with
    | positive hhead => exact ⟨0, _, r', next_eq_some.2 ⟨by decide, bs, hhead, hreads⟩, rfl⟩
    | negative hhead => exact ⟨1, _, r', next_eq_some.2 ⟨by decide, bs, hhead, hreads⟩, rfl⟩

theorem bytes_eq_some : r.bytes = some (cs, r') ↔ ∃ bs, Item (.bytes cs) bs ∧ Reads r bs r' := by
  simp only [Cbor.bytes, Option.bind_eq_bind, Option.bind_eq_some_iff, Prod.exists, head_eq_some,
    take_eq_some]
  constructor
  · rintro ⟨_, r₁, ⟨-, h, hhead, hreads⟩, rfl, htake⟩
    exact ⟨_, .bytes hhead, hreads.trans htake⟩
  · rintro ⟨bs, hitem, hreads⟩
    cases hitem with
    | bytes hhead =>
      obtain ⟨r₁, hhead', htake⟩ := hreads.split _ _
      exact ⟨_, r₁, ⟨by decide, _, hhead, hhead'⟩, rfl, htake⟩

theorem skip_eq_some : r.skip = some r' ↔ ∃ v bs, Item v bs ∧ Reads r bs r' := by
  simp only [Cbor.skip, Option.bind_eq_bind, Option.bind_eq_some_iff, Option.pure_def, Prod.exists]
  constructor
  · rintro ⟨major, n, r₁, hnext, h⟩
    obtain ⟨-, bs, hhead, hreads⟩ := next_eq_some.1 hnext
    split at h
    · cases h
      exact ⟨_, bs, .positive hhead, hreads⟩
    · cases h
      exact ⟨_, bs, .negative hhead, hreads⟩
    · obtain ⟨⟨cs, _⟩, htake, rfl⟩ := Option.map_eq_some_iff.1 h
      obtain ⟨rfl, hpiece⟩ := take_eq_some.1 htake
      exact ⟨_, _, .bytes hhead, hreads.trans hpiece⟩
    · obtain ⟨⟨cs, _⟩, htake, rfl⟩ := Option.map_eq_some_iff.1 h
      obtain ⟨rfl, hpiece⟩ := take_eq_some.1 htake
      exact ⟨_, _, .text hhead, hreads.trans hpiece⟩
    · cases h
  · rintro ⟨v, bs, hitem, hreads⟩
    cases hitem with
    | positive hhead => exact ⟨0, _, r', next_eq_some.2 ⟨by decide, bs, hhead, hreads⟩, rfl⟩
    | negative hhead => exact ⟨1, _, r', next_eq_some.2 ⟨by decide, bs, hhead, hreads⟩, rfl⟩
    | @bytes h b hhead =>
      obtain ⟨r₁, hhead', htake⟩ := hreads.split _ _
      exact ⟨2, _, r₁, next_eq_some.2 ⟨by decide, _, hhead, hhead'⟩,
        Option.map_eq_some_iff.2 ⟨(b, r'), take_eq_some.2 ⟨rfl, htake⟩, rfl⟩⟩
    | @text h b hhead =>
      obtain ⟨r₁, hhead', htake⟩ := hreads.split _ _
      exact ⟨3, _, r₁, next_eq_some.2 ⟨by decide, _, hhead, hhead'⟩,
        Option.map_eq_some_iff.2 ⟨(b, r'), take_eq_some.2 ⟨rfl, htake⟩, rfl⟩⟩

/-! ## The entries -/

def intOf : Value → Option Int
  | .int i => some i
  | _ => none

def bytesOf : Value → Option Bytes
  | .bytes b => some b
  | _ => none

/-- What an entry adds to the parts; none where the value is of the wrong kind. -/
def Parts.add (p : Parts) (e : Int × Value) : Option Parts :=
  match e.1 with
  | 1 => (intOf e.2).map fun kty => { p with kty := some kty }
  | 3 => (intOf e.2).map fun alg => { p with alg := some alg }
  | -1 => (intOf e.2).map fun crv => { p with crv := some crv }
  | -2 => (bytesOf e.2).map fun x => { p with x := some x }
  | -3 => (bytesOf e.2).map fun y => { p with y := some y }
  | _ => some p

theorem map_int_eq_some (f : Int → Parts) :
    (r.int.map fun q => (f q.1, q.2)) = some (p', r') ↔
      ∃ v bs, Item v bs ∧ Reads r bs r' ∧ (intOf v).map f = some p' := by
  rw [Option.map_eq_some_iff]
  constructor
  · rintro ⟨⟨i, r₁⟩, hint, heq⟩
    cases heq
    obtain ⟨bs, hitem, hreads⟩ := int_eq_some.1 hint
    exact ⟨_, bs, hitem, hreads, rfl⟩
  · rintro ⟨v, bs, hitem, hreads, hmap⟩
    obtain ⟨i, hi, rfl⟩ := Option.map_eq_some_iff.1 hmap
    cases v with
    | int i' =>
      cases hi
      exact ⟨(i, r'), int_eq_some.2 ⟨bs, hitem, hreads⟩, rfl⟩
    | bytes b => cases hi
    | text b => cases hi

theorem map_bytes_eq_some (f : Bytes → Parts) :
    (r.bytes.map fun q => (f q.1, q.2)) = some (p', r') ↔
      ∃ v bs, Item v bs ∧ Reads r bs r' ∧ (bytesOf v).map f = some p' := by
  rw [Option.map_eq_some_iff]
  constructor
  · rintro ⟨⟨b, r₁⟩, hbytes, heq⟩
    cases heq
    obtain ⟨bs, hitem, hreads⟩ := bytes_eq_some.1 hbytes
    exact ⟨_, bs, hitem, hreads, rfl⟩
  · rintro ⟨v, bs, hitem, hreads, hmap⟩
    obtain ⟨b, hb, rfl⟩ := Option.map_eq_some_iff.1 hmap
    cases v with
    | int i => cases hb
    | bytes b' =>
      cases hb
      exact ⟨(b, r'), bytes_eq_some.2 ⟨bs, hitem, hreads⟩, rfl⟩
    | text b' => cases hb

theorem value_eq_some : value label r p = some (p', r') ↔
    ∃ v bs, Item v bs ∧ Reads r bs r' ∧ p.add (label, v) = some p' := by
  unfold value
  split
  · exact map_int_eq_some fun kty => { p with kty := some kty }
  · exact map_int_eq_some fun alg => { p with alg := some alg }
  · exact map_int_eq_some fun crv => { p with crv := some crv }
  · exact map_bytes_eq_some fun x => { p with x := some x }
  · exact map_bytes_eq_some fun y => { p with y := some y }
  · next hkty halg hcrv hx hy =>
    have hadd (v : Value) : p.add (label, v) = some p := by
      unfold Parts.add
      split <;> trivial
    simp only [Option.map_eq_some_iff, Prod.mk.injEq, Option.some.injEq, skip_eq_some, hadd]
    constructor
    · rintro ⟨r', ⟨v, bs, hitem, hreads⟩, rfl, rfl⟩
      exact ⟨v, bs, hitem, hreads, rfl⟩
    · rintro ⟨v, bs, hitem, hreads, rfl⟩
      exact ⟨r', ⟨v, bs, hitem, hreads⟩, rfl, rfl⟩

/-- The loop takes the entries one after the other. -/
theorem entries_eq_some (hwithin : r.pos ≤ r.data.length) : entries n r p = some (p', r') ↔
    ∃ es bs, es.length = n ∧ Entries es bs ∧ Reads r bs r' ∧ es.foldlM Parts.add p = some p' := by
  induction n generalizing r p with
  | zero =>
    rw [entries]
    constructor
    · intro h
      cases h
      exact ⟨[], [], rfl, .nil, .refl hwithin, rfl⟩
    · rintro ⟨es, bs, hlength, hentries, hreads, hp⟩
      cases List.length_eq_zero_iff.1 hlength
      cases hentries
      cases hp
      rw [hreads.eq]
      rfl
  | succ n ih =>
    simp only [entries, Option.bind_eq_bind, Option.bind_eq_some_iff, Prod.exists, int_eq_some,
      value_eq_some]
    constructor
    · rintro ⟨label, r₁, ⟨k, hlabel, hk⟩, p₁, r₂, ⟨v, b, hvalue, hb, hadd⟩, h⟩
      have hread := hk.trans hb
      obtain ⟨es, bs, rfl, hentries, hbs, hp⟩ := (ih (hread.data ▸ hread.within)).1 h
      refine ⟨(label, v) :: es, _, rfl, .cons hlabel hvalue hentries, hread.trans hbs, ?_⟩
      rw [List.foldlM_cons, hadd]
      exact hp
    · rintro ⟨es, bs, hlength, hentries, hreads, hp⟩
      cases hentries with
      | nil => cases hlength
      | @cons label v es k b bs hlabel hvalue hentries =>
        obtain ⟨r₂, hread, hbs⟩ := hreads.split _ _
        obtain ⟨r₁, hk, hb⟩ := hread.split _ _
        rw [List.foldlM_cons] at hp
        obtain ⟨p₁, hadd, hp⟩ := Option.bind_eq_some_iff.1 hp
        refine ⟨label, r₁, ⟨k, hlabel, hk⟩, p₁, r₂, ⟨v, b, hvalue, hb, hadd⟩, ?_⟩
        exact (ih (hread.data ▸ hread.within)).2
          ⟨es, bs, Nat.succ.inj hlength, hentries, hbs, hp⟩

/-- The kind of value a label that the loop knows must have. -/
def Fits (e : Int × Value) : Prop :=
  (e.1 = 1 ∨ e.1 = 3 ∨ e.1 = -1 → (intOf e.2).isSome) ∧
    (e.1 = -2 ∨ e.1 = -3 → (bytesOf e.2).isSome)

/-- The parts of a map: for each what it says last. -/
def parts (es : List (Int × Value)) : Parts where
  kty := (last 1 es).bind intOf
  alg := (last 3 es).bind intOf
  crv := (last (-1) es).bind intOf
  x := (last (-2) es).bind bytesOf
  y := (last (-3) es).bind bytesOf

theorem parts_add (e : Int × Value) :
    (parts es).add e = some p ↔ Fits e ∧ parts (es ++ [e]) = p := by
  obtain ⟨label, v⟩ := e
  unfold Parts.add
  dsimp only
  split
  · cases v <;> simp [Fits, parts, last_append_singleton, intOf]
  · cases v <;> simp [Fits, parts, last_append_singleton, intOf]
  · cases v <;> simp [Fits, parts, last_append_singleton, intOf]
  · cases v <;> simp [Fits, parts, last_append_singleton, bytesOf]
  · cases v <;> simp [Fits, parts, last_append_singleton, bytesOf]
  · next hkty halg hcrv hx hy =>
    have hparts : parts (es ++ [(label, v)]) = parts es := by
      simp [parts, last_append_singleton, Ne.symm hkty, Ne.symm halg, Ne.symm hcrv, Ne.symm hx,
        Ne.symm hy]
    have hfit : Fits (label, v) :=
      ⟨fun h => absurd h (by tauto), fun h => absurd h (by tauto)⟩
    simp [hfit, hparts]

theorem foldlM_add : es.foldlM Parts.add .none = some p ↔ (∀ e ∈ es, Fits e) ∧ parts es = p := by
  induction es using List.reverseRecOn generalizing p with
  | nil => simp [parts, last, Parts.none]
  | append_singleton es e ih =>
    simp only [List.foldlM_append, Option.bind_eq_bind, Option.bind_eq_some_iff, ih,
      List.foldlM_cons, List.foldlM_nil, List.mem_append, List.mem_singleton]
    constructor
    · rintro ⟨_, ⟨hfits, rfl⟩, q, hadd, hp⟩
      cases hp
      obtain ⟨hfit, hparts⟩ := (parts_add e).1 hadd
      refine ⟨fun e' he' => ?_, hparts⟩
      rcases he' with he' | rfl
      · exact hfits e' he'
      · exact hfit
    · rintro ⟨hfits, rfl⟩
      exact ⟨parts es, ⟨fun e' he' => hfits e' (.inl he'), rfl⟩, _,
        (parts_add e).2 ⟨hfits e (.inr rfl), rfl⟩, rfl⟩

/-! ## The key -/

/-- A map that is the key with the coordinates `x` and `y`. -/
structure IsKey (es : List (Int × Value)) (x y : Bytes) : Prop where
  fits : ∀ e ∈ es, Fits e
  lastKty : last 1 es = some (.int 2)
  lastAlg : last 3 es = some (.int es256)
  lastCrv : last (-1) es = some (.int 1)
  lastX : last (-2) es = some (.bytes x)
  lastY : last (-3) es = some (.bytes y)
  lengthX : x.length = 32
  lengthY : y.length = 32

theorem bind_intOf {o : Option Value} : o.bind intOf = some i ↔ o = some (.int i) := by
  cases o with
  | none => simp
  | some v => cases v <;> simp [intOf]

theorem bind_bytesOf {o : Option Value} : o.bind bytesOf = some bs ↔ o = some (.bytes bs) := by
  cases o with
  | none => simp
  | some v => cases v <;> simp [bytesOf]

theorem coseEs256_eq_some (c : Crates) (cose point : Bytes) :
    coseEs256 c cose = some point ↔ ∃ es h bs rest x y, cose = h ++ (bs ++ rest) ∧
      Head 5 es.length h ∧ Entries es bs ∧ IsKey es x y ∧ c.isKey (4 :: (x ++ y)) ∧
      point = 4 :: (x ++ y) := by
  simp only [coseEs256, Option.bind_eq_bind, Option.bind_eq_some_iff, Prod.exists, head_eq_some]
  constructor
  · rintro ⟨n, r, ⟨-, h, hhead, hr⟩, p, r', hentries, hkey⟩
    obtain ⟨es, bs, rfl, hes, hr', hp⟩ := (entries_eq_some (hr.data ▸ hr.within)).1 hentries
    obtain ⟨hfits, rfl⟩ := foldlM_add.1 hp
    have hcose := (hr.trans hr').taken
    split at hkey
    case isTrue => cases hkey
    case isFalse hnumbers =>
      obtain ⟨hkty, halg, hcrv⟩ := by simpa using hnumbers
      simp only [Option.bind_eq_some_iff, Option.ite_none_left_eq_some,
        Option.ite_none_right_eq_some, Option.some.injEq] at hkey
      obtain ⟨x, hx, y, hy, hlength, hpoint, rfl⟩ := hkey
      obtain ⟨hlengthX, hlengthY⟩ := not_or.1 hlength
      refine ⟨es, h, bs, cose.drop r'.pos, x, y, ?_, hhead, hes, ?_, hpoint, rfl⟩
      · rw [← List.append_assoc]
        exact hcose
      · exact {
          fits := hfits
          lastKty := bind_intOf.1 hkty
          lastAlg := bind_intOf.1 halg
          lastCrv := bind_intOf.1 hcrv
          lastX := bind_bytesOf.1 hx
          lastY := bind_bytesOf.1 hy
          lengthX := not_not.1 hlengthX
          lengthY := not_not.1 hlengthY }
  · rintro ⟨es, h, bs, rest, x, y, rfl, hhead, hentries, hkey, hpoint, rfl⟩
    have hr := Reads.of_append [] h (bs ++ rest)
    have hr' := Reads.of_append h bs rest
    refine ⟨es.length, _, ⟨by decide, h, hhead, hr⟩, parts es, _,
      (entries_eq_some hr.within).2 ⟨es, bs, rfl, hentries, hr', foldlM_add.2 ⟨hkey.fits, rfl⟩⟩, ?_⟩
    rw [if_neg]
    · simp only [Option.bind_eq_some_iff]
      refine ⟨x, bind_bytesOf.2 hkey.lastX, y, bind_bytesOf.2 hkey.lastY, ?_⟩
      rw [if_neg (not_or.2 ⟨not_not.2 hkey.lengthX, not_not.2 hkey.lengthY⟩), if_pos hpoint]
    · rw [not_not, Prod.mk.injEq, Prod.mk.injEq]
      exact ⟨bind_intOf.2 hkey.lastKty, bind_intOf.2 hkey.lastAlg, bind_intOf.2 hkey.lastCrv⟩

/-! ## Where the reader stands -/

/-- One look at the data: at a byte, or at a piece. -/
def Step (r r' : Cbor) : Prop :=
  (∃ b, r.byte = some (b, r')) ∨ ∃ n bs, r.take n = some (bs, r')

theorem step_iff : Step r r' ↔ ∃ bs, Reads r bs r' := by
  constructor
  · rintro (⟨b, h⟩ | ⟨n, bs, h⟩)
    · exact ⟨[b], byte_eq_some.1 h⟩
    · exact ⟨bs, (take_eq_some.1 h).2⟩
  · rintro ⟨bs, h⟩
    exact .inr ⟨bs.length, bs, take_eq_some.2 ⟨rfl, h⟩⟩

/-- The reader stays in what it was given. -/
theorem within_of_steps {cose : Bytes} (h : Relation.ReflTransGen Step ⟨cose, 0⟩ r) :
    r.data = cose ∧ r.pos ≤ cose.length := by
  induction h with
  | refl => exact ⟨rfl, Nat.zero_le _⟩
  | tail _ hstep ih =>
    obtain ⟨bs, hreads⟩ := step_iff.1 hstep
    exact ⟨hreads.data.trans ih.1, ih.1 ▸ hreads.within⟩

theorem entries_steps {cose : Bytes} (hhead : Cbor.head 5 ⟨cose, 0⟩ = some (n, r)) {m : Nat}
    (h : entries m r .none = some (p, r')) : Relation.ReflTransGen Step ⟨cose, 0⟩ r' := by
  obtain ⟨-, hd, -, hreads⟩ := head_eq_some.1 hhead
  obtain ⟨-, bs, -, -, hreads', -⟩ := (entries_eq_some (hreads.data ▸ hreads.within)).1 h
  exact .single (step_iff.2 ⟨_, hreads.trans hreads'⟩)

/-! ## A map that is a key -/

theorem fits_of_mem {e : Int × Value} {x y : Bytes} (hnodup : (es.map Prod.fst).Nodup)
    (hkty : (1, .int 2) ∈ es) (halg : (3, .int es256) ∈ es) (hcrv : (-1, .int 1) ∈ es)
    (hx : (-2, .bytes x) ∈ es) (hy : (-3, .bytes y) ∈ es) (he : e ∈ es) : Fits e := by
  have heq (v : Value) (hmem : (e.1, v) ∈ es) : e.2 = v :=
    Option.some.inj ((last_of_mem hnodup he).symm.trans (last_of_mem hnodup hmem))
  constructor
  · rintro (h | h | h)
    · rw [heq _ (h ▸ hkty)]
      rfl
    · rw [heq _ (h ▸ halg)]
      rfl
    · rw [heq _ (h ▸ hcrv)]
      rfl
  · rintro (h | h)
    · rw [heq _ (h ▸ hx)]
      rfl
    · rw [heq _ (h ▸ hy)]
      rfl

theorem isKey_of_mem {x y : Bytes} (hnodup : (es.map Prod.fst).Nodup)
    (hkty : (1, .int 2) ∈ es) (halg : (3, .int es256) ∈ es) (hcrv : (-1, .int 1) ∈ es)
    (hx : (-2, .bytes x) ∈ es) (hy : (-3, .bytes y) ∈ es) (hlengthX : x.length = 32)
    (hlengthY : y.length = 32) : IsKey es x y where
  fits _ := fits_of_mem hnodup hkty halg hcrv hx hy
  lastKty := last_of_mem hnodup hkty
  lastAlg := last_of_mem hnodup halg
  lastCrv := last_of_mem hnodup hcrv
  lastX := last_of_mem hnodup hx
  lastY := last_of_mem hnodup hy
  lengthX := hlengthX
  lengthY := hlengthY

/-- The reader stays within the bytes it is given; a map with the five entries of a key, in its
shortest form and with each label once, gives the key's point; and a point is 65 bytes from the
coordinates the map says last. -/
theorem coseEs256_exact (c : Crates) (cose : Bytes) :
    (∀ r, Relation.ReflTransGen Step ⟨cose, 0⟩ r → r.data = cose ∧ r.pos ≤ cose.length) ∧
    (∀ n r, Cbor.head 5 ⟨cose, 0⟩ = some (n, r) → ∀ m p r', entries m r .none = some (p, r') →
      Relation.ReflTransGen Step ⟨cose, 0⟩ r') ∧
    (∀ es x y, es.length ≤ 65535 → (∀ e ∈ es, (Value.int e.1).Small ∧ e.2.Small) →
      (es.map Prod.fst).Nodup → (1, .int 2) ∈ es → (3, .int es256) ∈ es → (-1, .int 1) ∈ es →
      (-2, .bytes x) ∈ es → (-3, .bytes y) ∈ es → x.length = 32 → y.length = 32 →
      c.isKey (4 :: (x ++ y)) → cose = head 5 es.length ++ DataItem.entries es →
      coseEs256 c cose = some (4 :: (x ++ y))) ∧
    ∀ point, coseEs256 c cose = some point → point.length = 65 ∧
      ∃ es h bs rest x y, cose = h ++ (bs ++ rest) ∧ Head 5 es.length h ∧ Entries es bs ∧
        last (-2) es = some (.bytes x) ∧ last (-3) es = some (.bytes y) ∧
        x.length = 32 ∧ y.length = 32 ∧ point = 4 :: (x ++ y) := by
  refine ⟨fun r => within_of_steps, fun n r hhead m p r' => entries_steps hhead, ?_, ?_⟩
  · intro es x y hlength hsmall hnodup hkty halg hcrv hx hy hlengthX hlengthY hpoint hcose
    refine (coseEs256_eq_some c cose _).2 ⟨es, _, _, [], x, y, ?_, .head (by omega),
      .entries hsmall, ?_, hpoint, rfl⟩
    · rw [List.append_nil, hcose]
    · exact isKey_of_mem hnodup hkty halg hcrv hx hy hlengthX hlengthY
  · intro point h
    obtain ⟨es, hd, bs, rest, x, y, hcose, hhead, hentries, hkey, -, rfl⟩ :=
      (coseEs256_eq_some c cose point).1 h
    refine ⟨?_, es, hd, bs, rest, x, y, hcose, hhead, hentries, hkey.lastX, hkey.lastY,
      hkey.lengthX, hkey.lengthY, rfl⟩
    rw [List.length_cons, List.length_append, hkey.lengthX, hkey.lengthY]

/-- Points on P-256, in the uncompressed form. -/
def onCurve (point : Bytes) : Bool :=
  let p := 0xffffffff00000001000000000000000000000000ffffffffffffffffffffffff
  let b := 0x5ac635d8aa3a93e7b3ebbd55769886bc651d06b0cc53b0f63bce3c3e27d2604b
  let x := Digits.ofDigits 256 (((point.drop 1).take 32).map UInt8.toNat)
  let y := Digits.ofDigits 256 ((point.drop 33).map UInt8.toNat)
  point.length = 65 ∧ point.head? = some 4 ∧ x < p ∧ y < p ∧
    (y * y + 3 * x) % p = (x * x * x + b) % p

def curveCrates : Crates where
  clientData _ := none
  sha256 := id
  isKey := onCurve
  isSignature _ := false
  verifies _ _ _ := false

/-- The curve's base point. -/
def baseX : Bytes :=
  Text.bytes32 0x6b17d1f2e12c4247f8bce6e563a440f277037d812deb33a0f4a13945d898c296

def baseY : Bytes :=
  Text.bytes32 0x4fe342e2fe1a7f9b8ee7eb4a7c0f9e162bce33576b315ececbb6406837bf51f5

/-- A key with an identifier and a note among its entries. -/
def baseEntries : List (Int × Value) :=
  [(2, .bytes [1, 2, 3]), (1, .int 2), (-2, .bytes baseX), (3, .int es256), (-1, .int 1),
    (300, .text [0x6b]), (-3, .bytes baseY)]

theorem coseEs256_exact_base :
    coseEs256 curveCrates (head 5 7 ++ DataItem.entries baseEntries) =
      some (4 :: (baseX ++ baseY)) :=
  (coseEs256_exact curveCrates _).2.2.1 baseEntries baseX baseY (by decide)
    (by decide) (by decide) (by simp [baseEntries]) (by simp [baseEntries])
    (by simp [baseEntries]) (by simp [baseEntries]) (by simp [baseEntries]) (by decide)
    (by decide) (by decide) rfl

end Server.Webauthn

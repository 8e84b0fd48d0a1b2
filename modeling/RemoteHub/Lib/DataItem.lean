import RemoteHub.Lib.Bytes

/-!
# Data items of CBOR

Integers, byte strings, text strings and the entries of a map, with at most two bytes of argument in a
head. `Head`, `Item` and `Entries` say which bytes stand for what, in every form there is; `head`,
`item` and `entries` write the shortest one.
-/

namespace DataItem

/-- The bytes of a head of the type `major` with the argument `n`. -/
inductive Head (major : Nat) : Nat → Bytes → Prop
  | here {n : Nat} : n < 24 → Head major n [.ofNat (32 * major + n)]
  | one (a : UInt8) : Head major a.toNat [.ofNat (32 * major + 24), a]
  | two (a b : UInt8) : Head major (256 * a.toNat + b.toNat) [.ofNat (32 * major + 25), a, b]

inductive Value
  | int (i : Int)
  | bytes (b : Bytes)
  | text (b : Bytes)
  deriving DecidableEq

inductive Item : Value → Bytes → Prop
  | positive {n : Nat} {h : Bytes} : Head 0 n h → Item (.int n) h
  | negative {n : Nat} {h : Bytes} : Head 1 n h → Item (.int (-1 - n)) h
  | bytes {h b : Bytes} : Head 2 b.length h → Item (.bytes b) (h ++ b)
  | text {h b : Bytes} : Head 3 b.length h → Item (.text b) (h ++ b)

/-- The entries of a map whose labels are integers. -/
inductive Entries : List (Int × Value) → Bytes → Prop
  | nil : Entries [] []
  | cons {label : Int} {v : Value} {es : List (Int × Value)} {k b bs : Bytes} :
      Item (.int label) k → Item v b → Entries es bs → Entries ((label, v) :: es) (k ++ b ++ bs)

/-- What the map says of the label where it says it last. -/
def last (label : Int) (es : List (Int × Value)) : Option Value := es.reverse.lookup label

/-! ## The shortest form -/

def head (major n : Nat) : Bytes :=
  if n < 24 then [.ofNat (32 * major + n)]
  else if n < 256 then [.ofNat (32 * major + 24), .ofNat n]
  else [.ofNat (32 * major + 25), .ofNat (n / 256), .ofNat (n % 256)]

def item : Value → Bytes
  | .int (.ofNat n) => head 0 n
  | .int (.negSucc n) => head 1 n
  | .bytes b => head 2 b.length ++ b
  | .text b => head 3 b.length ++ b

def entries (es : List (Int × Value)) : Bytes :=
  es.flatMap fun e => item (.int e.1) ++ item e.2

/-- Two bytes of argument are enough for it. -/
def Value.Small : Value → Prop
  | .int i => -65536 ≤ i ∧ i < 65536
  | .bytes b => b.length < 65536
  | .text b => b.length < 65536

instance : DecidablePred Value.Small
  | .int i => inferInstanceAs (Decidable (-65536 ≤ i ∧ i < 65536))
  | .bytes b => inferInstanceAs (Decidable (b.length < 65536))
  | .text b => inferInstanceAs (Decidable (b.length < 65536))

variable {major n : Nat} {label : Int} {es : List (Int × Value)}

theorem Head.head (h : n < 65536) : Head major n (head major n) := by
  unfold DataItem.head
  split_ifs with hshort hone
  · exact .here hshort
  · have hn : (UInt8.ofNat n).toNat = n := UInt8.toNat_ofNat_of_lt' hone
    have hhead : Head major (UInt8.ofNat n).toNat _ := .one (.ofNat n)
    rwa [hn] at hhead
  · have hhigh : (UInt8.ofNat (n / 256)).toNat = n / 256 :=
      UInt8.toNat_ofNat_of_lt' (Nat.div_lt_of_lt_mul h)
    have hlow : (UInt8.ofNat (n % 256)).toNat = n % 256 :=
      UInt8.toNat_ofNat_of_lt' (Nat.mod_lt n (by decide))
    have hhead : Head major (256 * (UInt8.ofNat (n / 256)).toNat + (UInt8.ofNat (n % 256)).toNat) _ :=
      .two (.ofNat (n / 256)) (.ofNat (n % 256))
    rwa [hhigh, hlow, Nat.div_add_mod] at hhead

theorem Item.item {v : Value} (h : v.Small) : Item v (item v) := by
  cases v with
  | int i =>
    obtain ⟨hlow, hhigh⟩ := h
    cases i with
    | ofNat n => exact .positive (.head (Int.ofNat_lt.1 hhigh))
    | negSucc n =>
      have hn : n < 65536 := by omega
      have heq : (-1 - n : Int) = .negSucc n := by omega
      have hitem : Item (.int (-1 - n)) (DataItem.head 1 n) := .negative (.head hn)
      rwa [heq] at hitem
  | bytes b => exact .bytes (.head h)
  | text b => exact .text (.head h)

theorem Entries.entries (h : ∀ e ∈ es, (Value.int e.1).Small ∧ e.2.Small) :
    Entries es (entries es) := by
  induction es with
  | nil => exact .nil
  | cons e es ih =>
    obtain ⟨hlabel, hvalue⟩ := h e List.mem_cons_self
    exact .cons (.item hlabel) (.item hvalue) (ih fun e he => h e (List.mem_cons_of_mem _ he))

/-! ## What the map says last -/

theorem last_append_singleton (l : Int) (v : Value) :
    last label (es ++ [(l, v)]) = if label = l then some v else last label es := by
  rw [last, List.reverse_append]
  by_cases h : label = l
  · simp [h]
  · have hne : (label == l) = false := beq_eq_false_iff_ne.2 h
    simp [List.lookup_cons, last, h, hne]

/-- Where the labels are distinct, the last is the only one. -/
theorem last_of_mem {v : Value} (hnodup : (es.map Prod.fst).Nodup) (h : (label, v) ∈ es) :
    last label es = some v := by
  induction es using List.reverseRecOn with
  | nil => cases h
  | append_singleton es e ih =>
    rw [last_append_singleton]
    rw [List.map_append, List.nodup_append] at hnodup
    rcases List.mem_append.1 h with h | h
    · have hne : label ≠ e.1 := hnodup.2.2 _ (List.mem_map_of_mem h) _ (by simp)
      rw [if_neg hne, ih hnodup.1 h]
    · cases List.mem_singleton.1 h
      rw [if_pos rfl]

end DataItem

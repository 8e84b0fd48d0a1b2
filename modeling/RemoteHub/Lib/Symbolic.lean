import Mathlib.Data.Set.Basic

/-!
# Perfect cryptography

Messages are terms: a random value is a name, and what an operation makes of messages is a term that gives
nothing away but to whoever has the key. `Derives K` is what an observer can work out who knows `K`: it may
apply every operation, and take a term apart only with its key.

`Safe S` says of a term that knowing it does not help to any of the secret names `S`. What is derived from
safe terms is safe (`Derives.safe`), so it is enough to look at every message that is sent.
-/

namespace Symbolic

inductive Term
  /-- A random value. -/
  | name (n : Nat)
  | text (s : String)
  /-- A key wrapped with another. -/
  | wrapped (key wrapping : Term)
  /-- Authenticated encryption with associated data. -/
  | sealed (key nonce : Term) (aad : String) (content : Term)
  /-- A key from a password. -/
  | stretched (password salt : Term) (iterations : Nat)
  /-- A key from a secret. -/
  | expanded (secret : Term) (info : String)
  /-- The public half of a private key. -/
  | point (scalar : Term)
  /-- What the private keys `name n` and `name m` agree on, each with the other's public half. -/
  | agreed (n m : Nat)
  /-- What a device answers that keeps its secret for itself. -/
  | device (id : String) (input : Term)
  deriving DecidableEq

open Term

/-- The secret of two private keys, whichever side asks. -/
def agree (n m : Nat) : Term := agreed (min n m) (max n m)

theorem agree_comm (n m : Nat) : agree n m = agree m n := by
  rw [agree, agree, Nat.min_comm, Nat.max_comm]

/-! ## Taking terms apart -/

namespace Term

/-- The key, with the one it was wrapped with. -/
def unwrap : (m wrapping : Term) → Option Term
  | wrapped key wrapping', wrapping => if wrapping = wrapping' then some key else none
  | _, _ => none

def decrypt (key nonce : Term) (aad : String) : Term → Option Term
  | sealed key' nonce' aad' content =>
    if (key, nonce, aad) = (key', nonce', aad') then some content else none
  | _ => none

def asName : Term → Option Nat
  | name n => some n
  | _ => none

def asPoint : Term → Option Nat
  | point m => m.asName
  | _ => none

/-- The secret that one's own private key and the other's public half give. -/
def exchange (own other : Term) : Option Term :=
  own.asName.bind fun n => other.asPoint.map fun m => agree n m

variable {k k' w w' n n' m : Term} {aad aad' : String}

theorem unwrap_wrapped (k w : Term) : (wrapped k w).unwrap w = some k := if_pos rfl

theorem unwrap_other (h : w' ≠ w) : (wrapped k w).unwrap w' = none := if_neg h

theorem decrypt_sealed (k n : Term) (aad : String) (m : Term) : decrypt k n aad (sealed k n aad m) = some m :=
  if_pos rfl

theorem decrypt_other (h : (k', n', aad') ≠ (k, n, aad)) : decrypt k' n' aad' (sealed k n aad m) = none :=
  if_neg h

theorem exchange_comm (n m : Term) : n.exchange (point m) = m.exchange (point n) := by
  unfold exchange asPoint
  cases hn : n.asName <;> cases hm : m.asName <;> simp only [hn, hm, Option.bind_none, Option.bind_some,
    Option.map_none, Option.map_some]
  rw [agree_comm]

theorem asName_eq_some {i : Nat} (h : m.asName = some i) : m = name i := by
  cases m <;> cases h
  rfl

end Term

/-! ## Observers -/

/-- What an observer who knows `K` can work out. -/
inductive Derives (K : Set Term) : Term → Prop
  | known {m : Term} : m ∈ K → Derives K m
  | text (s : String) : Derives K (text s)
  | wrap {k w : Term} : Derives K k → Derives K w → Derives K (wrapped k w)
  | unwrap {k w : Term} : Derives K (wrapped k w) → Derives K w → Derives K k
  | encrypt {k n m : Term} (aad : String) :
      Derives K k → Derives K n → Derives K m → Derives K (sealed k n aad m)
  | decrypt {k n m : Term} {aad : String} : Derives K (sealed k n aad m) → Derives K k → Derives K m
  | stretch {p salt : Term} (iterations : Nat) :
      Derives K p → Derives K salt → Derives K (stretched p salt iterations)
  | expand {m : Term} (info : String) : Derives K m → Derives K (expanded m info)
  | point {m : Term} : Derives K m → Derives K (point m)
  | agree {n m : Nat} : Derives K (name n) → Derives K (Term.point (name m)) → Derives K (agree n m)

/-- Knowing the term does not help to a secret name. -/
def Safe (S : Set Nat) : Term → Prop
  | name n => n ∉ S
  | text _ => True
  | wrapped k w => Safe S w → Safe S k
  | sealed k _ _ m => Safe S k → Safe S m
  | stretched p _ _ => Safe S p
  | expanded m _ => Safe S m
  | Term.point _ => True
  | agreed n m => n ∉ S ∨ m ∉ S
  | device _ _ => False

variable {S : Set Nat} {K : Set Term}

theorem safe_agree {n m : Nat} : Safe S (agree n m) ↔ n ∉ S ∨ m ∉ S := by
  rcases Nat.le_total n m with h | h
  · rw [agree, Nat.min_eq_left h, Nat.max_eq_right h]
    rfl
  · rw [agree, Nat.min_eq_right h, Nat.max_eq_left h]
    exact or_comm

/-- What is derived from safe terms is safe. -/
theorem Derives.safe {m : Term} (hK : ∀ m ∈ K, Safe S m) (h : Derives K m) : Safe S m := by
  induction h with
  | known hm => exact hK _ hm
  | text s => trivial
  | wrap _ _ ihk _ => exact fun _ => ihk
  | unwrap _ _ ih ihw => exact ih ihw
  | encrypt aad _ _ _ _ _ ihm => exact fun _ => ihm
  | decrypt _ _ ih ihk => exact ih ihk
  | stretch iterations _ _ ihp _ => exact ihp
  | expand info _ ih => exact ih
  | point _ _ => trivial
  | agree _ _ ih _ => exact safe_agree.2 (.inl ih)

end Symbolic

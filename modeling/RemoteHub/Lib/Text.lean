import Mathlib.Data.Nat.Notation

/-!
# Texts

The functions of `str` and `char` in Rust's standard library that take Unicode's properties or work
on ASCII only, on a text's characters: `char::is_whitespace` (White_Space), `char::is_control` (Cc),
`trim`, `split`, `split_once`, `rsplit_once`, `lines`, `eq_ignore_ascii_case` and `parse` of a number.
-/

instance (priority := 2000) decidableForallMemChar {p : Char → Prop} [DecidablePred p] (s : List Char) :
    Decidable (∀ c ∈ s, p c) :=
  List.decidableBAll p s

namespace Text

def isWhitespace (c : Char) : Bool :=
  let n := c.toNat
  (0x9 ≤ n && n ≤ 0xd) || n = 0x20 || n = 0x85 || n = 0xa0 || n = 0x1680 ||
    (0x2000 ≤ n && n ≤ 0x200a) || n = 0x2028 || n = 0x2029 || n = 0x202f || n = 0x205f || n = 0x3000

def isControl (c : Char) : Bool :=
  let n := c.toNat
  n ≤ 0x1f || (0x7f ≤ n && n ≤ 0x9f)

/-- `str::trim_end`. -/
def trimEnd (s : String) : String := .ofList (s.toList.reverse.dropWhile isWhitespace).reverse

/-- `str::trim`. -/
def trim (s : String) : String :=
  .ofList ((s.toList.dropWhile isWhitespace).reverse.dropWhile isWhitespace).reverse

def toAsciiLowercase (s : String) : String := .ofList (s.toList.map Char.toLower)

def toAsciiUppercase (s : String) : String := .ofList (s.toList.map Char.toUpper)

def eqIgnoreAsciiCase (a b : String) : Bool := toAsciiLowercase a = toAsciiLowercase b

/-- `str::split_once` at a character. -/
def splitOnce (c : Char) (s : String) : Option (String × String) :=
  match s.toList.span (· ≠ c) with
  | (_, []) => none
  | (before, _ :: after) => some (.ofList before, .ofList after)

/-- `str::rsplit_once` at a character. -/
def rsplitOnce (c : Char) (s : String) : Option (String × String) :=
  match s.toList.reverse.span (· ≠ c) with
  | (_, []) => none
  | (after, _ :: before) => some (.ofList before.reverse, .ofList after.reverse)

/-- `str::trim_matches` of characters. -/
def trimMatches (cs : List Char) (s : String) : String :=
  .ofList ((s.toList.dropWhile (· ∈ cs)).reverse.dropWhile (· ∈ cs)).reverse

/-- The pieces of a list between the elements `c`, the first one after `piece`. -/
def pieces (c : Char) : List Char → List Char → List (List Char)
  | piece, [] => [piece]
  | piece, d :: s => if d = c then piece :: pieces c [] s else pieces c (piece ++ [d]) s

/-- `str::split` at a character. -/
def split (c : Char) (s : String) : List String := (pieces c [] s.toList).map .ofList

/-- `parse` of an unsigned number of at most `max`: digits, a plus sign before them or not. -/
def parseUnsigned (max : Nat) (s : String) : Option Nat :=
  let digits := if s.toList.head? = some '+' then s.toList.tail else s.toList
  if digits ≠ [] ∧ digits.all Char.isDigit then
    let n := digits.foldl (fun n c => n * 10 + (c.toNat - '0'.toNat)) 0
    if n ≤ max then some n else none
  else none

/-- `parse` of a signed number from `min` to `max`. -/
def parseSigned (min max : Int) (s : String) : Option Int :=
  let digits := if s.toList.head? = some '+' ∨ s.toList.head? = some '-' then s.toList.tail
    else s.toList
  if digits ≠ [] ∧ digits.all Char.isDigit then
    let n : Int := digits.foldl (fun n c => n * 10 + (c.toNat - '0'.toNat)) 0
    let n := if s.toList.head? = some '-' then -n else n
    if min ≤ n ∧ n ≤ max then some n else none
  else none

/-- A line without the carriage return before its end. -/
def stripCarriageReturn (line : String) : String :=
  if line.toList.getLast? = some '\r' then .ofList line.toList.dropLast else line

/-- `str::lines`. -/
def lines (s : String) : List String :=
  let parts := split '\n' s
  parts.dropLast.map stripCarriageReturn ++ parts.getLast?.toList.filter (· ≠ "")

end Text

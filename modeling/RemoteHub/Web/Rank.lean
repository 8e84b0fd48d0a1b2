import RemoteHub.Web.Text
import Mathlib.Algebra.Field.Defs
import Mathlib.Data.List.Sort
import Mathlib.Order.Defs.LinearOrder

/-!
# Search that learns from what people pick (`web/src/lib/search/rank.ts`)

A JavaScript string is the list of its UTF-16 code units, a `Map` the list of its pairs in their order.
Numbers that are not whole are of an ordered field `R`; `decay` of an age and `log2` are parameters, and so
are Unicode's tables and the order of names.
-/

namespace Web

/-- A string: its UTF-16 code units. -/
abbrev JsString := List UInt16

/-- The string a text is written as. -/
def js (text : String) : JsString :=
  text.toList.flatMap fun c =>
    let n := c.toNat
    if n < 0x10000 then [.ofNat n]
    else [.ofNat (0xd800 + (n - 0x10000) / 0x400), .ofNat (0xdc00 + (n - 0x10000) % 0x400)]

/-- `\s`. -/
def isSpace (unit : UInt16) : Bool := isWhitespace (.ofNat unit.toNat)

namespace Rank

/-- One text of an item, and how much a match in it counts. -/
structure SearchField (R : Type) where
  text : JsString
  weight : R

structure Searchable (R T : Type) where
  /-- Stable key the picks refer to. -/
  key : JsString
  /-- Tie-breaker, shown first in the results. -/
  name : JsString
  fields : List (SearchField R)
  item : T

/-- What someone picked after searching for `query` (normalized). -/
structure Pick where
  key : JsString
  query : JsString
  count : Nat
  /-- Milliseconds since the epoch. -/
  last : Int
  deriving DecidableEq

/-- Picks kept at most; the least useful go first. -/
def maxPicks : Nat := 300

/-- What is not whole numbers or code units. -/
structure Tables (R : Type) where
  /-- Lower case without accents. -/
  normalize : JsString → JsString
  /-- `/[\p{L}\p{N}]/u` of one code unit. -/
  isWord : UInt16 → Bool
  /-- `localeCompare` with the sensitivity `base`. -/
  compare : JsString → JsString → Ordering
  log2 : R → R
  /-- How much of a pick counts at an age in milliseconds: half of it after every 14 days. -/
  decay : Int → R

section
variable {R T : Type} (tables : Tables R)

def words (query : JsString) : List JsString :=
  ((tables.normalize query).splitOnP isSpace).filter (· ≠ [])

/-- A query as picks keep it: normalized words, at most 100 characters. -/
def queryKey (query : JsString) : JsString := ([32].intercalate (words tables query)).take 100

/-- How well `word` matches `text` (both normalized): 0 not at all, 100 exactly. -/
def wordScore (text word : JsString) : Nat :=
  if text = word then 100
  else if word.isPrefixOf text then 80
  else
    let found := (List.range text.length).filter fun i => word.isPrefixOf (text.drop i)
    if found = [] then 0
    -- the start of a word inside the text: after anything but a letter or digit
    else if found.any fun i => !text[i - 1]?.any tables.isWord then 65
    else 45

/-- How much a pick made for `earlier` tells about the query `current` typed, in tenths. -/
def related (earlier current : JsString) : Nat :=
  if earlier = current then 10
  else if current.isPrefixOf earlier then 8
  else if earlier.isPrefixOf current then 5
  else 0

/-- `map.set(key, (map.get(key) ?? 0) + more)`. -/
def addTo [Add R] [Zero R] (key : JsString) (more : R) : List (JsString × R) → List (JsString × R)
  | [] => [(key, 0 + more)]
  | entry :: total =>
    if entry.1 = key then (key, entry.2 + more) :: total else entry :: addTo key more total

variable [Field R] [LinearOrder R]

/-- The average best match of each word, or none if one word matches nowhere. -/
def matchScore (fields : List (SearchField R)) (query : List JsString) : Option R :=
  if query = [] then none
  else
    let texts := fields.map fun field => (tables.normalize field.text, field.weight)
    let best (word : JsString) : R :=
      (texts.map fun text => (wordScore tables text.1 word : R) * text.2).foldl max 0
    if query.any fun word => best word = 0 then none else some ((query.map best).sum / query.length)

/-- A number of tenths. -/
def tenths (n : R) : R := n / 10

/-- What a pick counts now. -/
def worth (now : Int) (pick : Pick) : R := pick.count * tables.decay (now - pick.last)

/-- The learned bonus of every key for `query` (normalized). -/
def learned (picks : List Pick) (query : JsString) (now : Int) : List (JsString × R) :=
  picks.foldl (fun bonus pick =>
    let weight := related pick.query query
    if 0 < weight then addTo pick.key (worth tables now pick * tenths (weight : R)) bonus else bonus) []

/-- What matches `query`, best first. -/
def rank (items : List (Searchable R T)) (query : JsString) (picks : List Pick) (now : Int) : List T :=
  let queryWords := words tables query
  let bonus := learned tables picks (queryKey tables query) now
  let scored := items.filterMap fun entry => (matchScore tables entry.fields queryWords).map fun found =>
    (entry, found + 20 * tables.log2 (1 + (bonus.lookup entry.key).getD 0))
  let before (a b : Searchable R T × R) : Prop :=
    b.2 < a.2 ∨ (a.2 = b.2 ∧ tables.compare a.1.name b.1.name ≠ .gt)
  have : DecidableRel before := fun _ _ => inferInstanceAs (Decidable (_ ∨ _))
  (scored.insertionSort before).map (·.1.item)

/-- The keys picked most, with or without a query, for a list of favourites. -/
def frequent (picks : List Pick) (now : Int) (count : Nat) : List JsString :=
  let total : List (JsString × R) := picks.foldl (fun total pick => addTo pick.key (worth tables now pick) total) []
  ((total.insertionSort fun a b => b.2 ≤ a.2).take count).map (·.1)

/-- The picks with one more pick of `key` for `query`, trimmed to `maxPicks`. -/
def remember (picks : List Pick) (key query : JsString) (now : Int) : List Pick :=
  let normalized := queryKey tables query
  let next := match picks.findIdx? fun pick => pick.key = key ∧ pick.query = normalized with
    | some known => picks.modify known fun pick => { pick with count := pick.count + 1, last := now }
    | none => picks ++ [⟨key, normalized, 1, now⟩]
  if next.length ≤ maxPicks then next
  -- Keep what still counts most.
  else (next.insertionSort fun a b => worth tables now b ≤ worth tables now a).take maxPicks

end

end Rank

end Web

import RemoteHub.Server.Db
import RemoteHub.Server.Problem
import Mathlib.Data.List.Sort

/-!
# Custom fields of credentials (`crates/server/src/api/fields.rs`)

Plain fields are stored with the credential, protected ones sealed with its version. `Checked` has
the fields of a change: no name twice, and every protected field either has a new value or keeps the
one it has.
-/

namespace Server

open Model Except Text

def maxFields : Nat := 50
def maxName : Nat := 100
def maxValue : Nat := 10000

/-- A field as a client sends it. A protected field without a value keeps the one it has. -/
structure FieldInput where
  name : String
  isProtected : Bool := false
  value : Option String

/-- The names of the protected fields. -/
def protectedNames (fields : List Field) : List String :=
  (fields.filter (·.isProtected)).map (·.name)

/-- The checked fields of a change. -/
structure Checked where
  /-- What `credentials.fields` holds from now on. -/
  stored : List Field
  /-- Protected fields with a new value, to seal (the source's `sealed`). -/
  toSeal : List (String × String)
  /-- Protected fields that keep their value. -/
  kept : List String
  nodup : (toSeal.map (·.1) ++ kept).Nodup
  mem_protected : ∀ n, n ∈ protectedNames stored ↔ n ∈ toSeal.map (·.1) ++ kept

/-- Where a protected field's value is sealed. -/
def secretName (name : String) : String := "field:" ++ name

def text (value : String) (limit : Nat) : Bool :=
  value.length ≤ limit && !value.toList.any fun c => isControl c && c ≠ '\n'

namespace Checked

def empty : Checked where
  stored := []
  toSeal := []
  kept := []
  nodup := List.nodup_nil
  mem_protected := by simp [protectedNames]

variable (c : Checked) (name : String)

/-- The name is new. -/
def Fresh : Prop := ∀ f ∈ c.stored, f.name ≠ name

variable {c name}

theorem Fresh.notMem (h : c.Fresh name) : name ∉ c.toSeal.map (·.1) ++ c.kept := by
  intro hmem
  obtain ⟨f, hf, hname⟩ := List.mem_map.1 ((c.mem_protected name).2 hmem)
  exact h f (List.mem_filter.1 hf).1 hname

theorem mem_protected_append {f : Field} {n : String} :
    n ∈ protectedNames (c.stored ++ [f]) ↔
      n ∈ protectedNames c.stored ∨ (f.isProtected ∧ n = f.name) := by
  unfold protectedNames
  rw [List.filter_append, List.map_append, List.mem_append]
  by_cases hf : f.isProtected <;> simp [hf]

/-- A plain field, with its value. -/
def pushPlain (c : Checked) (name value : String) : Checked where
  stored := c.stored ++ [⟨name, false, some value⟩]
  toSeal := c.toSeal
  kept := c.kept
  nodup := c.nodup
  mem_protected n := by rw [mem_protected_append, c.mem_protected]; simp

/-- A protected field with a new value. -/
def pushSealed (c : Checked) (name value : String) (h : c.Fresh name) : Checked where
  stored := c.stored ++ [⟨name, true, none⟩]
  toSeal := c.toSeal ++ [(name, value)]
  kept := c.kept
  nodup := by
    rw [List.map_append, List.append_assoc, List.map_singleton, List.singleton_append]
    exact (List.nodup_middle).2 (List.nodup_cons.2 ⟨h.notMem, c.nodup⟩)
  mem_protected n := by
    rw [mem_protected_append, c.mem_protected]
    simp only [List.map_append, List.map_singleton, List.mem_append, List.mem_singleton, true_and]
    tauto

/-- A protected field that keeps its value. -/
def pushKept (c : Checked) (name : String) (h : c.Fresh name) : Checked where
  stored := c.stored ++ [⟨name, true, none⟩]
  toSeal := c.toSeal
  kept := c.kept ++ [name]
  nodup := by
    rw [← List.append_assoc]
    exact List.nodup_append_comm.2 (List.nodup_cons.2 ⟨h.notMem, c.nodup⟩)
  mem_protected n := by
    rw [mem_protected_append, c.mem_protected]
    simp only [List.mem_append, List.mem_singleton, true_and]
    tauto

instance : Decidable (c.Fresh name) := inferInstanceAs (Decidable (∀ f ∈ c.stored, f.name ≠ name))

/-- One round of the loop in `check`. -/
def push (c : Checked) (field : FieldInput) : Answer Checked := do
  let name := trim field.name
  if hfresh : c.Fresh name then
    refuse (name = "" ∨ '\n' ∈ name.toList ∨ !text name maxName) (invalid "fields")
    refuse (field.value.any fun v => !text v maxValue) (invalid "fields")
    return match field.isProtected, field.value with
      | false, value => c.pushPlain name (value.getD "")
      | true, some value => c.pushSealed name value hfresh
      | true, none => c.pushKept name hfresh
  else .error (invalid "fields")

/-- Whether the sealed fields differ from those of `before`: new values, or protected fields added
or gone. -/
def changesSecrets (c : Checked) (before : List Field) : Bool :=
  c.toSeal ≠ [] ∨
    (protectedNames c.stored).mergeSort (· ≤ ·) ≠ (protectedNames before).mergeSort (· ≤ ·)

/-- Kept fields must have been protected fields before. -/
def keepsOnlyWhatWas (c : Checked) (before : List Field) : Bool :=
  c.kept.all fun name => before.any fun f => f.isProtected && f.name = name

end Checked

/-- `fields::check`. -/
def checkFields (input : List FieldInput) : Answer Checked := do
  refuse (maxFields < input.length) (invalid "fields")
  input.foldlM Checked.push .empty

end Server

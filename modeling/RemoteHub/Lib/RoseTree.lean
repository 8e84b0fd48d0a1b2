import Mathlib.Data.List.Basic

/-!
# Trees with any number of children

A node is named by its address, the indices of the children on the way to it; `modify` changes the node
at an address. `walk` visits a tree in pre-order with the labels on the way, without the subtrees whose
root `skip` holds of. `Reaches` says that the walk comes to an address.

Where `modify` changes a node so that a visit of it finds more, the whole walk finds just that more
(`walk_modify`), and all nodes that were reached still are (`Reaches.modify`).
-/

/-- A tree with any number of children. -/
inductive RoseTree (α : Type)
  | node (value : α) (children : List (RoseTree α))

namespace RoseTree

variable {α β κ : Type}

def value : RoseTree α → α
  | .node a _ => a

def children : RoseTree α → List (RoseTree α)
  | .node _ ts => ts

/-- The subtree at an address. -/
def subtree : List Nat → RoseTree α → Option (RoseTree α)
  | [], t => some t
  | i :: addr, t => t.children[i]?.bind (subtree addr)

/-- Changes the node at an address; nothing if there is none. -/
def modify (f : RoseTree α → RoseTree α) : List Nat → RoseTree α → RoseTree α
  | [], t => f t
  | i :: addr, .node a ts => .node a (ts.modify i (modify f addr))

/-- A further child, the last one. -/
def push (t child : RoseTree α) : RoseTree α := .node t.value (t.children ++ [child])

section
variable (skip : α → Bool) (label : α → κ) (visit : List κ → α → List β)

mutual

/-- What is found in a tree that lies below `path`, in pre-order. -/
def walk (path : List κ) : RoseTree α → List β
  | .node a ts => if skip a then [] else visit path a ++ walkAll path ts

/-- What is found in trees, each below its label. -/
def walkAll (path : List κ) : List (RoseTree α) → List β
  | [] => []
  | t :: ts => walk (path ++ [label t.value]) t ++ walkAll path ts

end

/-- The walk comes to `s` at an address, with the labels below the root. -/
inductive Reaches : RoseTree α → List Nat → List κ → RoseTree α → Prop
  | here {t : RoseTree α} (h : skip t.value = false) : Reaches t [] [] t
  | under {t child s : RoseTree α} {i : Nat} {addr : List Nat} {labels : List κ}
      (h : skip t.value = false) (hchild : t.children[i]? = some child)
      (hs : Reaches child addr labels s) : Reaches t (i :: addr) (label child.value :: labels) s

/-- A change of nodes that keeps what the walk asks of them. -/
def Keeps (f : RoseTree α → RoseTree α) : Prop :=
  ∀ s : RoseTree α, skip (f s).value = skip s.value ∧ label (f s).value = label s.value

end

variable {skip : α → Bool} {label : α → κ} {visit : List κ → α → List β} {f : RoseTree α → RoseTree α}
  {t s child : RoseTree α} {ts : List (RoseTree α)} {addr : List Nat} {path labels : List κ}
  {found : List β}

@[simp] theorem value_push : (t.push child).value = t.value := rfl

@[simp] theorem children_push : (t.push child).children = t.children ++ [child] := rfl

theorem Keeps.modify (hf : Keeps skip label f) (addr : List Nat) :
    Keeps skip label (RoseTree.modify f addr) := by
  intro t
  cases addr with
  | nil => exact hf t
  | cons i addr =>
    cases t
    exact ⟨rfl, rfl⟩

theorem keeps_push (child : RoseTree α) : Keeps skip label (·.push child) := fun _ => ⟨rfl, rfl⟩

theorem walkAll_append {ts ts' : List (RoseTree α)} : walkAll skip label visit path (ts ++ ts') =
    walkAll skip label visit path ts ++ walkAll skip label visit path ts' := by
  induction ts with
  | nil => rfl
  | cons t ts ih => rw [List.cons_append, walkAll, walkAll, ih, List.append_assoc]

theorem Reaches.live (h : Reaches skip label t addr labels s) : skip t.value = false := by
  cases h <;> assumption

theorem Reaches.live_end (h : Reaches skip label t addr labels s) : skip s.value = false := by
  induction h with
  | here h => exact h
  | under _ _ _ ih => exact ih

theorem Reaches.subtree (h : Reaches skip label t addr labels s) : t.subtree addr = some s := by
  induction h with
  | here _ => rfl
  | under _ hchild _ ih => rw [RoseTree.subtree, hchild, Option.bind_some, ih]

/-- More is found where a node is changed. -/
theorem walk_modify (found : List β) (h : Reaches skip label t addr labels s) (hf : Keeps skip label f)
    (hfound : (walk skip label visit (path ++ labels) (f s)).Perm
      (found ++ walk skip label visit (path ++ labels) s)) :
    (walk skip label visit path (t.modify f addr)).Perm (found ++ walk skip label visit path t) := by
  induction h generalizing path with
  | here h =>
    rw [List.append_nil] at hfound
    exact hfound
  | @under t child s i addr labels h hchild hs ih =>
    obtain ⟨a, ts⟩ := t
    have hchild : ts[i]? = some child := hchild
    obtain ⟨hi, hget⟩ := List.getElem?_eq_some_iff.1 hchild
    have hchild' : ts = ts.take i ++ child :: ts.drop (i + 1) := by
      rw [← hget, List.getElem_cons_drop, List.take_append_drop]
    have hmodify : ts.modify i (RoseTree.modify f addr) =
        ts.take i ++ child.modify f addr :: ts.drop (i + 1) := by
      rw [List.modify_eq_take_cons_drop hi]
      exact congrArg (fun c => ts.take i ++ RoseTree.modify f addr c :: ts.drop (i + 1)) hget
    have hfound' : (walk skip label visit (path ++ [label child.value] ++ labels) (f s)).Perm
        (found ++ walk skip label visit (path ++ [label child.value] ++ labels) s) := by
      rw [List.append_assoc]
      exact hfound
    have hstep := ih hfound'
    have hskip : skip a = false := h
    rw [RoseTree.modify, walk, walk, hskip, if_neg (by decide), if_neg (by decide), hmodify]
    conv_rhs => rw [hchild']
    rw [walkAll_append, walkAll_append, walkAll, walkAll, (hf.modify addr child).2]
    have hmove : ∀ before after : List β, (before ++ (found ++ after)).Perm (found ++ (before ++ after)) := by
      intro before after
      rw [← List.append_assoc, ← List.append_assoc]
      exact List.perm_append_comm.append_right after
    refine (((hstep.append_right _).append_left _).append_left _).trans ?_
    rw [List.append_assoc found]
    exact ((hmove _ _).append_left _).trans (hmove _ _)

/-- A further child is found below its label. -/
theorem walk_push (h : skip t.value = false) : walk skip label visit path (t.push child) =
    walk skip label visit path t ++ walk skip label visit (path ++ [label child.value]) child := by
  obtain ⟨a, ts⟩ := t
  have hskip : skip a = false := h
  rw [push, value, children, walk, walk, hskip, if_neg (by decide), if_neg (by decide), walkAll_append, walkAll,
    walkAll, List.append_nil, List.append_assoc]

/-- A changed node that keeps its children keeps what is reached. -/
theorem Reaches.modify (h : Reaches skip label t addr labels s) {addr' : List Nat} (hf : Keeps skip label f)
    (hchildren : ∀ s : RoseTree α, s.children <+: (f s).children) :
    ∃ s', Reaches skip label (t.modify f addr') addr labels s' := by
  induction h generalizing addr' with
  | here h => exact ⟨_, .here ((hf.modify addr' _).1.trans h)⟩
  | @under t child s i addr labels h hchild hs ih =>
    have hlive : skip (t.modify f addr').value = false := (hf.modify addr' t).1.trans h
    cases addr' with
    | nil =>
      have hchild' : (f t).children[i]? = some child := by
        obtain ⟨more, hmore⟩ := hchildren t
        rw [← hmore, List.getElem?_append_left (List.getElem?_eq_some_iff.1 hchild).1]
        exact hchild
      exact ⟨s, .under hlive hchild' hs⟩
    | cons j addr' =>
      obtain ⟨a, ts⟩ := t
      have hchild : ts[i]? = some child := hchild
      have hget : (RoseTree.modify f (j :: addr') (.node a ts)).children[i]? =
          some (if j = i then child.modify f addr' else child) := by
        rw [RoseTree.modify, children, List.getElem?_modify, hchild]
        split <;> rfl
      split at hget
      · obtain ⟨s', hs'⟩ := ih
        refine ⟨s', ?_⟩
        rw [← (hf.modify addr' child).2]
        exact .under hlive hget hs'
      · exact ⟨s, .under hlive hget hs⟩

/-- A further child of a node is reached. -/
theorem Reaches.push (h : Reaches skip label t addr labels s) (hchild : skip child.value = false) :
    Reaches skip label (t.modify (·.push child) addr) (addr ++ [s.children.length])
      (labels ++ [label child.value]) child := by
  induction h with
  | @here t h =>
    refine .under h ?_ (.here hchild)
    rw [RoseTree.modify, children_push, List.getElem?_append_right (Nat.le_refl _), Nat.sub_self]
    rfl
  | @under t child' s i addr labels h hget hs ih =>
    obtain ⟨a, ts⟩ := t
    have hget : ts[i]? = some child' := hget
    have hkeeps : Keeps skip label (·.push child) := keeps_push child
    rw [List.cons_append, List.cons_append, ← (hkeeps.modify addr child').2]
    refine .under h ?_ ih
    rw [RoseTree.modify, children, List.getElem?_modify, hget]
    simp

end RoseTree

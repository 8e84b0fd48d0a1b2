import RemoteHub.Lib.Outline
import RemoteHub.Web.Items

/-!
# The outline is the reading order of the tree

Where ids are distinct, the nodes directly below one are the `Children` of the function to the parent, and
`visit` lists them (`visit_eq`): what is below an element that is being listed is in the output only after it,
so that the search in the output finds nothing and the levels of the recursion are those of the tree.
-/

namespace Web.Items

open Chain

variable {Id : Type} [DecidableEq Id] {compare : JsString → JsString → Ordering} {nodes : List (TreeNode Id)}

/-- The node that is a node's parent, if there is one. -/
def parentOf (nodes : List (TreeNode Id)) (node : TreeNode Id) : Option (TreeNode Id) :=
  node.parentId.bind fun id => nodes.find? (·.id = id)

omit [DecidableEq Id] in
theorem eq_of_id (hids : (nodes.map (·.id)).Nodup) {a b : TreeNode Id} (ha : a ∈ nodes) (hb : b ∈ nodes)
    (h : a.id = b.id) : a = b :=
  List.inj_on_of_nodup_map hids ha hb h

theorem find_eq_some (hids : (nodes.map (·.id)).Nodup) {id : Id} {node : TreeNode Id} :
    nodes.find? (·.id = id) = some node ↔ node ∈ nodes ∧ node.id = id := by
  constructor
  · intro h
    exact ⟨List.mem_of_find?_eq_some h, by simpa using List.find?_some h⟩
  · rintro ⟨hnode, rfl⟩
    cases hfind : nodes.find? (·.id = node.id) with
    | none => simpa using List.find?_eq_none.1 hfind node hnode
    | some other =>
      have hid : other.id = node.id := by simpa using List.find?_some hfind
      rw [eq_of_id hids (List.mem_of_find?_eq_some hfind) hnode hid]

theorem parentOf_eq_some (hids : (nodes.map (·.id)).Nodup) {node parent : TreeNode Id} :
    parentOf nodes node = some parent ↔ parent ∈ nodes ∧ node.parentId = some parent.id := by
  rw [parentOf, Option.bind_eq_some_iff]
  constructor
  · rintro ⟨id, hid, hfind⟩
    obtain ⟨hparent, rfl⟩ := (find_eq_some hids).1 hfind
    exact ⟨hparent, hid⟩
  · rintro ⟨hparent, hid⟩
    exact ⟨parent.id, hid, (find_eq_some hids).2 ⟨hparent, rfl⟩⟩

theorem parentOf_eq_none {node : TreeNode Id} :
    parentOf nodes node = none ↔ node.parentId.all (· ∉ nodes.map (·.id)) = true := by
  rw [parentOf, Option.bind_eq_none_iff, Option.all_eq_true]
  refine forall₂_congr fun id _ => ?_
  rw [List.find?_eq_none, decide_eq_true_eq, List.mem_map]
  simp

/-- The nodes directly below one of the nodes. -/
def children (compare : JsString → JsString → Ordering) (nodes : List (TreeNode Id)) :
    Option (TreeNode Id) → List (TreeNode Id)
  | none => nodesBelow compare nodes none
  | some parent => if parent ∈ nodes then nodesBelow compare nodes (some parent.id) else []

theorem nodup_nodesBelow (hids : (nodes.map (·.id)).Nodup) (parent : Option Id) :
    (nodesBelow compare nodes parent).Nodup :=
  (List.perm_insertionSort _ _).nodup_iff.2 (hids.of_map.filter _)

/-- **Where ids are distinct, the nodes are a forest.** -/
theorem children_spec (compare : JsString → JsString → Ordering) (hids : (nodes.map (·.id)).Nodup) :
    Children (parentOf nodes) nodes (children compare nodes) where
  nodup parent := by
    cases parent with
    | none => exact nodup_nodesBelow hids none
    | some parent =>
      rw [children]
      split
      · exact nodup_nodesBelow hids (some parent.id)
      · exact .nil
  mem parent node := by
    cases parent with
    | none =>
      rw [children, nodesBelow, List.mem_insertionSort, List.mem_filter]
      exact and_congr_right fun _ => parentOf_eq_none.symm
    | some parent =>
      rw [children, parentOf_eq_some hids]
      split
      · rename_i hparent
        rw [nodesBelow, List.mem_insertionSort, List.mem_filter, decide_eq_true_eq]
        simp [hparent]
      · simp [‹parent ∉ nodes›]
  closed node parent _ h := ((parentOf_eq_some hids).1 h).1

/-- The entry of a node. -/
def entry (e : TreeNode Id × Nat) : OutlineNode Id := ⟨e.1.id, e.1.name, e.2⟩

theorem seen_eq_false {out : List (OutlineNode Id)} {node : TreeNode Id} (h : ∀ e ∈ out, e.id ≠ node.id) :
    out.any (·.id = node.id) = false := by
  rw [List.any_eq_false]
  exact fun e he => by simpa using h e he

/-- **A visit lists what is below a node.** `path` is the chain from the node up: it has a level of the
recursion for each of its elements. -/
theorem visit_eq (hids : (nodes.map (·.id)).Nodup) {fuel : Nat} {parent : Option (TreeNode Id)}
    {path : List (TreeNode Id)} (hparent : ∀ p ∈ parent, p ∈ nodes) (hpath : Path (parentOf nodes) parent path)
    (hfuel : nodes.length < fuel + path.length) (depth : Nat) {out : List (OutlineNode Id)}
    (hout : ∀ node ∈ nodes, ∀ child, parentOf nodes child = parent → Above (parentOf nodes) node child →
      ∀ e ∈ out, e.id ≠ node.id) :
    ∃ l, Lists (children compare nodes) depth (children compare nodes parent) l ∧
      visit compare nodes fuel (parent.map (·.id)) depth out = some (out ++ l.map entry) := by
  have hc := children_spec compare hids
  have hsub : ∀ p ∈ path, p ∈ nodes := by
    intro p hp
    obtain ⟨x, hx, hxp⟩ := (hpath.mem_iff p).1 hp
    exact Above.closed (P := (· ∈ nodes)) hc.closed hxp (hparent x hx)
  induction fuel generalizing parent path depth out with
  | zero =>
    have hle := (hpath.nodup.subperm hsub).length_le
    omega
  | succ fuel ih =>
    have hsame : nodesBelow compare nodes (parent.map (·.id)) = children compare nodes parent := by
      cases parent with
      | none => rfl
      | some parent => exact (if_pos (hparent parent rfl)).symm
    rw [visit, hsame]
    have hmem : ∀ node ∈ children compare nodes parent, node ∈ nodes ∧ parentOf nodes node = parent :=
      fun node hnode => (hc.mem _ _).1 hnode
    have hnodup := hc.nodup parent
    -- the loop over the nodes directly below, in the middle of it
    generalize children compare nodes parent = todo at hmem hnodup
    replace hout : ∀ node ∈ nodes, ∀ child ∈ todo, Above (parentOf nodes) node child → ∀ e ∈ out, e.id ≠ node.id :=
      fun node hnode child hchild => hout node hnode child (hmem child hchild).2
    induction todo generalizing out with
    | nil => exact ⟨[], .nil, by simp⟩
    | cons node todo ihtodo =>
      rw [List.forall_mem_cons] at hmem
      obtain ⟨hnew, hnodup⟩ := List.nodup_cons.1 hnodup
      have hchain : Path (parentOf nodes) (some node) (node :: path) := .cons (hmem.1.2 ▸ hpath)
      have hunseen := seen_eq_false (hout node hmem.1.1 node List.mem_cons_self (.refl node))
      have hnot : ∀ m ∈ nodes, StrictlyAbove (parentOf nodes) m node → m.id ≠ node.id := by
        intro m hm habove heq
        rw [eq_of_id hids hm hmem.1.1 heq] at habove
        exact hchain.not_loop node rfl habove
      have hnode : ∀ p ∈ some node, p ∈ nodes := fun p hp => by
        cases hp
        exact hmem.1.1
      have hsub' : ∀ p ∈ node :: path, p ∈ nodes := List.forall_mem_cons.2 ⟨hmem.1.1, hsub⟩
      have houtNode : ∀ m ∈ nodes, ∀ child, parentOf nodes child = some node → Above (parentOf nodes) m child →
          ∀ e ∈ out ++ [⟨node.id, node.name, depth⟩], e.id ≠ m.id := by
        intro m hm child hchild hmc e he
        have habove : StrictlyAbove (parentOf nodes) m node := Relation.TransGen.tail' hmc hchild
        rcases List.mem_append.1 he with he | he
        · exact hout m hm node List.mem_cons_self (Relation.TransGen.to_reflTransGen habove) e he
        · rw [List.mem_singleton.1 he]
          exact (hnot m hm habove).symm
      obtain ⟨sub, hlist, hvisit⟩ := ih hnode hchain (by rw [List.length_cons]; omega) (depth + 1) houtNode hsub'
      have houtSub : ∀ m ∈ nodes, ∀ child ∈ todo, Above (parentOf nodes) m child →
          ∀ e ∈ out ++ [⟨node.id, node.name, depth⟩] ++ sub.map entry, e.id ≠ m.id := by
        intro m hm child hchild hmc e he
        have hother : ∀ m', Above (parentOf nodes) m' node → m' ∈ nodes → m'.id ≠ m.id := by
          intro m' hm' hin heq
          rw [eq_of_id hids hin hm heq] at hm'
          rw [hpath.siblings hmem.1.2 (hmem.2 child hchild).2 hm' hmc] at hnew
          exact hnew hchild
        rcases List.mem_append.1 he with he | he
        · rcases List.mem_append.1 he with he | he
          · exact hout m hm child (List.mem_cons_of_mem node hchild) hmc e he
          · rw [List.mem_singleton.1 he]
            exact hother node (.refl node) hmem.1.1
        · obtain ⟨x, hx, rfl⟩ := List.mem_map.1 he
          obtain ⟨hin, c, hcx, hxc⟩ := (hlist.mem_iff hc (fun c hcx => ((hc.mem _ _).1 hcx).1) x.1).1
            (List.mem_map_of_mem hx)
          exact hother x.1 (Relation.TransGen.to_reflTransGen
            (Relation.TransGen.tail' hxc ((hc.mem _ _).1 hcx).2)) hin
      obtain ⟨rest, hrest, hloop⟩ := ihtodo hmem.2 hnodup houtSub
      refine ⟨(node, depth) :: (sub ++ rest), .cons hlist hrest, ?_⟩
      rw [List.foldlM_cons, hunseen]
      simp only [Bool.false_eq_true, if_false]
      rw [show some node.id = (some node).map (·.id) from rfl, hvisit]
      exact hloop.trans (by simp [entry])

/-! ## The outline -/

/-- **Reading order.** Where ids are distinct, `outline` ends, and as soon as the recursion may have a level
more than there are nodes. It lists no node twice, and exactly those whose chain of parents ends; one with
nothing above it at depth 0, any other after its parent, one deeper; and right after a node what lies below
it. -/
theorem outline_exact (compare : JsString → JsString → Ordering) (nodes : List (TreeNode Id))
    (hids : (nodes.map (·.id)).Nodup) :
    ∃ out, outline compare nodes = some out ∧
      (∀ fuel, nodes.length < fuel → visit compare nodes fuel none 0 [] = some out) ∧
      (out.map (·.id)).Nodup ∧
      (∀ e ∈ out, ∃ node ∈ nodes, e.id = node.id ∧ e.name = node.name) ∧
      (∀ node ∈ nodes, (∃ e ∈ out, e.id = node.id) ↔ ∃ chain, Path (parentOf nodes) (some node) chain) ∧
      ∀ e ∈ out, ∀ node ∈ nodes, e.id = node.id →
        (parentOf nodes node = none → e.depth = 0) ∧
        (∀ parent, parentOf nodes node = some parent → ∃ before above between after,
          above.id = parent.id ∧ e.depth = above.depth + 1 ∧ out = before ++ above :: (between ++ e :: after)) ∧
        ∃ before sub after, out = before ++ e :: (sub ++ after) ∧
          ∀ m ∈ nodes, (∃ e' ∈ sub, e'.id = m.id) ↔ StrictlyAbove (parentOf nodes) m node := by
  have hc := children_spec compare hids
  have hvisits : ∀ fuel, nodes.length < fuel → ∃ l, Lists (children compare nodes) 0 (children compare nodes none) l ∧
      visit compare nodes fuel none 0 [] = some (l.map entry) := by
    intro fuel hfuel
    have hout : ∀ node ∈ nodes, ∀ child, parentOf nodes child = none → Above (parentOf nodes) node child →
        ∀ e ∈ ([] : List (OutlineNode Id)), e.id ≠ node.id :=
      fun _ _ _ _ _ e he => absurd he List.not_mem_nil
    obtain ⟨l, hl, hvisit⟩ := visit_eq hids (fun p hp => by cases hp) (.nil : Path (parentOf nodes) none [])
      (by simpa using hfuel) 0 hout
    exact ⟨l, hl, hvisit⟩
  obtain ⟨l, hl, hout⟩ := hvisits (nodes.length + 1) (Nat.lt_succ_self _)
  have hroots : ∀ node ∈ children compare nodes none, node ∈ nodes ∧ parentOf nodes node = none :=
    fun node hnode => (hc.mem none node).1 hnode
  have hin : ∀ x ∈ l, x.1 ∈ nodes := fun x hx =>
    ((hl.mem_iff hc (fun node hnode => (hroots node hnode).1) x.1).1 (List.mem_map_of_mem hx)).1
  have hmem : ∀ node ∈ nodes, (∃ e ∈ l.map entry, e.id = node.id) ↔ node ∈ l.map (·.1) := by
    intro node hnode
    constructor
    · rintro ⟨_, he, hid⟩
      obtain ⟨x, hx, rfl⟩ := List.mem_map.1 he
      rw [← eq_of_id hids (hin x hx) hnode hid]
      exact List.mem_map_of_mem hx
    · intro h
      obtain ⟨x, hx, rfl⟩ := List.mem_map.1 h
      exact ⟨entry x, List.mem_map_of_mem hx, rfl⟩
  refine ⟨l.map entry, hout, fun fuel hfuel => ?_, ?_, fun e he => ?_, fun node hnode => ?_, fun e he node hnode hid => ?_⟩
  · obtain ⟨l', hl', hvisit⟩ := hvisits fuel hfuel
    rw [hvisit, hl.unique hl']
  · have hnodup := hl.nodup hc (fun node hnode => (hroots node hnode).1) (hc.nodup none) .nil
      fun node hnode => (hroots node hnode).2
    have hmapped : ((l.map (·.1)).map (·.id)).Nodup := by
      refine hnodup.map_on fun a ha b hb => ?_
      obtain ⟨x, hx, rfl⟩ := List.mem_map.1 ha
      obtain ⟨y, hy, rfl⟩ := List.mem_map.1 hb
      exact eq_of_id hids (hin x hx) (hin y hy)
    rw [List.map_map] at hmapped ⊢
    exact hmapped
  · obtain ⟨x, hx, rfl⟩ := List.mem_map.1 he
    exact ⟨x.1, hin x hx, rfl, rfl⟩
  · rw [hmem node hnode, hl.mem_iff hc fun node hnode => (hroots node hnode).1, exists_path_iff]
    constructor
    · rintro ⟨-, root, hroot, habove⟩
      exact ⟨root, habove, (hroots root hroot).2⟩
    · rintro ⟨root, habove, hroot⟩
      exact ⟨hnode, root, (hc.mem none root).2
        ⟨Above.closed (P := (· ∈ nodes)) hc.closed habove hnode, hroot⟩, habove⟩
  · obtain ⟨⟨x, d⟩, hx, rfl⟩ := List.mem_map.1 he
    obtain rfl : x = node := eq_of_id hids (hin _ hx) hnode hid
    refine ⟨fun hnone => ?_, fun parent hparent => ?_, ?_⟩
    · rcases hl.parent hc hx with ⟨-, hd⟩ | ⟨y, k, before, between, after, hy, -⟩
      · exact hd
      · rw [hnone] at hy
        cases hy
    · rcases hl.parent hc hx with ⟨hroot, -⟩ | ⟨y, k, before, between, after, hy, rfl, hsplit⟩
      · rw [(hroots x hroot).2] at hparent
        cases hparent
      · obtain rfl : y = parent := Option.some.inj (hy.symm.trans hparent)
        refine ⟨before.map entry, entry (y, k), between.map entry, after.map entry, rfl, rfl, ?_⟩
        rw [hsplit]
        simp
    · obtain ⟨before, sub, after, hsplit, hsub⟩ := hl.split hx
      refine ⟨before.map entry, sub.map entry, after.map entry, by rw [hsplit]; simp, fun m hm => ?_⟩
      have hsubmem := hsub.mem_iff hc (fun c hcx => ((hc.mem _ _).1 hcx).1) m
      rw [hc.strictlyAbove_iff hm]
      constructor
      · rintro ⟨_, he', hid'⟩
        obtain ⟨z, hz, rfl⟩ := List.mem_map.1 he'
        have hzin : z ∈ l := by
          rw [hsplit]
          simp [hz]
        obtain rfl := eq_of_id hids (hin z hzin) hm hid'
        exact (hsubmem.1 (List.mem_map_of_mem hz)).2
      · intro hbelow
        obtain ⟨z, hz, rfl⟩ := List.mem_map.1 (hsubmem.2 ⟨hm, hbelow⟩)
        exact ⟨entry z, List.mem_map_of_mem hz, rfl⟩

theorem outline_exact_loop : ∃ out,
    outline (fun _ _ => .eq) [⟨1, some 2, js "a"⟩, ⟨2, some 1, js "b"⟩, ⟨3, some 7, js "c"⟩, ⟨4, some 3, js "d"⟩] =
      some out ∧ out.map (·.id) = [3, 4] ∧ (out.map (·.id)).Nodup := by
  obtain ⟨out, hout, -, hnodup, -⟩ := outline_exact (fun _ _ => .eq)
    [⟨1, some 2, js "a"⟩, ⟨2, some 1, js "b"⟩, ⟨3, some 7, js "c"⟩, ⟨4, some 3, js "d"⟩] (by decide)
  refine ⟨out, hout, ?_, hnodup⟩
  have hrun : outline (fun _ _ => .eq)
      [⟨1, some 2, js "a"⟩, ⟨2, some 1, js "b"⟩, ⟨3, some 7, js "c"⟩, ⟨4, some 3, js "d"⟩] =
      some [⟨3, js "c", 0⟩, ⟨4, js "d", 1⟩] := by decide
  rw [Option.some.inj (hout.symm.trans hrun)]
  rfl

end Web.Items

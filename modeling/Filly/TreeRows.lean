import Filly.Runs
import Filly.TextWidgets

/-!
# The rows of a tree

The widget counts the rows of its roots and of the children of expanded roots; the
renderer goes down to any depth. The children of a node are an array of pointers, which
the renderer takes for an array of nodes, so it leaves the array at its first step into
any children. Its own array has room for 256 rows.

A node is known by its numbers below its ancestors. Outside its arrays the renderer has
no rows here.
-/
namespace Filly.TreeRows
open CJson Keys SessionLoop Runs

inductive TreeNode where
  | mk (label : Bytes) (expanded : Bool) (children : List TreeNode)

namespace TreeNode

def label : TreeNode → Bytes
  | .mk label _ _ => label

def expanded : TreeNode → Bool
  | .mk _ expanded _ => expanded

def children : TreeNode → List TreeNode
  | .mk _ _ children => children

/-- A node without children has nothing to expand. -/
def toggle : TreeNode → TreeNode
  | .mk label expanded children => .mk label (if children = [] then expanded else !expanded) children

/-- The rows under the node are shown. -/
def Open (n : TreeNode) : Prop := n.expanded = true ∧ n.children ≠ []

end TreeNode

/-! ## `flatten2` of the renderer -/

/-- `sizeof(TreeNode)`. -/
def nodeSize : ℕ := 32

/-- `sizeof(TreeNode *)`. -/
def pointerSize : ℕ := 8

structure Flat where
  depth : ℕ
  /-- The numbers that lead to the node. -/
  node : List ℕ

mutual
/-- One turn of the loop. -/
def flattenNode (d : ℕ) (node : List ℕ) (flat : List Flat) : TreeNode → Option (List Flat)
  | .mk _ expanded children =>
      if 256 ≤ flat.length then none
      else if expanded = true ∧ 0 < children.length then
        flatten2 (pointerSize*children.length) 0 (d+1) node (flat++[⟨d,node⟩]) children
      else some (flat++[⟨d,node⟩])

/-- The loop from node `i` on, in an array of `size` bytes. -/
def flatten2 (size i d : ℕ) (parent : List ℕ) (flat : List Flat) :
    List TreeNode → Option (List Flat)
  | [] => some flat
  | n::ns =>
      if size < nodeSize*(i+1) then none
      else
        (flattenNode d (parent++[i]) flat n).bind fun flat => flatten2 size (i+1) d parent flat ns
end

/-- The rows of a forest. -/
def rowsOf (nodes : List TreeNode) : Option (List Flat) :=
  flatten2 (nodeSize*nodes.length) 0 0 [] [] nodes

/-- An array that ends before its last node is left. -/
theorem flatten2_short {size i d : ℕ} {parent : List ℕ} {flat : List Flat} {ns : List TreeNode}
    (hns : ns ≠ []) (hsize : size < nodeSize*(i+ns.length)) :
    flatten2 size i d parent flat ns = none := by
  induction ns generalizing i flat with
  | nil => exact absurd rfl hns
  | cons n ns ih =>
      rw [flatten2]
      split_ifs with hi
      · rfl
      · rw [List.length_cons] at hsize
        have hrest : ns ≠ [] := by
          rintro rfl
          exact hi hsize
        have hshift : i+1+ns.length = i+(ns.length+1) := by omega
        cases flattenNode d (parent++[i]) flat n with
        | none => rfl
        | some flat => exact ih hrest (hshift ▸ hsize)

theorem flattenNode_of_open {d : ℕ} {node : List ℕ} {flat : List Flat} {n : TreeNode}
    (hn : n.Open) : flattenNode d node flat n = none := by
  obtain ⟨label,expanded,children⟩ := n
  have hpos : 0 < children.length := List.length_pos_iff.2 hn.2
  rw [flattenNode]
  split_ifs with hfull hopen
  · rfl
  · refine flatten2_short hn.2 ?_
    simp only [pointerSize,nodeSize]
    omega
  · exact absurd ⟨hn.1,hpos⟩ hopen

theorem flattenNode_of_not_open {d : ℕ} {node : List ℕ} {flat : List Flat} {n : TreeNode}
    (hn : ¬n.Open) : flattenNode d node flat n =
      if 256 ≤ flat.length then none else some (flat++[⟨d,node⟩]) := by
  obtain ⟨label,expanded,children⟩ := n
  rw [flattenNode,if_neg (fun h : expanded = true ∧ 0 < children.length =>
    hn ⟨h.1,List.length_pos_iff.1 h.2⟩)]

/-- No node is open, and the rows fit. -/
structure Plain (nodes : List TreeNode) : Prop where
  few : nodes.length ≤ 256
  closed : ∀ n ∈ nodes, ¬n.Open

theorem flatten2_none {size i d : ℕ} {parent : List ℕ} {flat : List Flat} {ns : List TreeNode}
    (hns : ∃ n ∈ ns, n.Open) : flatten2 size i d parent flat ns = none := by
  induction ns generalizing i flat with
  | nil => simp at hns
  | cons n ns ih =>
      rw [flatten2]
      split_ifs
      · rfl
      · by_cases hn : n.Open
        · rw [flattenNode_of_open hn]
          rfl
        · have hrest : ∃ n ∈ ns, n.Open := by
            obtain ⟨m,hm,hopen⟩ := hns
            obtain rfl | hm := List.mem_cons.1 hm
            · exact absurd hopen hn
            · exact ⟨m,hm,hopen⟩
          cases flattenNode d (parent++[i]) flat n with
          | none => rfl
          | some flat => exact ih hrest

/-- The rows of nodes that are not open, if there is room for them. -/
theorem flatten2_closed {size i d : ℕ} {parent : List ℕ} {flat : List Flat} {ns : List TreeNode}
    (hns : ∀ n ∈ ns, ¬n.Open) (hsize : nodeSize*(i+ns.length) ≤ size) (hflat : flat.length ≤ 256) :
    flatten2 size i d parent flat ns =
      if flat.length+ns.length ≤ 256 then
        some (flat++(List.range' i ns.length).map fun j => ⟨d,parent++[j]⟩)
      else none := by
  induction ns generalizing i flat with
  | nil => simp [flatten2,hflat]
  | cons n ns ih =>
      rw [List.length_cons] at hsize ⊢
      have hi : ¬size < nodeSize*(i+1) := by
        simp only [nodeSize] at hsize ⊢
        omega
      rw [flatten2,if_neg hi,flattenNode_of_not_open (hns n List.mem_cons_self)]
      by_cases hfull : 256 ≤ flat.length
      · rw [if_pos hfull,if_neg (by omega)]
        rfl
      · have hshift : i+1+ns.length = i+(ns.length+1) := by omega
        have hlength : (flat++[(⟨d,parent++[i]⟩ : Flat)]).length = flat.length+1 :=
          List.length_append
        have hnext := @ih (i+1) (flat++[⟨d,parent++[i]⟩])
          (fun m hm => hns m (List.mem_cons_of_mem _ hm)) (hshift ▸ hsize) (by omega)
        have hsum : flat.length+1+ns.length = flat.length+(ns.length+1) := by omega
        rw [if_neg hfull,Option.bind_some,hnext,hlength,hsum,List.range'_succ,List.map_cons,
          List.append_assoc]
        rfl

theorem rowsOf_of_plain {nodes : List TreeNode} (h : Plain nodes) :
    rowsOf nodes = some ((List.range nodes.length).map fun i => ⟨0,[i]⟩) := by
  rw [rowsOf,flatten2_closed h.closed (by rw [Nat.zero_add]) (Nat.zero_le _),
    if_pos (by simpa using h.few)]
  simp [List.range_eq_range']

theorem rowsOf_eq_none {nodes : List TreeNode} (h : ¬Plain nodes) : rowsOf nodes = none := by
  by_cases hopen : ∃ n ∈ nodes, n.Open
  · exact flatten2_none hopen
  · have hclosed : ∀ n ∈ nodes, ¬n.Open := fun n hn ho => hopen ⟨n,hn,ho⟩
    rw [rowsOf,flatten2_closed hclosed (by rw [Nat.zero_add]) (Nat.zero_le _),if_neg]
    intro hfew
    exact h ⟨by simpa using hfew,hclosed⟩

/-! ## `tree.c` -/

structure TreeData where
  base : WidgetBase
  nodes : List TreeNode
  flatIndices : List ℕ
  cursor : ℕ

/-- The numbers of the roots; a child has a number behind those of all roots. -/
def treeRender (d : TreeData) : TreeData :=
  { d with flatIndices := d.nodes.zipIdx.flatMap fun (n,i) =>
      i::if n.expanded = true ∧ 0 < n.children.length then
        (List.range n.children.length).map (d.nodes.length+·) else [] }

def treeHandleEvent (ev : SessionLoop.Event) (d : TreeData) : EventResult × TreeData :=
  match ev with
  | .key .keyEsc _ => (.response ⟨none,false,none⟩,d)
  | .key .keyUp _ => (.handled,{ d with cursor := d.cursor-1, base := d.base.touch })
  | .key .keyDown _ =>
      (.handled,{ d with cursor := if d.cursor+1 < d.flatIndices.length then d.cursor+1 else d.cursor,
                         base := d.base.touch })
  | .key code ch =>
      if code = .keyEnter ∨ code = .keyChar ∧ ch = 32 then
        match d.flatIndices[d.cursor]? with
        | none => (.handled,d)
        | some idx =>
            if idx < d.nodes.length ∧ 0 < (d.nodes[idx]?.map fun n => n.children.length).getD 0 then
              (.handled,{ d with nodes := d.nodes.modify idx TreeNode.toggle, base := d.base.touch })
            else (.handled,d)
      else (.unhandled,d)
  | _ => (.unhandled,d)

def drawIfDirty (d : TreeData) : TreeData :=
  if d.base.dirty then { treeRender d with base := d.base.clear } else d

/-- The event, and the picture that follows if the tree is dirty. -/
def treeStep (d : TreeData) (ev : SessionLoop.Event) : TreeData :=
  drawIfDirty (treeHandleEvent ev d).2

/-- A new tree and its first picture. -/
def treeStart (nodes : List TreeNode) : TreeData :=
  treeRender { base := ({} : WidgetBase).clear, nodes := nodes, flatIndices := [], cursor := 0 }

/-- The node to which the numbers lead is toggled. -/
def toggleAt : List ℕ → List TreeNode → List TreeNode
  | [], nodes => nodes
  | [i], nodes => nodes.modify i TreeNode.toggle
  | i::node, nodes => nodes.modify i fun n => .mk n.label n.expanded (toggleAt node n.children)

/-- Enter and the space. -/
def Toggles (code : KeyCode) (ch : UInt8) : Prop := code = .keyEnter ∨ code = .keyChar ∧ ch = 32

/-- The keys of the widget are about the rows that the renderer shows. -/
structure RowsAgree (d : TreeData) (rows : List Flat) : Prop where
  cursor : d.cursor < rows.length ∨ rows = [] ∧ d.cursor = 0
  up : ∀ ch, (treeStep d (.key .keyUp ch)).cursor = d.cursor-1
  down : ∀ ch, (treeStep d (.key .keyDown ch)).cursor =
    if d.cursor+1 < rows.length then d.cursor+1 else d.cursor
  toggle : ∀ code ch, Toggles code ch → (treeStep d (.key code ch)).nodes =
    toggleAt ((rows[d.cursor]?.map Flat.node).getD []) d.nodes

/-- Both arrays have room, and the rows are those of the widget. -/
structure TreeSound (d : TreeData) : Prop where
  fits : d.flatIndices.length ≤ d.nodes.length*10
  rows : ∃ rows, rowsOf d.nodes = some rows ∧ RowsAgree d rows

/-- Enter and the space are not pressed on a root with children. -/
def OpensNone (d : TreeData) : SessionLoop.Event → Prop
  | .key code ch => Toggles code ch → ∀ n, d.nodes[d.cursor]? = some n → n.children = []
  | _ => True

/-- What holds in a tree with all nodes closed that has been drawn. -/
structure Drawn (d : TreeData) : Prop where
  plain : Plain d.nodes
  indices : d.flatIndices = List.range d.nodes.length
  cursor : d.cursor < d.nodes.length ∨ d.nodes = [] ∧ d.cursor = 0
  clean : d.base.dirty = false

theorem treeRender_indices {d : TreeData} (hd : ∀ n ∈ d.nodes, ¬n.Open) :
    (treeRender d).flatIndices = List.range d.nodes.length := by
  have hflat : ∀ (m : ℕ) (ns : List TreeNode) (i : ℕ), (∀ n ∈ ns, ¬n.Open) →
      ((ns.zipIdx i).flatMap fun (n,i) => i::if n.expanded = true ∧ 0 < n.children.length then
        (List.range n.children.length).map (m+·) else []) = List.range' i ns.length := by
    intro m ns
    induction ns with
    | nil => exact fun _ _ => rfl
    | cons n ns ih =>
        intro i hns
        have hclosed : ¬(n.expanded = true ∧ 0 < n.children.length) := fun h =>
          hns n List.mem_cons_self ⟨h.1,List.length_pos_iff.1 h.2⟩
        rw [List.zipIdx_cons,List.flatMap_cons,ih (i+1) fun m hm => hns m (List.mem_cons_of_mem _ hm)]
        dsimp only
        rw [if_neg hclosed,List.length_cons,List.range'_succ]
        rfl
  rw [treeRender,hflat _ _ _ hd,List.range_eq_range']

theorem drawn_treeStart {nodes : List TreeNode} (h : Plain nodes) : Drawn (treeStart nodes) := by
  refine ⟨h,treeRender_indices h.closed,?_,rfl⟩
  rcases nodes with _ | ⟨n,nodes⟩
  · exact Or.inr ⟨rfl,rfl⟩
  · exact Or.inl (Nat.succ_pos _)

/-- The key that toggles, at a root. -/
theorem treeHandleEvent_toggle {d : TreeData} {code : KeyCode} {ch : UInt8}
    (h : Toggles code ch) : (treeHandleEvent (.key code ch) d) =
      match d.flatIndices[d.cursor]? with
      | none => (.handled,d)
      | some idx =>
          if idx < d.nodes.length ∧ 0 < (d.nodes[idx]?.map fun n => n.children.length).getD 0 then
            (.handled,{ d with nodes := d.nodes.modify idx TreeNode.toggle, base := d.base.touch })
          else (.handled,d) := by
  obtain rfl | ⟨rfl,rfl⟩ := h
  all_goals rfl

theorem modify_of_leaf {nodes : List TreeNode} {i : ℕ}
    (h : ∀ n, nodes[i]? = some n → n.children = []) : nodes.modify i TreeNode.toggle = nodes := by
  apply List.ext_getElem?
  intro j
  rw [List.getElem?_modify]
  split_ifs with hij
  · subst hij
    cases hn : nodes[i]? with
    | none => rfl
    | some n =>
        obtain ⟨label,expanded,children⟩ := n
        have hleaf : children = [] := h _ hn
        simp [TreeNode.toggle,hleaf]
  · exact Option.map_id_apply

theorem Drawn.drawIfDirty {d : TreeData} (hd : Drawn d) : drawIfDirty d = d := by
  rw [TreeRows.drawIfDirty,if_neg (by simp [hd.clean])]

/-- A key that toggles does nothing at a root without children. -/
theorem Drawn.toggle_leaf {d : TreeData} (hd : Drawn d) {code : KeyCode} {ch : UInt8}
    (h : Toggles code ch) (hleaf : ∀ n, d.nodes[d.cursor]? = some n → n.children = []) :
    treeStep d (.key code ch) = d := by
  have hevent : (treeHandleEvent (.key code ch) d).2 = d := by
    rw [treeHandleEvent_toggle h,hd.indices]
    split
    · rfl
    · next idx hidx =>
        have hcursor : idx = d.cursor := by
          obtain ⟨hlt,hget⟩ := List.getElem?_eq_some_iff.1 hidx
          rw [← hget,List.getElem_range]
        rw [hcursor,if_neg]
        rintro ⟨-,hpos⟩
        cases hn : d.nodes[d.cursor]? with
        | none => simp [hn] at hpos
        | some n => simp [hn,hleaf n hn] at hpos
  rw [treeStep,hevent,hd.drawIfDirty]

/-- It toggles a root with children. -/
theorem Drawn.toggle_root {d : TreeData} (hd : Drawn d) {code : KeyCode} {ch : UInt8}
    (h : Toggles code ch) {n : TreeNode} (hn : d.nodes[d.cursor]? = some n)
    (hchildren : n.children ≠ []) :
    (treeStep d (.key code ch)).nodes = d.nodes.modify d.cursor TreeNode.toggle := by
  have hlt : d.cursor < d.nodes.length := (List.getElem?_eq_some_iff.1 hn).1
  have hindex : d.flatIndices[d.cursor]? = some d.cursor := by
    rw [hd.indices,List.getElem?_range hlt]
  have hpos : 0 < (d.nodes[d.cursor]?.map fun n => n.children.length).getD 0 := by
    rw [hn]
    exact List.length_pos_iff.2 hchildren
  have hevent : treeHandleEvent (.key code ch) d = (.handled,
      { d with nodes := d.nodes.modify d.cursor TreeNode.toggle, base := d.base.touch }) := by
    rw [treeHandleEvent_toggle h,hindex]
    exact if_pos ⟨hlt,hpos⟩
  rw [treeStep,hevent]
  rfl

theorem Drawn.toggled {d : TreeData} (hd : Drawn d) {code : KeyCode} {ch : UInt8}
    (h : Toggles code ch) :
    (treeStep d (.key code ch)).nodes = d.nodes.modify d.cursor TreeNode.toggle := by
  by_cases hleaf : ∀ n, d.nodes[d.cursor]? = some n → n.children = []
  · rw [hd.toggle_leaf h hleaf,modify_of_leaf hleaf]
  · obtain ⟨n,hn,hchildren⟩ : ∃ n, d.nodes[d.cursor]? = some n ∧ n.children ≠ [] := by
      simpa using hleaf
    exact hd.toggle_root h hn hchildren

theorem Drawn.sound {d : TreeData} (hd : Drawn d) : TreeSound d := by
  constructor
  · rw [hd.indices,List.length_range]
    omega
  · refine ⟨_,rowsOf_of_plain hd.plain,?_,fun _ => rfl,fun _ => ?_,fun code ch h => ?_⟩
    · rw [List.length_map,List.length_range]
      exact hd.cursor.imp_right fun h => by simp [h.1,h.2]
    · rw [List.length_map,List.length_range]
      have hdown : (treeStep d (.key .keyDown ‹_›)).cursor =
        if d.cursor+1 < d.flatIndices.length then d.cursor+1 else d.cursor := rfl
      rw [hdown,hd.indices,List.length_range]
    · rw [hd.toggled h,List.getElem?_map]
      obtain hlt | ⟨hnil,-⟩ := hd.cursor
      · rw [List.getElem?_range hlt]
        rfl
      · simp [hnil,toggleAt]

theorem Drawn.redrawn {d : TreeData} (hd : Drawn d) {base : WidgetBase} {cursor : ℕ}
    (hcursor : cursor < d.nodes.length ∨ d.nodes = [] ∧ cursor = 0) :
    Drawn { treeRender { d with cursor := cursor } with base := base.clear } :=
  ⟨hd.plain,treeRender_indices hd.plain.closed,hcursor,rfl⟩

theorem drawn_step {d : TreeData} {ev : SessionLoop.Event} (hd : Drawn d) (hev : OpensNone d ev) :
    Drawn (treeStep d ev) := by
  have hstay : Drawn (drawIfDirty d) := hd.drawIfDirty.symm ▸ hd
  by_cases htoggle : ∃ code ch, ev = .key code ch ∧ Toggles code ch
  · obtain ⟨code,ch,rfl,h⟩ := htoggle
    rw [hd.toggle_leaf h (hev h)]
    exact hd
  · unfold treeStep treeHandleEvent
    split
    · exact hstay
    · refine hd.redrawn (hd.cursor.imp (fun h => ?_) fun h => ⟨h.1,by omega⟩)
      exact (Nat.sub_le _ _).trans_lt h
    · refine hd.redrawn ?_
      rw [hd.indices,List.length_range]
      split_ifs with hnext
      · exact Or.inl hnext
      · exact hd.cursor
    · next code ch _ _ _ =>
        have hno : ¬(code = .keyEnter ∨ code = .keyChar ∧ ch = 32) := fun h =>
          htoggle ⟨code,ch,rfl,h⟩
        rw [if_neg hno]
        exact hstay
    · exact hstay

theorem not_sound_of_not_plain {d : TreeData} (h : ¬Plain d.nodes) : ¬TreeSound d := by
  rintro ⟨-,rows,hrows,-⟩
  rw [rowsOf_eq_none h] at hrows
  cases hrows

/-- A root with children is open once it is toggled. -/
theorem not_sound_step {d : TreeData} {ev : SessionLoop.Event} (hd : Drawn d)
    (hev : ¬OpensNone d ev) : ¬TreeSound (treeStep d ev) := by
  cases ev with
  | key code ch =>
      obtain ⟨h,n,hn,hchildren⟩ : Toggles code ch ∧
          ∃ n, d.nodes[d.cursor]? = some n ∧ n.children ≠ [] := by
        simpa [OpensNone] using hev
      have hopen : n.toggle ∈ (treeStep d (.key code ch)).nodes ∧ n.toggle.Open := by
        obtain ⟨label,expanded,children⟩ := n
        have hclosed : expanded = false := by
          have hplain := hd.plain.closed _ (List.mem_of_getElem? hn)
          exact Bool.eq_false_iff.2 fun he => hplain ⟨he,hchildren⟩
        constructor
        · rw [hd.toggle_root h hn hchildren]
          refine List.mem_of_getElem? (i := d.cursor) ?_
          simp [hn]
        · refine ⟨?_,hchildren⟩
          simp only [TreeNode.children] at hchildren
          simp [TreeNode.toggle,TreeNode.expanded,hchildren,hclosed]
      exact not_sound_of_not_plain fun hp => hp.closed _ hopen.1 hopen.2
  | _ => exact absurd trivial hev

/-- In all states of a run the keys are about the rows of the renderer, and both arrays have
room, exactly if the tree starts with at most 256 rows and no open node and no key opens
one. -/
theorem tree_sound_iff (nodes : List TreeNode) (evs : List SessionLoop.Event) :
    Always treeStep TreeSound (treeStart nodes) evs ↔
      Plain nodes ∧ Guarded treeStep OpensNone (treeStart nodes) evs := by
  by_cases h : Plain nodes
  · have hrun : Always treeStep TreeSound (treeStart nodes) evs ↔
        Guarded treeStep OpensNone (treeStart nodes) evs :=
      always_iff_guarded (I := Drawn) (fun _ => Drawn.sound) (fun _ _ => drawn_step)
        (fun _ _ => not_sound_step) (drawn_treeStart h) evs
    exact hrun.trans (and_iff_right h).symm
  · exact iff_of_false (fun ha => not_sound_of_not_plain h ha.start) fun hp => h hp.1

/-- A request with 257 nodes is drawn past the end of the array of rows, and so is one node
with a child after Enter. -/
theorem rows_leave_their_array :
    ¬Always treeStep TreeSound (treeStart (List.replicate 257 (.mk (bytes "x") false []))) [] ∧
      ¬Always treeStep TreeSound
        (treeStart [.mk (bytes "a") false [.mk (bytes "b") false []]]) [.key .keyEnter 0] := by
  constructor
  · intro h
    refine not_sound_of_not_plain (fun hplain => ?_) h
    have hfew : (List.replicate 257 (TreeNode.mk (bytes "x") false [])).length ≤ 256 := hplain.few
    rw [List.length_replicate] at hfew
    omega
  · rintro ⟨-,h⟩
    have hplain : Plain [.mk (bytes "a") false [.mk (bytes "b") false []]] := by
      refine ⟨Nat.succ_le_succ (Nat.zero_le _),fun n hn ho => ?_⟩
      rw [List.mem_singleton.1 hn] at ho
      cases ho.1
    refine not_sound_step (drawn_treeStart hplain) (fun hopens => ?_) h
    exact absurd (hopens (Or.inl rfl) _ rfl) (by simp [TreeNode.children])

end Filly.TreeRows

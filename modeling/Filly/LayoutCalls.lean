import Filly.Layout
import Mathlib.Logic.Relation

/-!
# The calls of `layout_node`

Laying out a tree is a sequence of calls of `layout_node`, each with a node whose
rectangle has been set by the caller and with a frame. The cut-off of the
recursion is never reached, so `layoutNode` satisfies the equation of the source;
every call made on the way leaves its result among the children of the result of
its caller.
-/
namespace Filly.Layout
open Rectangles

/-! ## Writing every place of an array once -/

section Writes
variable {α : Type}

theorem foldl_set_length (writes : List (ℕ × α)) (out : List α) :
    (writes.foldl (fun out p => out.set p.1 p.2) out).length = out.length := by
  induction writes generalizing out with
  | nil => rfl
  | cons p writes ih =>
      rw [List.foldl_cons,ih]
      simp

theorem foldl_set_other {writes : List (ℕ × α)} {i : ℕ} (h : i ∉ writes.map Prod.fst)
    (out : List α) : (writes.foldl (fun out p => out.set p.1 p.2) out)[i]? = out[i]? := by
  induction writes generalizing out with
  | nil => rfl
  | cons p writes ih =>
      simp only [List.map_cons,List.mem_cons,not_or] at h
      rw [List.foldl_cons,ih h.2,List.getElem?_set_ne (Ne.symm h.1)]

theorem foldl_set_written {writes : List (ℕ × α)} (hn : (writes.map Prod.fst).Nodup)
    {out : List α} (hlt : ∀ p ∈ writes, p.1 < out.length) :
    ∀ p ∈ writes, (writes.foldl (fun out p => out.set p.1 p.2) out)[p.1]? = some p.2 := by
  induction writes generalizing out with
  | nil => simp
  | cons q writes ih =>
      simp only [List.map_cons,List.nodup_cons] at hn
      intro p hp
      rw [List.foldl_cons]
      rcases List.mem_cons.mp hp with rfl | hp
      · rw [foldl_set_other hn.1,List.getElem?_set_self (hlt p List.mem_cons_self)]
      · exact ih hn.2 (fun p hp => by simpa using hlt p (List.mem_cons_of_mem _ hp)) p hp

/-- Read back in the order in which they were written. -/
theorem foldl_set_read {writes : List (ℕ × α)} {out : List α}
    (h : (writes.map Prod.fst).Perm (List.range out.length)) :
    (writes.map Prod.fst).map ((writes.foldl (fun out p => out.set p.1 p.2) out)[·]?) =
      (writes.map Prod.snd).map some := by
  have hn : (writes.map Prod.fst).Nodup := h.nodup_iff.mpr List.nodup_range
  have hlt : ∀ p ∈ writes, p.1 < out.length := fun p hp =>
    List.mem_range.mp (h.mem_iff.mp (List.mem_map_of_mem hp))
  rw [List.map_map,List.map_map]
  exact List.map_congr_left fun p hp => foldl_set_written hn hlt p hp

/-- Values written in any order, one to each place. -/
theorem foldl_set_perm {writes : List (ℕ × α)} {out : List α}
    (h : (writes.map Prod.fst).Perm (List.range out.length)) :
    (writes.foldl (fun out p => out.set p.1 p.2) out).Perm (writes.map Prod.snd) := by
  have hread := foldl_set_read h
  have hlen := foldl_set_length writes out
  generalize writes.foldl (fun out p => out.set p.1 p.2) out = final at hread hlen ⊢
  have hall : final.map some = (List.range out.length).map (final[·]?) := by
    rw [← hlen]
    exact List.ext_getElem (by simp) (by simp)
  rw [← List.map_perm_map_iff (Option.some_injective α),hall,← hread]
  exact (h.map _).symm

end Writes

/-! ## The recursion of `layout_node` -/

@[simp] theorem node_withRect (t : RenderTree) (r : Rect) :
    (t.withRect r).node = { t.node with rect := r } := rfl

@[simp] theorem u_withRect (t : RenderTree) (r : Rect) : (t.withRect r).u = t.u := rfl

@[simp] theorem rect_withRect (t : RenderTree) (r : Rect) : (t.withRect r).rect = r := rfl

@[simp] theorem depth_withRect (t : RenderTree) (r : Rect) : (t.withRect r).depth = t.depth := by
  cases t
  rfl

theorem depth_le_depthList {c : RenderTree} {cs : List RenderTree} (h : c ∈ cs) :
    c.depth ≤ depthList cs := by
  induction cs with
  | nil => simp at h
  | cons d cs ih =>
      rw [depthList]
      rcases List.mem_cons.mp h with rfl | h
      · exact le_max_left _ _
      · exact (ih h).trans (le_max_right _ _)

theorem depth_le_depthOption {c : RenderTree} {o : Option RenderTree} (h : c ∈ o.toList) :
    c.depth ≤ depthOption o := by
  cases o with
  | none => simp at h
  | some d =>
      obtain rfl : c = d := by simpa using h
      exact le_refl _

theorem depth_lt_of_mem {t c : RenderTree} (h : c ∈ t.children) : c.depth < t.depth := by
  obtain ⟨node,u⟩ := t
  rw [RenderTree.depth,Nat.lt_succ_iff]
  cases u with
  | container cs | flex _ _ cs | grid _ cs => exact depth_le_depthList h
  | tabs child => exact depth_le_depthOption h
  | splitPanes _ _ first second third =>
      simp only [RenderTree.children,RenderTree.u,Content.children,List.mem_append] at h
      rcases h with (h | h) | h <;> have := depth_le_depthOption h <;> simp only [depthContent] <;> omega
  | text _ | list _ | table _ | tree _ | gauge | calendar | form _ | leaf _ =>
      simp [RenderTree.children,RenderTree.u,Content.children] at h

@[simp] theorem childCall_depth (isPixel : Bool) (content : Rect) (curY : ℤ)
    (siblings : List RenderTree) (child : RenderTree) :
    (childCall isPixel content curY siblings child).1.depth = child.depth := by
  unfold childCall
  split <;> simp

theorem layoutChildren_congr {isPixel : Bool} {f g : RenderTree → Rect → RenderTree}
    {content : Rect} {d : ℕ} (hfg : ∀ c frame, c.depth < d → f c frame = g c frame)
    (cs : List (ℕ × RenderTree)) (hd : ∀ p ∈ cs, p.2.depth < d) (curY : ℤ)
    (siblings : List RenderTree) :
    layoutChildren isPixel f content cs curY siblings =
      layoutChildren isPixel g content cs curY siblings := by
  induction cs generalizing curY siblings with
  | nil => rfl
  | cons p cs ih =>
      obtain ⟨i,child⟩ := p
      have hc := hfg (childCall isPixel content curY siblings child).1
        (childCall isPixel content curY siblings child).2 (by
          rw [childCall_depth]
          exact hd _ List.mem_cons_self)
      simp only [layoutChildren,hc]
      exact ih (fun p hp => hd p (List.mem_cons_of_mem _ hp)) _ _

theorem sortedChildren_perm (cs : List RenderTree) :
    (sortedChildren cs).Perm (cs.mapIdx Prod.mk) := List.perm_insertionSort _ _

theorem mem_of_mem_sortedChildren {cs : List RenderTree} {p : ℕ × RenderTree}
    (h : p ∈ sortedChildren cs) : p.2 ∈ cs := by
  obtain ⟨i,hi,rfl⟩ := List.mem_mapIdx.mp ((sortedChildren_perm cs).mem_iff.mp h)
  exact List.getElem_mem hi

theorem layoutBody_congr {isPixel : Bool} {f g : RenderTree → Rect → RenderTree}
    {t : RenderTree} (hfg : ∀ c frame, c.depth < t.depth → f c frame = g c frame)
    (frame : Rect) : layoutBody isPixel f t frame = layoutBody isPixel g t frame := by
  obtain ⟨node,u⟩ := t
  have hmem : ∀ c ∈ u.children, c.depth < (RenderTree.mk node u).depth := fun c hc =>
    depth_lt_of_mem hc
  unfold layoutBody
  split
  · rfl
  · cases u with
    | container cs =>
        simp only [RenderTree.u]
        rw [layoutChildren_congr hfg (sortedChildren cs) fun p hp =>
          hmem p.2 (mem_of_mem_sortedChildren hp)]
    | tabs child =>
        cases child with
        | none => rfl
        | some c => simp [RenderTree.u,hfg c _ (hmem c (by simp [Content.children]))]
    | splitPanes o sp first second third =>
        have h1 : ∀ c ∈ first, ∀ frame, f c frame = g c frame := fun c hc frame =>
          hfg c frame (hmem c (by simp [Content.children,Option.mem_def.mp hc]))
        have h2 : ∀ c ∈ second, ∀ frame, f c frame = g c frame := fun c hc frame =>
          hfg c frame (hmem c (by simp [Content.children,Option.mem_def.mp hc]))
        simp only [RenderTree.u]
        congr 2
        · exact Option.map_congr fun c hc => h1 c hc _
        · exact Option.map_congr fun c hc => h2 c hc _
    | text _ | list _ | table _ | tree _ | gauge | calendar | form _ | flex _ _ _ | grid _ _
    | leaf _ => rfl

/-- More levels than the tree has make no difference. -/
theorem layoutLevels_agree (isPixel : Bool) {n m : ℕ} {t : RenderTree} (hn : t.depth ≤ n)
    (hm : t.depth ≤ m) (frame : Rect) :
    layoutLevels isPixel n t frame = layoutLevels isPixel m t frame := by
  have hpos : 0 < t.depth := by
    obtain ⟨node,u⟩ := t
    exact Nat.succ_pos _
  induction n generalizing m t frame with
  | zero => omega
  | succ n ih =>
      obtain ⟨m,rfl⟩ : ∃ k, m = k+1 := ⟨m-1,by omega⟩
      refine layoutBody_congr (fun c g hc => ih (by omega) (by omega) g ?_) frame
      obtain ⟨node,u⟩ := c
      exact Nat.succ_pos _

theorem layoutNode_eq (isPixel : Bool) (t : RenderTree) (frame : Rect) :
    layoutNode isPixel t frame = layoutBody isPixel (layoutNode isPixel) t frame := by
  obtain ⟨d,hd⟩ : ∃ d, t.depth = d+1 := by
    obtain ⟨node,u⟩ := t
    exact ⟨_,rfl⟩
  rw [layoutNode,hd,layoutLevels]
  exact layoutBody_congr (fun c g hc => layoutLevels_agree isPixel (by omega) le_rfl g) frame

theorem layoutNode_small {isPixel : Bool} {t : RenderTree} {frame : Rect}
    (h : frame.w ≤ 0 ∨ frame.h ≤ 0) : layoutNode isPixel t frame = t := by
  rw [layoutNode_eq,layoutBody,if_pos h]

/-! ## The record of a node -/

/-- Everything `layout_node` leaves alone in a node. -/
structure SameRecord (a b : Node) : Prop where
  zIndex : a.zIndex = b.zIndex
  anchor : a.anchor = b.anchor
  overflow : a.overflow = b.overflow

theorem SameRecord.trans {a b c : Node} (h : SameRecord a b) (k : SameRecord b c) :
    SameRecord a c :=
  ⟨h.zIndex.trans k.zIndex,h.anchor.trans k.anchor,h.overflow.trans k.overflow⟩

theorem computeAnchor_record (node : Node) (w h : ℤ) :
    SameRecord (computeAnchor node w h) node := by
  unfold computeAnchor
  split <;> exact ⟨rfl,rfl,rfl⟩

theorem clampOverflow_record (node : Node) (parent : Rect) :
    SameRecord (clampOverflow node parent) node := by
  unfold clampOverflow
  split <;> exact ⟨rfl,rfl,rfl⟩

theorem wantedNode_record (node : Node) (frame : Rect) :
    SameRecord (wantedNode node frame) node := by
  have htarget : SameRecord (takeTarget node) node := by
    unfold takeTarget
    split <;> exact ⟨rfl,rfl,rfl⟩
  have hanchor : SameRecord (anchorNode (takeTarget node) frame) (takeTarget node) := by
    unfold anchorNode
    split
    · exact computeAnchor_record _ _ _
    · exact ⟨rfl,rfl,rfl⟩
  have hlimits : SameRecord (wantedNode node frame) (anchorNode (takeTarget node) frame) :=
    ⟨rfl,rfl,rfl⟩
  exact hlimits.trans (hanchor.trans htarget)

theorem placeNode_record (node : Node) (frame : Rect) :
    SameRecord (placeNode node frame) node :=
  (clampOverflow_record _ _).trans (wantedNode_record node frame)

theorem clampOverflow_clip {node : Node} (h : node.overflow = .clip) (parent : Rect) :
    (clampOverflow node parent).rect =
      ⟨max node.rect.x parent.x,max node.rect.y parent.y,
        min node.rect.w (parent.x+parent.w-max node.rect.x parent.x),
        min node.rect.h (parent.y+parent.h-max node.rect.y parent.y)⟩ := by
  have hx : (if node.rect.x < parent.x then parent.x else node.rect.x) =
      max node.rect.x parent.x := by split <;> omega
  have hy : (if node.rect.y < parent.y then parent.y else node.rect.y) =
      max node.rect.y parent.y := by split <;> omega
  simp only [clampOverflow,h,hx,hy,gt_iff_lt,Rect.mk.injEq,true_and]
  constructor <;> split <;> omega

theorem clampOverflow_free {node : Node} (h : node.overflow ≠ .clip) (parent : Rect) :
    clampOverflow node parent = node := by
  unfold clampOverflow
  split
  · rfl
  · rfl
  · exact absurd ‹_› h

/-- `line_h` at the end of the second pass. -/
def flexLineH (isPixel : Bool) (cs : List RenderTree) : ℤ :=
  cs.foldl (fun m c => max m (flexChildH isPixel c)) 0

theorem place_lineH (b : FlexBox) (cur : FlexCursor) (cs : List RenderTree) :
    (b.place cur cs).2.lineH = cs.foldl (fun m c => max m (b.childH c)) cur.lineH := by
  induction cs generalizing cur with
  | nil => rfl
  | cons c cs ih =>
      rw [FlexBox.place,ih,List.foldl_cons]
      congr 1
      simp only [FlexBox.advance,FlexBox.turnLine]
      split <;> simp only [gt_iff_lt] <;> split <;> omega

/-- The height of all rows of a grid. -/
def gridHeight (isPixel : Bool) (columns : ℤ) (count : ℕ) : ℤ :=
  let cols := if columns > 0 then columns else 1
  ((count : ℤ)+cols-1).tdiv cols*(rowHeight isPixel+gapOf isPixel)-gapOf isPixel

/-- The height that the contents of a node give it, if they do. A flex row is as
high as its tallest child and a gap, and as its frame is far from the top; a grid
is as high as its rows. -/
def contentHeight (isPixel : Bool) (u : Content RenderTree) (offY : ℤ) : Option ℤ :=
  match u with
  | .flex direction _ (c::cs) =>
      if isRow direction then some (offY+flexLineH isPixel (c::cs)+gapOf isPixel) else none
  | .grid columns (c::cs) => some (gridHeight isPixel columns (c::cs).length)
  | _ => none

/-- The height a node ends with, from the one it has been placed with. -/
def settledHeight (isPixel : Bool) (u : Content RenderTree) (offY placed : ℤ) : ℤ :=
  (contentHeight isPixel u offY).getD placed

/-- What becomes of the node of a call that is not turned away. -/
theorem layoutNode_node {isPixel : Bool} {t : RenderTree} {frame : Rect}
    (hpos : ¬(frame.w ≤ 0 ∨ frame.h ≤ 0)) :
    (layoutNode isPixel t frame).node =
      { placeNode t.node frame with rect :=
          { (placeNode t.node frame).rect with
            h := settledHeight isPixel t.u frame.y (placeNode t.node frame).rect.h } } := by
  obtain ⟨node,u⟩ := t
  rw [layoutNode_eq,layoutBody,if_neg hpos]
  cases u with
  | flex direction wrap cs =>
      cases cs with
      | nil => simp [layoutFlex,RenderTree.node,RenderTree.u,settledHeight,contentHeight]
      | cons c cs =>
          simp only [layoutFlex,reduceCtorEq,if_false,RenderTree.node,RenderTree.u,settledHeight,
            contentHeight,contentFrame,Rect.shift,place_lineH,flexBox,FlexBox.start]
          split
          · rw [flexLineH,Option.getD_some]
            congr 2
            ring
          · rfl
  | grid columns cs =>
      cases cs with
      | nil => simp [layoutGrid,RenderTree.node,RenderTree.u,settledHeight,contentHeight]
      | cons c cs => simp [layoutGrid,RenderTree.node,RenderTree.u,settledHeight,contentHeight,
          gridHeight,contentFrame,Rect.shift]
  | container _ | text _ | list _ | table _ | tree _ | gauge | calendar | form _ | tabs _
  | splitPanes _ _ _ _ _ | leaf _ => rfl

/-- The rectangle that a call gives its node. -/
def settledRect (isPixel : Bool) (t : RenderTree) (frame : Rect) : Rect :=
  if frame.w ≤ 0 ∨ frame.h ≤ 0 then t.rect
  else
    let placed := (placeNode t.node frame).rect
    { placed with h := settledHeight isPixel t.u frame.y placed.h }

theorem layoutNode_rect (isPixel : Bool) (t : RenderTree) (frame : Rect) :
    (layoutNode isPixel t frame).rect = settledRect isPixel t frame := by
  unfold settledRect
  split_ifs with hpos
  · rw [layoutNode_small hpos]
  · rw [RenderTree.rect,layoutNode_node hpos]

theorem layoutNode_record (isPixel : Bool) (t : RenderTree) (frame : Rect) :
    SameRecord (layoutNode isPixel t frame).node t.node := by
  by_cases hpos : frame.w ≤ 0 ∨ frame.h ≤ 0
  · rw [layoutNode_small hpos]
    exact ⟨rfl,rfl,rfl⟩
  · have h := placeNode_record t.node frame
    rw [layoutNode_node hpos]
    exact ⟨h.zIndex,h.anchor,h.overflow⟩

/-! ## Calls and their results -/

/-- A call of `layout_node`: the node as it is handed over, and the frame. -/
abbrev Call := RenderTree × Rect

/-- The node that a call leaves behind. -/
def Call.result (isPixel : Bool) (call : Call) : RenderTree := layoutNode isPixel call.1 call.2

/-- The calls of the loop over the sorted children, each with the place of its
child. -/
def childCalls (isPixel : Bool) (content : Rect) :
    List (ℕ × RenderTree) → ℤ → List RenderTree → List (ℕ × Call)
  | [], _, _ => []
  | (i,child)::rest, curY, siblings =>
      let call : Call := childCall isPixel content curY siblings child
      let done := call.result isPixel
      (i,call)::childCalls isPixel content rest
        (if child.flows then curY+done.rect.h else curY) (siblings.set i done)

theorem childCalls_fst (isPixel : Bool) (content : Rect) (cs : List (ℕ × RenderTree)) (curY : ℤ)
    (siblings : List RenderTree) :
    (childCalls isPixel content cs curY siblings).map Prod.fst = cs.map Prod.fst := by
  induction cs generalizing curY siblings with
  | nil => rfl
  | cons p cs ih =>
      rw [childCalls,List.map_cons,ih]
      rfl

theorem layoutChildren_eq_writes (isPixel : Bool) (content : Rect) (cs : List (ℕ × RenderTree))
    (curY : ℤ) (siblings : List RenderTree) :
    layoutChildren isPixel (layoutNode isPixel) content cs curY siblings =
      ((childCalls isPixel content cs curY siblings).map fun p => (p.1,p.2.result isPixel)).foldl
        (fun out p => out.set p.1 p.2) siblings := by
  induction cs generalizing curY siblings with
  | nil => rfl
  | cons p cs ih =>
      rw [layoutChildren,ih]
      rfl

/-- The calls that a call on a container makes itself. -/
def containerCalls (isPixel : Bool) (node : Node) (children : List RenderTree) (frame : Rect) :
    List (ℕ × Call) :=
  let content := contentFrame (placeNode node frame) frame
  childCalls isPixel content (sortedChildren children) content.y children

theorem sortedChildren_fst (cs : List RenderTree) :
    ((sortedChildren cs).map Prod.fst).Perm (List.range cs.length) := by
  refine ((sortedChildren_perm cs).map Prod.fst).trans (.of_eq ?_)
  exact List.ext_getElem (by simp) (by simp)

theorem containerCalls_fst (isPixel : Bool) (node : Node) (cs : List RenderTree) (frame : Rect) :
    ((containerCalls isPixel node cs frame).map Prod.fst).Perm (List.range cs.length) := by
  rw [containerCalls,childCalls_fst]
  exact sortedChildren_fst cs

/-- The calls that a call makes itself. -/
def innerCalls (isPixel : Bool) (call : Call) : List Call :=
  if call.2.w ≤ 0 ∨ call.2.h ≤ 0 then []
  else
    let content := contentFrame (placeNode call.1.node call.2) call.2
    match call.1.u with
    | .container children =>
        (containerCalls isPixel call.1.node children call.2).map Prod.snd
    | .tabs child => child.toList.map fun c => (c,tabFrame isPixel content)
    | .splitPanes orientation splitPosition first second _ =>
        let sp := splitAt orientation splitPosition content
        (first.toList.map fun c => (c,firstPane orientation sp content))++
          second.toList.map fun c => (c,secondPane orientation sp content)
    | _ => []

/-- The children of a laid out container are the results of its calls, each at
the place of its child. -/
theorem layoutNode_container (isPixel : Bool) (node : Node) (cs : List RenderTree) {frame : Rect}
    (hpos : ¬(frame.w ≤ 0 ∨ frame.h ≤ 0)) :
    (layoutNode isPixel (.mk node (.container cs)) frame).children =
      ((containerCalls isPixel node cs frame).map fun p => (p.1,p.2.result isPixel)).foldl
        (fun out p => out.set p.1 p.2) cs := by
  rw [layoutNode_eq,layoutBody,if_neg hpos]
  exact layoutChildren_eq_writes isPixel _ _ _ _

theorem layoutNode_container_perm (isPixel : Bool) (node : Node) (cs : List RenderTree)
    {frame : Rect} (hpos : ¬(frame.w ≤ 0 ∨ frame.h ≤ 0)) :
    (layoutNode isPixel (.mk node (.container cs)) frame).children.Perm
      ((containerCalls isPixel node cs frame).map fun p => p.2.result isPixel) := by
  rw [layoutNode_container isPixel node cs hpos]
  refine (foldl_set_perm ?_).trans (.of_eq ?_)
  · rw [List.map_map]
    exact containerCalls_fst isPixel node cs frame
  · rw [List.map_map]
    rfl

/-- The children that come out without a call of their own. -/
def stillChildren (isPixel : Bool) (call : Call) : List RenderTree :=
  if call.2.w ≤ 0 ∨ call.2.h ≤ 0 then call.1.children
  else
    let content := contentFrame (placeNode call.1.node call.2) call.2
    match call.1.u with
    | .flex direction wrap children =>
        let b := flexBox isPixel direction wrap children content
        (b.place b.start children).1.map limitChild
    | .grid columns children => children.mapIdx fun i c =>
        limitChild (c.withRect (gridCell isPixel (if columns > 0 then columns else 1) content i))
    | .splitPanes _ _ _ _ third => third.toList
    | _ => []

/-- The children of a result are the results of the calls made for them and those
that needed none. -/
theorem result_children (isPixel : Bool) (call : Call) :
    (call.result isPixel).children.Perm
      ((innerCalls isPixel call).map (Call.result isPixel)++stillChildren isPixel call) := by
  obtain ⟨⟨node,u⟩,frame⟩ := call
  unfold innerCalls stillChildren
  by_cases hpos : frame.w ≤ 0 ∨ frame.h ≤ 0
  · simp only [if_pos hpos,Call.result,layoutNode_small hpos]
    exact .refl _
  · simp only [if_neg hpos]
    cases u with
    | container cs =>
        refine (layoutNode_container_perm isPixel node cs hpos).trans (.of_eq ?_)
        simp [RenderTree.u,RenderTree.node,Function.comp_def]
    | tabs child =>
        rw [Call.result,layoutNode_eq,layoutBody,if_neg hpos]
        cases child <;> exact .refl _
    | splitPanes o sp first second third =>
        rw [Call.result,layoutNode_eq,layoutBody,if_neg hpos]
        cases first <;> cases second <;> cases third <;> exact .refl _
    | flex direction wrap cs =>
        rw [Call.result,layoutNode_eq,layoutBody,if_neg hpos]
        cases cs <;> exact .refl _
    | grid columns cs =>
        rw [Call.result,layoutNode_eq,layoutBody,if_neg hpos]
        cases cs <;> exact .refl _
    | text _ | list _ | table _ | tree _ | gauge | calendar | form _ | leaf _ =>
        rw [Call.result,layoutNode_eq,layoutBody,if_neg hpos]
        exact .refl _

theorem result_mem_children {isPixel : Bool} {call inner : Call}
    (h : inner ∈ innerCalls isPixel call) :
    inner.result isPixel ∈ (call.result isPixel).children :=
  (result_children isPixel call).mem_iff.mpr
    (List.mem_append_left _ (List.mem_map_of_mem h))

theorem childCalls_depth {isPixel : Bool} {content : Rect} {cs : List (ℕ × RenderTree)} {d : ℕ}
    (hd : ∀ p ∈ cs, p.2.depth < d) (curY : ℤ) (siblings : List RenderTree) :
    ∀ p ∈ childCalls isPixel content cs curY siblings, p.2.1.depth < d := by
  induction cs generalizing curY siblings with
  | nil => simp [childCalls]
  | cons q cs ih =>
      rw [childCalls]
      refine List.forall_mem_cons.mpr ⟨?_,ih (fun p hp => hd p (List.mem_cons_of_mem _ hp)) _ _⟩
      rw [childCall_depth]
      exact hd q List.mem_cons_self

/-- A call is made for a child of the node. -/
theorem innerCalls_depth {isPixel : Bool} {call inner : Call}
    (h : inner ∈ innerCalls isPixel call) : inner.1.depth < call.1.depth := by
  obtain ⟨⟨node,u⟩,frame⟩ := call
  have hmem : ∀ c ∈ u.children, c.depth < (RenderTree.mk node u).depth := fun c hc =>
    depth_lt_of_mem hc
  simp only [innerCalls] at h
  split at h
  · simp at h
  · cases u with
    | container cs =>
        obtain ⟨p,hp,rfl⟩ := List.mem_map.mp h
        exact childCalls_depth (fun q hq => hmem _ (mem_of_mem_sortedChildren hq)) _ _ p hp
    | tabs child =>
        obtain ⟨c,hc,rfl⟩ := List.mem_map.mp h
        exact hmem c hc
    | splitPanes o sp first second third =>
        rcases List.mem_append.mp h with h | h
        · obtain ⟨c,hc,rfl⟩ := List.mem_map.mp h
          exact hmem c (List.mem_append_left _ (List.mem_append_left _ hc))
        · obtain ⟨c,hc,rfl⟩ := List.mem_map.mp h
          exact hmem c (List.mem_append_left _ (List.mem_append_right _ hc))
    | text _ | list _ | table _ | tree _ | gauge | calendar | form _ | flex _ _ _ | grid _ _
    | leaf _ => simp [RenderTree.u] at h

/-- The calls that laying out a tree makes, with the call for the tree itself. -/
def Calls (isPixel : Bool) : Call → Call → Prop :=
  Relation.ReflTransGen fun call inner => inner ∈ innerCalls isPixel call

/-- `t` is the tree itself or hangs from it. -/
def Below : RenderTree → RenderTree → Prop := Relation.ReflTransGen fun t c => c ∈ t.children

/-- The result of every call made on the way is a part of the result. -/
theorem Calls.below {isPixel : Bool} {call inner : Call} (h : Calls isPixel call inner) :
    Below (call.result isPixel) (inner.result isPixel) :=
  h.lift (Call.result isPixel) fun _ _ => result_mem_children

/-- The call that `layout_tree` makes. -/
def surfaceCall (tree : RenderTree) (w h : ℤ) : Call := (tree.withRect ⟨0,0,w,h⟩,⟨0,0,w,h⟩)

theorem layoutTree_eq {tree : RenderTree} {w h : ℤ} {isPixel : Bool} (hw : 0 < w) (hh : 0 < h) :
    layoutTree tree w h isPixel = (surfaceCall tree w h).result isPixel := by
  rw [layoutTree,if_neg (by omega)]
  rfl

end Filly.Layout

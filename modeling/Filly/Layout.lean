import Filly.CJson
import Filly.Rectangles
import Mathlib.Data.List.Sort

/-!
# The layout of a render tree

This is `core/layout.c` with the fields of `RenderTree` that it reads, and
`hit_test` of `core/session.c`. Coordinates are integers; the z-indices, whose
difference `cmp_z_index` hands to `qsort`, are 32 bits wide. A null child array
is an empty one. The positions stored in the tree are changed by giving the
changed tree back; a child that its parent moves before laying it out is handed
on with its new rectangle.
-/
namespace Filly.Layout
open CJson Rectangles

inductive Overflow where
  | visible | clip | scroll
  deriving DecidableEq, Repr

inductive AnchorMode where
  | topLeft | topCenter | topRight
  | centerLeft | center | centerRight
  | bottomLeft | bottomCenter | bottomRight
  | absolute | relative
  deriving DecidableEq, Repr

inductive Orientation where
  | horizontal | vertical
  deriving DecidableEq, Repr

structure WidgetStyle where
  minWidth : ℤ := 0
  minHeight : ℤ := 0
  maxWidth : ℤ := 0
  maxHeight : ℤ := 0
  fontSize : ℤ := 0
  deriving DecidableEq, Repr

/-- A `RenderTree` record without its union. -/
structure Node where
  rect : Rect := ⟨0,0,0,0⟩
  targetRect : Rect := ⟨0,0,0,0⟩
  hasTargetRect : Bool := false
  styleClass : Option Bytes := none
  resolvedStyle : WidgetStyle := {}
  zIndex : Int32 := 0
  anchor : AnchorMode := .topLeft
  anchorDx : ℤ := 0
  anchorDy : ℤ := 0
  relativeTo : Option Bytes := none
  overflow : Overflow := .visible
  deriving DecidableEq, Repr

/-- The node types whose contents play no part in the layout. -/
inductive Leaf where
  | input | checkbox | toggle | spinner | separator | badge | cursor | contextMenu | toast
  | vector | richText | image | canvas | markdown | plot | video
  deriving DecidableEq, Repr

/-- The union of a `RenderTree` record. -/
inductive Content (α : Type) where
  | container (children : List α)
  | text (content : Option Bytes)
  | list (itemCount : ℕ)
  | table (rowCount : ℕ)
  | tree (nodeCount : ℕ)
  | gauge
  | calendar
  | form (fieldCount : ℕ)
  | tabs (child : Option α)
  | splitPanes (orientation : Orientation) (splitPosition : ℤ) (first second third : Option α)
  | flex (direction wrap : Option Bytes) (children : List α)
  | grid (columns : ℤ) (children : List α)
  | leaf (type : Leaf)

inductive RenderTree where
  | mk (node : Node) (u : Content RenderTree)

namespace RenderTree

def node : RenderTree → Node
  | .mk node _ => node

def u : RenderTree → Content RenderTree
  | .mk _ u => u

def rect (t : RenderTree) : Rect := t.node.rect

def withRect (t : RenderTree) (r : Rect) : RenderTree := .mk { t.node with rect := r } t.u

end RenderTree

def Content.children {α : Type} : Content α → List α
  | .container cs | .flex _ _ cs | .grid _ cs => cs
  | .tabs child => child.toList
  | .splitPanes _ _ first second third => first.toList++second.toList++third.toList
  | .text _ | .list _ | .table _ | .tree _ | .gauge | .calendar | .form _ | .leaf _ => []

/-- All nodes that hang from a node. -/
def RenderTree.children (t : RenderTree) : List RenderTree := t.u.children

mutual
def RenderTree.depth : RenderTree → ℕ
  | .mk _ u => depthContent u+1

def depthContent : Content RenderTree → ℕ
  | .container cs | .flex _ _ cs | .grid _ cs => depthList cs
  | .tabs child => depthOption child
  | .splitPanes _ _ first second third =>
      max (depthOption first) (max (depthOption second) (depthOption third))
  | .text _ | .list _ | .table _ | .tree _ | .gauge | .calendar | .form _ | .leaf _ => 0

def depthList : List RenderTree → ℕ
  | [] => 0
  | c::cs => max c.depth (depthList cs)

def depthOption : Option RenderTree → ℕ
  | none => 0
  | some c => c.depth
end

/-! ## One node -/

/-- What `cmp_z_index` returns: a difference of two `int`s. -/
def cmpZIndex (a b : RenderTree) : ℤ := (a.node.zIndex-b.node.zIndex).toInt

def computeAnchor (node : Node) (surfaceW surfaceH : ℤ) : Node :=
  let put (x y : ℤ) : Node :=
    { node with rect := { node.rect with x := x+node.anchorDx, y := y+node.anchorDy } }
  let midX := (surfaceW-node.rect.w).tdiv 2
  let midY := (surfaceH-node.rect.h).tdiv 2
  match node.anchor with
  | .topLeft => put 0 0
  | .topCenter => put midX 0
  | .topRight => put (surfaceW-node.rect.w) 0
  | .centerLeft => put 0 midY
  | .center => put midX midY
  | .centerRight => put (surfaceW-node.rect.w) midY
  | .bottomLeft => put 0 (surfaceH-node.rect.h)
  | .bottomCenter => put midX (surfaceH-node.rect.h)
  | .bottomRight => put (surfaceW-node.rect.w) (surfaceH-node.rect.h)
  | .absolute | .relative => node

def clampOverflow (node : Node) (parent : Rect) : Node :=
  match node.overflow with
  | .visible | .scroll => node
  | .clip =>
      let x := if node.rect.x < parent.x then parent.x else node.rect.x
      let y := if node.rect.y < parent.y then parent.y else node.rect.y
      let w := if x+node.rect.w > parent.x+parent.w then parent.x+parent.w-x else node.rect.w
      let h := if y+node.rect.h > parent.y+parent.h then parent.y+parent.h-y else node.rect.h
      { node with rect := ⟨x,y,w,h⟩ }

/-- A size raised to its minimum and then cut to its maximum, where these are
set. -/
def withinLimits (lo hi size : ℤ) : ℤ :=
  let size := if lo > 0 ∧ size < lo then lo else size
  if hi > 0 ∧ size > hi then hi else size

def applyMinMax (node : Node) : Node :=
  let ws := node.resolvedStyle
  { node with rect :=
      { node.rect with
        w := withinLimits ws.minWidth ws.maxWidth node.rect.w
        h := withinLimits ws.minHeight ws.maxHeight node.rect.h } }

def measureTextWidth (text : Option Bytes) (fontSize : ℤ) (isPixel : Bool) : ℤ :=
  match text with
  | none => 0
  | some text => if isPixel then ((text.length : ℤ)*fontSize).tdiv 2 else text.length

def measureTextHeight (text : Option Bytes) (fontSize maxW : ℤ) (isPixel : Bool) : ℤ :=
  match text with
  | none => if isPixel then 30 else 1
  | some text =>
      let rowH := if isPixel then fontSize+8 else 1
      if maxW ≤ 0 then rowH
      else
        let charW := if isPixel then fontSize.tdiv 2 else 1
        let charW := if charW ≤ 0 then 1 else charW
        let step := fun (s : ℤ × ℤ) (c : UInt8) =>
          if c = 10 then (s.1+1,0)
          else if s.2+1 ≥ maxW.tdiv charW then (s.1+1,0) else (s.1,s.2+1)
        (text.foldl step (1,0)).1*rowH

/-- `row_h`, and the height of the tab bar. -/
def rowHeight (isPixel : Bool) : ℤ := if isPixel then 30 else 1

/-! ## Flex and grid -/

def gapOf (isPixel : Bool) : ℤ := if isPixel then 8 else 1

/-- `is_row`. -/
def isRow (direction : Option Bytes) : Bool := direction ≠ some (bytes "column")

/-- `wrap`. -/
def isWrap (wrap : Option Bytes) : Bool := wrap = some (bytes "wrap")

/-- `child_size` of the first pass. -/
def flexMeasure (isPixel row : Bool) (child : RenderTree) : ℤ :=
  match child.u with
  | .text (some content) =>
      measureTextWidth (some content) child.node.resolvedStyle.fontSize isPixel
  | _ =>
      if child.node.hasTargetRect then
        if row then child.node.targetRect.w else child.node.targetRect.h
      else if child.rect.w > 0 then
        if row then child.rect.w else child.rect.h
      else 0

/-- `fixed_size`: the positive sizes of the first pass. -/
def fixedSize (isPixel row : Bool) (children : List RenderTree) : ℤ :=
  ((children.map (flexMeasure isPixel row)).filter (0 < ·)).sum

/-- `total_grow`: the children without a size. -/
def totalGrow (isPixel row : Bool) (children : List RenderTree) : ℕ :=
  children.countP fun c => flexMeasure isPixel row c ≤ 0

/-- `grow_unit`. -/
def growUnit (isPixel row : Bool) (children : List RenderTree) (avail : ℤ) : ℤ :=
  let remaining :=
    avail-fixedSize isPixel row children-gapOf isPixel*((children.length : ℤ)-1)
  if totalGrow isPixel row children > 0 then
    remaining.tdiv (totalGrow isPixel row children)
  else 0

/-- `child_w` and `child_h` of the second pass. -/
def flexChildW (grow share : ℤ) (child : RenderTree) : ℤ :=
  let r := if child.node.hasTargetRect then child.node.targetRect else child.rect
  let w := if r.w ≤ 0 then if grow > 0 then grow else share else r.w
  let lo := child.node.resolvedStyle.minWidth
  if lo > 0 ∧ w < lo then lo else w

@[inherit_doc flexChildW]
def flexChildH (isPixel : Bool) (child : RenderTree) : ℤ :=
  let r := if child.node.hasTargetRect then child.node.targetRect else child.rect
  let h := if r.h ≤ 0 then rowHeight isPixel else r.h
  let lo := child.node.resolvedStyle.minHeight
  if lo > 0 ∧ h < lo then lo else h

/-- `pos`, `line_pos` and `line_h`. -/
structure FlexCursor where
  pos : ℤ
  linePos : ℤ
  lineH : ℤ := 0
  deriving DecidableEq, Repr

/-- What the second pass of `layout_flex` does not change. -/
structure FlexBox where
  row : Bool
  wrap : Bool
  frame : Rect
  gap : ℤ
  childW : RenderTree → ℤ
  childH : RenderTree → ℤ

namespace FlexBox
variable (b : FlexBox)

/-- The test that starts a new line, and what it does to the cursor. -/
def turnLine (cur : FlexCursor) (w : ℤ) : FlexCursor :=
  if b.wrap ∧ b.row ∧ cur.linePos+w > b.frame.x+b.frame.w ∧ cur.linePos > b.frame.x then
    { cur with pos := b.frame.y+cur.lineH+b.gap, linePos := b.frame.x }
  else cur

def rectAt (cur : FlexCursor) (w h : ℤ) : Rect :=
  if b.row then ⟨cur.linePos,cur.pos,w,h⟩ else ⟨b.frame.x,cur.linePos,b.frame.w,h⟩

/-- `line_h` and `line_pos` behind a child. -/
def advance (cur : FlexCursor) (w h : ℤ) : FlexCursor :=
  { cur with
    lineH := if h > cur.lineH then h else cur.lineH
    linePos := cur.linePos+(if b.row then w else h)+b.gap }

/-- The second pass of `layout_flex`. -/
def place : FlexCursor → List RenderTree → List RenderTree × FlexCursor
  | cur, [] => ([],cur)
  | cur, child::rest =>
      let w := b.childW child
      let h := b.childH child
      let cur := b.turnLine cur w
      let out := place (b.advance cur w h) rest
      (child.withRect (b.rectAt cur w h)::out.1,out.2)

def start : FlexCursor :=
  let pos := if b.row then b.frame.x else b.frame.y
  { pos, linePos := pos }

end FlexBox

/-- The constants of `layout_flex` for the given children and content frame. -/
def flexBox (isPixel : Bool) (direction wrap : Option Bytes) (children : List RenderTree)
    (frame : Rect) : FlexBox :=
  let row := isRow direction
  let avail := if row then frame.w else frame.h
  { row, frame
    wrap := isWrap wrap
    gap := gapOf isPixel
    childW := flexChildW (growUnit isPixel row children avail) (avail.tdiv children.length)
    childH := flexChildH isPixel }

def limitChild (child : RenderTree) : RenderTree := .mk (applyMinMax child.node) child.u

def layoutFlex (isPixel : Bool) (node : Node) (direction wrap : Option Bytes)
    (children : List RenderTree) (frame : Rect) : RenderTree :=
  if children = [] then .mk node (.flex direction wrap children)
  else
    let b := flexBox isPixel direction wrap children frame
    let placed := b.place b.start children
    let h := if b.row then frame.y+placed.2.lineH+b.gap-node.rect.y else frame.h
    .mk { node with rect := { node.rect with w := frame.w, h } }
      (.flex direction wrap (placed.1.map limitChild))

/-- The cell of child number `i`. -/
def gridCell (isPixel : Bool) (cols : ℤ) (frame : Rect) (i : ℕ) : Rect :=
  let gap := gapOf isPixel
  let cellW := (frame.w-gap*(cols-1)).tdiv cols
  let rowH := rowHeight isPixel
  ⟨frame.x+(i : ℤ).tmod cols*(cellW+gap),frame.y+(i : ℤ).tdiv cols*(rowH+gap),cellW,rowH⟩

def layoutGrid (isPixel : Bool) (node : Node) (columns : ℤ) (children : List RenderTree)
    (frame : Rect) : RenderTree :=
  if children = [] then .mk node (.grid columns children)
  else
    let cols := if columns > 0 then columns else 1
    let gap := gapOf isPixel
    let rows := ((children.length : ℤ)+cols-1).tdiv cols
    let h := rows*(rowHeight isPixel+gap)-gap
    .mk { node with rect := { node.rect with w := frame.w, h } }
      (.grid columns (children.mapIdx fun i c =>
        limitChild (c.withRect (gridCell isPixel cols frame i))))

/-! ## The tree -/

def takeTarget (node : Node) : Node :=
  if node.hasTargetRect then { node with rect := node.targetRect, hasTargetRect := false }
  else node

def anchorNode (node : Node) (frame : Rect) : Node :=
  if node.anchor ≠ .absolute ∧ node.anchor ≠ .relative then computeAnchor node frame.w frame.h
  else node

/-- The rectangle a node asks for: target, anchor and limits, before clipping. -/
def wantedNode (node : Node) (frame : Rect) : Node :=
  applyMinMax (anchorNode (takeTarget node) frame)

/-- A node when `layout_node` turns to its contents. -/
def placeNode (node : Node) (frame : Rect) : Node := clampOverflow (wantedNode node frame) frame

/-- The height that a container gives a flowing child. -/
def flowHeight (isPixel : Bool) (child : RenderTree) (contentW : ℤ) : ℤ :=
  let rowH := rowHeight isPixel
  match child.u with
  | .text (some content) =>
      measureTextHeight (some content) child.node.resolvedStyle.fontSize contentW isPixel
  | .list itemCount => if itemCount > 0 then rowH*itemCount else rowH
  | .table rowCount => rowH*(rowCount+1)
  | .tree nodeCount => rowH*nodeCount
  | .calendar => rowH*10
  | .gauge => rowH*2
  | .form fieldCount => rowH*(fieldCount+1)
  | _ => rowH

/-- Where an `ANCHOR_RELATIVE` child starts: at the sibling it names, if there is
one, and then moved by its offsets. -/
def relativeRect (siblings : List RenderTree) (child : RenderTree) : Rect :=
  let node := child.node
  let r := match node.relativeTo.bind fun name =>
      siblings.find? fun rel => rel.node.styleClass = some name with
    | some rel =>
        { node.rect with x := rel.rect.x+node.anchorDx, y := rel.rect.y+node.anchorDy }
    | none => node.rect
  { r with x := r.x+node.anchorDx, y := r.y+node.anchorDy }

/-- A child flows if it is neither absolute nor relative. -/
def RenderTree.flows (t : RenderTree) : Bool :=
  t.node.anchor ≠ .absolute && t.node.anchor ≠ .relative

/-- A child as it is handed to `layout_node`, and the frame it gets. -/
def childCall (isPixel : Bool) (content : Rect) (curY : ℤ) (siblings : List RenderTree)
    (child : RenderTree) : RenderTree × Rect :=
  match child.node.anchor with
  | .absolute => (child,content)
  | .relative => (child.withRect (relativeRect siblings child),content)
  | _ =>
      let frame : Rect := ⟨content.x,curY,content.w,flowHeight isPixel child content.w⟩
      (child.withRect frame,frame)

/-- The loop over the sorted children of a container. Until its turn a child is
as it was when it was sorted; the siblings a relative child looks at may have been
laid out before it. -/
def layoutChildren (isPixel : Bool) (layout : RenderTree → Rect → RenderTree) (content : Rect) :
    List (ℕ × RenderTree) → ℤ → List RenderTree → List RenderTree
  | [], _, siblings => siblings
  | (i,child)::rest, curY, siblings =>
      let call := childCall isPixel content curY siblings child
      let done := layout call.1 call.2
      layoutChildren isPixel layout content rest
        (if child.flows then curY+done.rect.h else curY) (siblings.set i done)

/-- The children with their places in the array, sorted by `cmp_z_index`. -/
def sortedChildren (children : List RenderTree) : List (ℕ × RenderTree) :=
  (children.mapIdx Prod.mk).insertionSort fun a b => cmpZIndex a.2 b.2 ≤ 0

/-- The width or height of the first pane. -/
def splitAt (orientation : Orientation) (splitPosition : ℤ) (content : Rect) : ℤ :=
  if splitPosition > 0 then splitPosition
  else if orientation = .horizontal then content.w.tdiv 2 else content.h.tdiv 2

def firstPane (orientation : Orientation) (sp : ℤ) (content : Rect) : Rect :=
  match orientation with
  | .horizontal => { content with w := sp }
  | .vertical => { content with h := sp }

def secondPane (orientation : Orientation) (sp : ℤ) (content : Rect) : Rect :=
  match orientation with
  | .horizontal => { content with x := content.x+sp+1, w := content.w-sp-1 }
  | .vertical => { content with y := content.y+sp+1, h := content.h-sp-1 }

/-- Below the tab bar. -/
def tabFrame (isPixel : Bool) (content : Rect) : Rect :=
  { content with y := content.y+rowHeight isPixel, h := content.h-rowHeight isPixel }

/-- `content_x`, `content_y`, `content_w` and `content_h`. -/
def contentFrame (node : Node) (frame : Rect) : Rect := node.rect.shift frame.x frame.y

/-- `layout_node` with its recursive calls left open. -/
def layoutBody (isPixel : Bool) (layout : RenderTree → Rect → RenderTree) (t : RenderTree)
    (frame : Rect) : RenderTree :=
  if frame.w ≤ 0 ∨ frame.h ≤ 0 then t
  else
    let node := placeNode t.node frame
    let content := contentFrame node frame
    match t.u with
    | .container children =>
        .mk node (.container
          (layoutChildren isPixel layout content (sortedChildren children) content.y children))
    | .flex direction wrap children => layoutFlex isPixel node direction wrap children content
    | .grid columns children => layoutGrid isPixel node columns children content
    | .tabs child =>
        .mk node (.tabs (child.map fun c => layout c (tabFrame isPixel content)))
    | .splitPanes orientation splitPosition first second third =>
        let sp := splitAt orientation splitPosition content
        .mk node (.splitPanes orientation splitPosition
          (first.map fun c => layout c (firstPane orientation sp content))
          (second.map fun c => layout c (secondPane orientation sp content)) third)
    | u => .mk node u

def layoutLevels (isPixel : Bool) : ℕ → RenderTree → Rect → RenderTree
  | 0, t, _ => t
  | n+1, t, frame => layoutBody isPixel (layoutLevels isPixel n) t frame

/-- `layout_node`: the recursion goes as deep as the tree. -/
def layoutNode (isPixel : Bool) (t : RenderTree) (frame : Rect) : RenderTree :=
  layoutLevels isPixel t.depth t frame

def layoutTree (tree : RenderTree) (surfaceW surfaceH : ℤ) (isPixel : Bool) : RenderTree :=
  if surfaceW ≤ 0 ∨ surfaceH ≤ 0 then tree
  else layoutNode isPixel (tree.withRect ⟨0,0,surfaceW,surfaceH⟩) ⟨0,0,surfaceW,surfaceH⟩

/-! ## Hit testing -/

/-- The children that `hit_test` looks at. -/
def hitChildren : Content RenderTree → List RenderTree
  | .container cs | .flex _ _ cs | .grid _ cs => cs
  | _ => []

def hitLevels (px py : ℤ) : ℕ → RenderTree → ℤ → ℤ → Option RenderTree
  | 0, _, _, _ => none
  | n+1, t, offX, offY =>
      let r := t.rect.shift offX offY
      if px < r.x ∨ px ≥ r.x+r.w ∨ py < r.y ∨ py ≥ r.y+r.h then none
      else
        match (hitChildren t.u).reverse.findSome? fun c => hitLevels px py n c r.x r.y with
        | some hit => some hit
        | none => some t

/-- `hit_test`: the last child that is hit, or the node itself. -/
def hitTest (node : RenderTree) (px py offX offY : ℤ) : Option RenderTree :=
  hitLevels px py node.depth node offX offY

end Filly.Layout

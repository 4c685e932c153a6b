import Filly.Project

/-!
# The canvas

`canvas.c` shows the items of a project, keeps which of them are selected, and changes
them with the mouse and with keys. Coordinates are 32-bit numbers that wrap around. What
is computed in floating point is left open, with zooms of a type `F`.

The picture of the canvas is left out.
-/
namespace Filly.Builder
open CJson KeyedList

inductive CanvasAction where
  | none | move
  | resizeN | resizeS | resizeE | resizeW | resizeNE | resizeNW | resizeSE | resizeSW
  | rubberBand | pan
  deriving DecidableEq, Repr

/-- What the canvas computes with its zoom. -/
structure ZoomArithmetic (F : Type) where
  one : F
  /-- `(int)(v * zoom)` -/
  scale : F → Int32 → Int32
  /-- `(int)(v / zoom)` -/
  unscale : F → Int32 → Int32
  /-- `(int)(v / zoom + scroll)` -/
  unscaleFrom : F → Int32 → Int32 → Int32
  /-- `(int)(v - new_zoom / zoom * (v - scroll))` -/
  rescroll : F → F → Int32 → Int32 → Int32
  /-- The zoom times 1.25, 0.8, 1.1 and 0.9. -/
  larger : F → F
  smaller : F → F
  wheelUp : F → F
  wheelDown : F → F
  /-- At least 0.1 and at most 5. -/
  clamp : F → F
  /-- The smaller quotient of the sizes of the canvas and of the root. -/
  fit : Int32 → Int32 → Int32 → Int32 → F
  /-- `zoom < 5.0f` and `zoom > 0.1f` -/
  belowMost : F → Bool
  aboveLeast : F → Bool

structure Canvas (F : Type) where
  project : BuilderProject
  canvasW : Int32
  canvasH : Int32
  zoom : F
  scrollX : Int32
  scrollY : Int32
  selectedItem : Int32
  hoveredItem : Int32
  action : CanvasAction
  dragging : Bool
  dragStartX : Int32
  dragStartY : Int32
  /-- `drag_orig_x`, `drag_orig_y`, `drag_orig_w` and `drag_orig_h` -/
  dragOrig : Rect
  showGrid : Bool
  gridSize : Int32
  showTabOrder : Bool
  selectedItems : List Int32
  rubberX : Int32
  rubberY : Int32
  contextMenuOpen : Bool
  contextMenuX : Int32
  contextMenuY : Int32
  contextMenuTarget : Int32

def snapToGrid (v grid : Int32) : Int32 := if grid ≤ 0 then v else (v+grid/2)/grid*grid

section
variable {F : Type} (zm : ZoomArithmetic F)

def canvasNew (p : BuilderProject) (w h : Int32) : Canvas F where
  project := p
  canvasW := if 0 < w then w else 800
  canvasH := if 0 < h then h else 600
  zoom := zm.one
  scrollX := 0
  scrollY := 0
  selectedItem := -1
  hoveredItem := -1
  action := .none
  dragging := false
  dragStartX := 0
  dragStartY := 0
  dragOrig := ⟨0,0,0,0⟩
  showGrid := true
  gridSize := 8
  showTabOrder := false
  selectedItems := []
  rubberX := 0
  rubberY := 0
  contextMenuOpen := false
  contextMenuX := 0
  contextMenuY := 0
  contextMenuTarget := 0

/-- Where a rectangle is on the screen. -/
def onScreen (c : Canvas F) (r : Rect) : Rect :=
  ⟨zm.scale c.zoom (r.x-c.scrollX),zm.scale c.zoom (r.y-c.scrollY),
    zm.scale c.zoom r.w,zm.scale c.zoom r.h⟩

def getResizeHandle (c : Canvas F) (item : CanvasItem) (x y : Int32) : CanvasAction :=
  let r := onScreen zm c item.rect
  let left : Bool := x < r.x+8
  let right : Bool := r.x+r.w-8 < x
  let top : Bool := y < r.y+8
  let bottom : Bool := r.y+r.h-8 < y
  if x < r.x-8 ∨ r.x+r.w+8 < x then .none
  else if y < r.y-8 ∨ r.y+r.h+8 < y then .none
  else if top ∧ left then .resizeNW
  else if top ∧ right then .resizeNE
  else if bottom ∧ left then .resizeSW
  else if bottom ∧ right then .resizeSE
  else if top then .resizeN
  else if bottom then .resizeS
  else if left then .resizeW
  else if right then .resizeE
  else .move

/-- The last item that is neither locked nor invisible and holds the point, or -1. -/
def canvasHitTest (c : Canvas F) (x y : Int32) : Int32 :=
  let hit (item : CanvasItem) : Bool :=
    let r := onScreen zm c item.rect
    ¬item.locked ∧ item.visible ∧ r.x ≤ x ∧ x < r.x+r.w ∧ r.y ≤ y ∧ y < r.y+r.h
  ((c.project.items.reverse.find? hit).map CanvasItem.id).getD (-1)

/-! ## The selection -/

def canvasSelectItem (c : Canvas F) (itemId : Int32) : Canvas F :=
  { c with selectedItem := itemId, selectedItems := [itemId] }

def canvasSelectAll (c : Canvas F) : Canvas F :=
  { c with
    selectedItems := c.project.items.map CanvasItem.id
    selectedItem := ((c.project.items.map CanvasItem.id).head?).getD c.selectedItem }

def canvasDeselectAll (c : Canvas F) : Canvas F :=
  { c with selectedItem := -1, selectedItems := [] }

def canvasToggleSelect (c : Canvas F) (itemId : Int32) : Canvas F :=
  if itemId ∈ c.selectedItems then
    let left := c.selectedItems.erase itemId
    { c with selectedItems := left, selectedItem := left.getLast?.getD (-1) }
  else { c with selectedItems := c.selectedItems++[itemId], selectedItem := itemId }

/-! ## The mouse -/

def canvasMouseDown (c : Canvas F) (x y button : Int32) : Bool × Canvas F :=
  if c.contextMenuOpen then (true,{ c with contextMenuOpen := false })
  else if button = 3 then
    (true,{ c with
      contextMenuOpen := true
      contextMenuX := x
      contextMenuY := y
      contextMenuTarget := canvasHitTest zm c x y })
  else if button = 2 then
    (true,{ c with action := .pan, dragStartX := x, dragStartY := y, dragging := true })
  else
    let hit := canvasHitTest zm c x y
    if 0 ≤ hit then
      match projectFindItem c.project hit with
      | none => (false,c)
      | some item =>
          let c := if hit ∈ c.selectedItems then c else canvasSelectItem (canvasDeselectAll c) hit
          (true,{ c with
            action := getResizeHandle zm c item x y
            dragStartX := x
            dragStartY := y
            dragOrig := item.rect
            dragging := true })
    else
      (true,{ c with
        action := .rubberBand
        dragStartX := x
        dragStartY := y
        rubberX := x
        rubberY := y
        dragging := true })

/-- An item is not made smaller than 20 by 20. -/
def atLeast20 (v : Int32) : Int32 := if v < 20 then 20 else v

/-- The drag of an item by a distance, from the rectangle that the drag began with. -/
def dragRect (c : Canvas F) (dx dy : Int32) (r : Rect) : Rect :=
  let o := c.dragOrig
  let r := match c.action with
    | .move =>
        if c.showGrid then
          { r with x := snapToGrid (o.x+dx) c.gridSize, y := snapToGrid (o.y+dy) c.gridSize }
        else { r with x := o.x+dx, y := o.y+dy }
    | .resizeN => { r with y := o.y+dy, h := o.h-dy }
    | .resizeS => { r with h := o.h+dy }
    | .resizeE => { r with w := o.w+dx }
    | .resizeW => { r with x := o.x+dx, w := o.w-dx }
    | .resizeNE => { r with y := o.y+dy, h := o.h-dy, w := o.w+dx }
    | .resizeNW => { r with y := o.y+dy, h := o.h-dy, x := o.x+dx, w := o.w-dx }
    | .resizeSE => { r with h := o.h+dy, w := o.w+dx }
    | .resizeSW => { r with h := o.h+dy, x := o.x+dx, w := o.w-dx }
    | _ => r
  { r with w := atLeast20 r.w, h := atLeast20 r.h }

/-- A change of each item that an id in the list finds. -/
def changeItems (p : BuilderProject) (f : CanvasItem → CanvasItem) (ids : List Int32) :
    BuilderProject :=
  ids.foldl (fun p id => changeItem p id f) p

def canvasMouseMove (c : Canvas F) (x y : Int32) (buttonDown : Bool) : Bool × Canvas F :=
  let c := { c with hoveredItem := canvasHitTest zm c x y }
  if ¬c.dragging then (0 ≤ c.hoveredItem,c)
  else if ¬buttonDown then (false,{ c with dragging := false, action := .none })
  else
    let dx := x-c.dragStartX
    let dy := y-c.dragStartY
    if c.action = .pan then
      (true,{ c with
        scrollX := c.scrollX-dx
        scrollY := c.scrollY-dy
        dragStartX := x
        dragStartY := y })
    else if c.action = .rubberBand then (true,{ c with rubberX := x, rubberY := y })
    else
      let drag (item : CanvasItem) : CanvasItem :=
        { item with
          rect := dragRect c (zm.unscale c.zoom dx) (zm.unscale c.zoom dy) item.rect }
      (true,{ c with project := changeItems c.project drag c.selectedItems })

/-- The items under the rubber band. -/
def banded (c : Canvas F) : List Int32 :=
  let rx := if c.rubberX < c.dragStartX then c.rubberX else c.dragStartX
  let ry := if c.rubberY < c.dragStartY then c.rubberY else c.dragStartY
  let rw := (c.rubberX-c.dragStartX).abs
  let rh := (c.rubberY-c.dragStartY).abs
  (c.project.items.filter fun item =>
    let r := onScreen zm c item.rect
    ¬item.locked ∧ item.visible ∧ rx ≤ r.x+r.w ∧ r.x ≤ rx+rw ∧ ry ≤ r.y+r.h ∧ r.y ≤ ry+rh).map
      CanvasItem.id

def canvasMouseUp (c : Canvas F) : Bool × Canvas F :=
  let c :=
    if c.action = .rubberBand ∧ c.dragging then
      if 4 < (c.rubberX-c.dragStartX).abs ∨ 4 < (c.rubberY-c.dragStartY).abs then
        (banded zm c).foldl canvasToggleSelect (canvasDeselectAll c)
      else canvasDeselectAll c
    else c
  (true,{ c with dragging := false, action := .none })

def canvasZoomAt (c : Canvas F) (newZoom : F) (cx cy : Int32) : Canvas F :=
  let newZoom := zm.clamp newZoom
  { c with
    scrollX := zm.rescroll newZoom c.zoom cx c.scrollX
    scrollY := zm.rescroll newZoom c.zoom cy c.scrollY
    zoom := newZoom }

def canvasMouseScroll (c : Canvas F) (x y delta : Int32) : Bool × Canvas F :=
  (true,canvasZoomAt zm c (if 0 < delta then zm.wheelUp c.zoom else zm.wheelDown c.zoom) x y)

/-! ## Keys -/

/-- Locked items are passed over. -/
def changeUnlocked (f : CanvasItem → CanvasItem) (item : CanvasItem) : CanvasItem :=
  if item.locked then item else f item

def canvasKeyMove (c : Canvas F) (dx dy : Int32) : Canvas F :=
  let place (v : Int32) : Int32 := if c.showGrid then snapToGrid v c.gridSize else v
  let move (item : CanvasItem) : CanvasItem :=
    { item with
      rect := { item.rect with x := place (item.rect.x+dx), y := place (item.rect.y+dy) } }
  { c with project := changeItems c.project (changeUnlocked move) c.selectedItems }

def canvasKeyResize (c : Canvas F) (dw dh : Int32) : Canvas F :=
  let resize (item : CanvasItem) : CanvasItem :=
    { item with
      rect := { item.rect with w := atLeast20 (item.rect.w+dw), h := atLeast20 (item.rect.h+dh) } }
  { c with project := changeItems c.project (changeUnlocked resize) c.selectedItems }

def canvasDeleteSelected (c : Canvas F) : Canvas F :=
  { c with
    project := c.selectedItems.foldl projectRemoveItem c.project
    selectedItems := []
    selectedItem := -1 }

/-- The new item stands at the end of the list. -/
def canvasAddWidget (c : Canvas F) (widgetType : Bytes) (x y : Int32) : Canvas F :=
  let place (v : Int32) : Int32 := if c.showGrid then snapToGrid v c.gridSize else v
  { c with
    project := projectAddItem c.project widgetType
      (place (zm.unscaleFrom c.zoom x c.scrollX)) (place (zm.unscaleFrom c.zoom y c.scrollY))
      200 120 }

def canvasToggleTabOrder (c : Canvas F) : Canvas F := { c with showTabOrder := !c.showTabOrder }

def canvasToggleGrid (c : Canvas F) : Canvas F := { c with showGrid := !c.showGrid }

def canvasZoomIn (c : Canvas F) : Canvas F :=
  canvasZoomAt zm c (zm.larger c.zoom) (c.canvasW/2) (c.canvasH/2)

def canvasZoomOut (c : Canvas F) : Canvas F :=
  canvasZoomAt zm c (zm.smaller c.zoom) (c.canvasW/2) (c.canvasH/2)

def canvasZoomToFit (c : Canvas F) : Canvas F :=
  if c.project.rootWidth ≤ 0 ∨ c.project.rootHeight ≤ 0 then c
  else
    { c with
      zoom := zm.clamp (zm.fit c.canvasW c.project.rootWidth c.canvasH c.project.rootHeight)
      scrollX := 0
      scrollY := 0 }

/-! ## The order of the items -/

/-- The first item with the id goes to the end, unless it is there already. -/
def canvasBringToFront (c : Canvas F) (itemId : Int32) : Canvas F :=
  match c.project.items.findIdx? (·.id = itemId) with
  | none => c
  | some i =>
      if i+1 < c.project.items.length then
        { c with
          project := { c.project with
            items := c.project.items.eraseIdx i++(c.project.items[i]?).toList } }
      else c

/-- The first item with the id, but for the one at the start, goes to the start. -/
def canvasSendToBack (c : Canvas F) (itemId : Int32) : Canvas F :=
  match c.project.items.tail.findIdx? (·.id = itemId) with
  | none => c
  | some i =>
      { c with
        project := { c.project with
          items := (c.project.items[i+1]?).toList++c.project.items.eraseIdx (i+1) } }

def canvasAlignToGrid (c : Canvas F) (itemId : Int32) : Canvas F :=
  if c.gridSize ≤ 0 then c
  else
    { c with
      project := changeItem c.project itemId fun item =>
        { item with
          rect := { item.rect with
            x := snapToGrid item.rect.x c.gridSize
            y := snapToGrid item.rect.y c.gridSize } } }

end

end Filly.Builder

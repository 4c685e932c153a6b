import Filly.Canvas
import Filly.Runs

/-!
# Drags on the canvas

A drag begins with a press on an item, and each move of the mouse sets the rectangles of
all selected items anew, from the one rectangle that the press has stored.
-/
namespace Filly.Builder
open CJson KeyedList Runs

variable {F : Type} {zm : ZoomArithmetic F} {c : Canvas F}

/-! ## Changes of the items that are found -/

/-- The change keeps the id, and doing it twice is doing it once. -/
structure Settles (f : CanvasItem → CanvasItem) : Prop where
  id : ∀ item, (f item).id = item.id
  twice : ∀ item, f (f item) = f item

theorem findItem_changeItem {f : CanvasItem → CanvasItem} (hf : ∀ item, (f item).id = item.id)
    (p : BuilderProject) (id k : Int32) : projectFindItem (changeItem p id f) k =
      if k = id then (projectFindItem p k).map f else projectFindItem p k := by
  split_ifs with h
  · rw [h]
    exact lookup_modify_self hf p.items
  · exact lookup_modify_ne hf h p.items

/-- An item is changed once, however often its id is in the list. -/
theorem findItem_changeItems {f : CanvasItem → CanvasItem} (hf : Settles f) (p : BuilderProject)
    (ids : List Int32) (k : Int32) : projectFindItem (changeItems p f ids) k =
      if k ∈ ids then (projectFindItem p k).map f else projectFindItem p k := by
  induction ids generalizing p with
  | nil => rfl
  | cons id ids ih =>
      rw [changeItems,List.foldl_cons,← changeItems,ih,findItem_changeItem hf.id]
      have htwice : (fun item => f (f item)) = f := funext hf.twice
      by_cases hid : k = id
      · simp [hid,Option.map_map,Function.comp_def,htwice]
      · simp [hid]

/-! ## Rectangles -/

theorem atLeast20_of_le {v : Int32} (h : 20 ≤ v) : atLeast20 v = v :=
  if_neg (Int32.not_lt.2 h)

theorem atLeast20_eq_self_iff (v : Int32) : atLeast20 v = v ↔ 20 ≤ v := by
  refine ⟨fun h => ?_,atLeast20_of_le⟩
  unfold atLeast20 at h
  split_ifs at h with hlt
  · rw [← h]
    exact Int32.le_refl _
  · exact Int32.not_lt.1 hlt

@[simp] theorem atLeast20_atLeast20 (v : Int32) : atLeast20 (atLeast20 v) = atLeast20 v := by
  refine atLeast20_of_le ?_
  unfold atLeast20
  split_ifs with hlt
  · exact Int32.le_refl _
  · exact Int32.not_lt.1 hlt

/-- Only the last distance of a drag counts. -/
theorem dragRect_dragRect (c : Canvas F) (dx dy dx' dy' : Int32) (r : Rect) :
    dragRect c dx dy (dragRect c dx' dy' r) = dragRect c dx dy r := by
  unfold dragRect
  cases c.action
  case move => split_ifs <;> simp only [atLeast20_atLeast20]
  all_goals simp only [atLeast20_atLeast20]

/-- The drag of an item by a distance on the canvas. -/
def dragItem (c : Canvas F) (dx dy : Int32) (item : CanvasItem) : CanvasItem :=
  { item with rect := dragRect c dx dy item.rect }

theorem dragItem_dragItem (c : Canvas F) (dx dy dx' dy' : Int32) (item : CanvasItem) :
    dragItem c dx dy (dragItem c dx' dy' item) = dragItem c dx dy item := by
  unfold dragItem
  rw [dragRect_dragRect]

theorem settles_dragItem (c : Canvas F) (dx dy : Int32) : Settles (dragItem c dx dy) :=
  ⟨fun _ => rfl,dragItem_dragItem c dx dy dx dy⟩

/-! ## From the press to the last move -/

/-- A drag is going on that moves or resizes items. -/
structure Drags (c : Canvas F) : Prop where
  dragging : c.dragging = true
  pans : c.action ≠ .pan
  bands : c.action ≠ .rubberBand

variable (zm) in
/-- A move with the button down. -/
def dragStep (c : Canvas F) (point : Int32 × Int32) : Canvas F :=
  (canvasMouseMove zm c point.1 point.2 true).2

variable (zm) in
/-- The distance on the canvas between the press and a point. -/
def dragDistance (c : Canvas F) (point : Int32 × Int32) : Int32 × Int32 :=
  (zm.unscale c.zoom (point.1-c.dragStartX),zm.unscale c.zoom (point.2-c.dragStartY))

theorem dragStep_eq (hc : Drags c) (point : Int32 × Int32) :
    dragStep zm c point = { c with
      hoveredItem := canvasHitTest zm c point.1 point.2
      project := changeItems c.project
        (dragItem c (dragDistance zm c point).1 (dragDistance zm c point).2) c.selectedItems } := by
  unfold dragStep canvasMouseMove
  rw [if_neg (not_not_intro hc.dragging),if_neg (not_not_intro rfl),if_neg hc.pans,
    if_neg hc.bands]
  rfl

/-- After a drag each selected item is where the last point has put it. -/
theorem findItem_drag (hc : Drags c) (points : List (Int32 × Int32)) (last : Int32 × Int32)
    (k : Int32) : projectFindItem (run (dragStep zm) c (points++[last])).project k =
      if k ∈ c.selectedItems then
        (projectFindItem c.project k).map
          (dragItem c (dragDistance zm c last).1 (dragDistance zm c last).2)
      else projectFindItem c.project k := by
  induction points generalizing c with
  | nil =>
      rw [List.nil_append,run,List.foldl_cons,List.foldl_nil,dragStep_eq hc]
      exact findItem_changeItems (settles_dragItem c _ _) c.project c.selectedItems k
  | cons point points ih =>
      have hnext := ih (c := dragStep zm c point) (by rw [dragStep_eq hc]; exact ⟨hc.1,hc.2,hc.3⟩)
      rw [List.cons_append,run,List.foldl_cons,← run,hnext,dragStep_eq hc]
      dsimp only
      rw [findItem_changeItems (settles_dragItem c _ _)]
      split_ifs
      · rw [Option.map_map]
        congr 1
        funext item
        exact dragItem_dragItem c _ _ _ _ item
      · rfl

/-! ## What a drag should do -/

/-- The handle is on the edge or a corner of it. -/
def CanvasAction.west : CanvasAction → Bool
  | .resizeW | .resizeNW | .resizeSW => true
  | _ => false

def CanvasAction.north : CanvasAction → Bool
  | .resizeN | .resizeNE | .resizeNW => true
  | _ => false

def CanvasAction.east : CanvasAction → Bool
  | .resizeE | .resizeNE | .resizeSE => true
  | _ => false

def CanvasAction.south : CanvasAction → Bool
  | .resizeS | .resizeSE | .resizeSW => true
  | _ => false

def CanvasAction.resizes (action : CanvasAction) : Bool :=
  action.west || action.north || action.east || action.south

/-- The edges opposite to the handle stay. -/
structure OppositeKept (action : CanvasAction) (r r' : Rect) : Prop where
  west : action.west → r'.x+r'.w = r.x+r.w
  north : action.north → r'.y+r'.h = r.y+r.h
  east : action.east → r'.x = r.x
  south : action.south → r'.y = r.y

/-- The upper left corner goes along with a handle on its side. -/
structure CornerFollows (action : CanvasAction) (dx dy : Int32) (r r' : Rect) : Prop where
  x : r'.x = if action.west then r.x+dx else r.x
  y : r'.y = if action.north then r.y+dy else r.y

/-- A move takes every selected item along. A handle leaves the opposite edges of the
dragged item, and the others go along from where they were themselves. -/
structure GeometryKept (action : CanvasAction) (dx dy : Int32) (dragged : Int32)
    (selected : List Int32) (p p' : BuilderProject) : Prop where
  moved : action = .move → ∀ id ∈ selected, ∀ item, projectFindItem p id = some item →
    ∃ item', projectFindItem p' id = some item' ∧
      item'.rect = ⟨item.rect.x+dx,item.rect.y+dy,item.rect.w,item.rect.h⟩
  opposite : action.resizes → ∀ item, projectFindItem p dragged = some item →
    ∃ item', projectFindItem p' dragged = some item' ∧ OppositeKept action item.rect item'.rect
  others : action.resizes → ∀ id ∈ selected, ∀ item, projectFindItem p id = some item →
    ∃ item', projectFindItem p' id = some item' ∧
      CornerFollows action dx dy item.rect item'.rect

/-- The selected items begin where the dragged one does, as far as the handle goes, and
nothing becomes smaller than 20. -/
structure DragFits (c : Canvas F) (dx dy : Int32) : Prop where
  together : ∀ id ∈ c.selectedItems, ∀ item, projectFindItem c.project id = some item →
    (c.action = .move ∨ c.action.west → item.rect.x = c.dragOrig.x) ∧
      (c.action = .move ∨ c.action.north → item.rect.y = c.dragOrig.y)
  sizes : c.action = .move → ∀ id ∈ c.selectedItems, ∀ item,
    projectFindItem c.project id = some item → 20 ≤ item.rect.w ∧ 20 ≤ item.rect.h
  width : c.action.west → 20 ≤ c.dragOrig.w-dx
  height : c.action.north → 20 ≤ c.dragOrig.h-dy

theorem move_rect_iff (haction : c.action = .move) (hgrid : c.showGrid = false) (dx dy : Int32)
    (r : Rect) : dragRect c dx dy r = ⟨r.x+dx,r.y+dy,r.w,r.h⟩ ↔
      (r.x = c.dragOrig.x ∧ r.y = c.dragOrig.y) ∧ 20 ≤ r.w ∧ 20 ≤ r.h := by
  unfold dragRect
  rw [haction,hgrid]
  simp only [Bool.false_eq_true,if_false,Rect.mk.injEq,atLeast20_eq_self_iff,
    Int32.add_left_inj]
  rw [and_assoc,eq_comm (a := c.dragOrig.x),eq_comm (a := c.dragOrig.y)]

/-- A handle takes its own edges along, and nothing becomes smaller than 20. -/
theorem resize_rect_eq (haction : c.action ≠ .move) (dx dy : Int32) (r : Rect) :
    dragRect c dx dy r =
      { x := if c.action.west then c.dragOrig.x+dx else r.x
        y := if c.action.north then c.dragOrig.y+dy else r.y
        w := atLeast20 (if c.action.west then c.dragOrig.w-dx else
          if c.action.east then c.dragOrig.w+dx else r.w)
        h := atLeast20 (if c.action.north then c.dragOrig.h-dy else
          if c.action.south then c.dragOrig.h+dy else r.h) } := by
  unfold dragRect
  cases hc : c.action
  case move => exact absurd hc haction
  all_goals rfl

theorem CanvasAction.not_west {action : CanvasAction} (h : action.east) : ¬action.west := by
  cases action
  all_goals first | exact Bool.false_ne_true | cases h

theorem CanvasAction.not_north {action : CanvasAction} (h : action.south) : ¬action.north := by
  cases action
  all_goals first | exact Bool.false_ne_true | cases h

/-- The far edge of a handle stays exactly when the minimum is not reached. -/
theorem edge_kept_iff (a w d : Int32) : a+d+atLeast20 (w-d) = a+w ↔ 20 ≤ w-d := by
  rw [← atLeast20_eq_self_iff,show a+w = a+d+(w-d) by grind,Int32.add_right_inj]

theorem resize_opposite_iff (c : Canvas F) (dx dy : Int32) :
    OppositeKept c.action c.dragOrig (dragRect c dx dy c.dragOrig) ↔
      (c.action.west → 20 ≤ c.dragOrig.w-dx) ∧ (c.action.north → 20 ≤ c.dragOrig.h-dy) := by
  by_cases hmove : c.action = .move
  · rw [hmove]
    have hside : ¬(false : Bool) := Bool.false_ne_true
    exact iff_of_true ⟨fun h => absurd h hside,fun h => absurd h hside,fun h => absurd h hside,
      fun h => absurd h hside⟩ ⟨fun h => absurd h hside,fun h => absurd h hside⟩
  · rw [resize_rect_eq hmove]
    constructor
    · intro h
      refine ⟨fun hwest => ?_,fun hnorth => ?_⟩
      · have hedge := h.west hwest
        rw [if_pos hwest,if_pos hwest] at hedge
        exact (edge_kept_iff _ _ _).1 hedge
      · have hedge := h.north hnorth
        rw [if_pos hnorth,if_pos hnorth] at hedge
        exact (edge_kept_iff _ _ _).1 hedge
    · rintro ⟨hwidth,hheight⟩
      refine ⟨fun hwest => ?_,fun hnorth => ?_,fun heast => ?_,fun hsouth => ?_⟩
      · rw [if_pos hwest,if_pos hwest]
        exact (edge_kept_iff _ _ _).2 (hwidth hwest)
      · rw [if_pos hnorth,if_pos hnorth]
        exact (edge_kept_iff _ _ _).2 (hheight hnorth)
      · exact if_neg (CanvasAction.not_west heast)
      · exact if_neg (CanvasAction.not_north hsouth)

theorem resize_corner_iff (hresize : c.action.resizes) (dx dy : Int32) (r : Rect) :
    CornerFollows c.action dx dy r (dragRect c dx dy r) ↔
      (c.action.west → r.x = c.dragOrig.x) ∧ (c.action.north → r.y = c.dragOrig.y) := by
  have hmove : c.action ≠ .move := by
    intro hmove
    rw [hmove] at hresize
    cases hresize
  have hfollows (side : Bool) (o v d : Int32) :
      ((if side then o+d else v) = if side then v+d else v) ↔ (side → v = o) := by
    cases side
    · exact iff_of_true rfl fun h => absurd h Bool.false_ne_true
    · rw [if_pos rfl,if_pos rfl,Int32.add_left_inj,eq_comm]
      exact ⟨fun h _ => h,fun h => h rfl⟩
  rw [resize_rect_eq hmove]
  exact ⟨fun h => ⟨(hfollows _ _ _ _).1 h.x,(hfollows _ _ _ _).1 h.y⟩,
    fun h => ⟨(hfollows _ _ _ _).2 h.1,(hfollows _ _ _ _).2 h.2⟩⟩

variable (zm) in
/-- The canvas after a press. -/
def pressed (c : Canvas F) (x y button : Int32) : Canvas F := (canvasMouseDown zm c x y button).2

variable (zm) in
/-- The press begins a drag of an item, with the grid off. -/
structure PressedOn (c : Canvas F) (x y button : Int32) (item : CanvasItem) : Prop where
  menu : c.contextMenuOpen = false
  grid : c.showGrid = false
  left : button ≠ 3 ∧ button ≠ 2
  hit : canvasHitTest zm c x y = item.id
  numbered : 0 ≤ item.id
  found : projectFindItem c.project item.id = some item

theorem resizes_of_west {action : CanvasAction} (h : action.west) : action.resizes := by
  rw [CanvasAction.resizes,h]
  rfl

theorem resizes_of_north {action : CanvasAction} (h : action.north) : action.resizes := by
  rw [CanvasAction.resizes,h,Bool.or_true]
  rfl

theorem getResizeHandle_drags (c : Canvas F) (item : CanvasItem) (x y : Int32) :
    getResizeHandle zm c item x y ≠ .pan ∧ getResizeHandle zm c item x y ≠ .rubberBand := by
  have hite (p : Prop) [Decidable p] {a b : CanvasAction} (ha : a ≠ .pan ∧ a ≠ .rubberBand)
      (hb : b ≠ .pan ∧ b ≠ .rubberBand) :
      (if p then a else b) ≠ .pan ∧ (if p then a else b) ≠ .rubberBand := by
    split_ifs
    · exact ha
    · exact hb
  unfold getResizeHandle
  refine hite _ (by decide) (hite _ (by decide) (hite _ (by decide) (hite _ (by decide) ?_)))
  refine hite _ (by decide) (hite _ (by decide) (hite _ (by decide) (hite _ (by decide) ?_)))
  exact hite _ (by decide) (hite _ (by decide) (by decide))

theorem PressedOn.pressed_eq {x y button : Int32} {item : CanvasItem}
    (h : PressedOn zm c x y button item) : ∃ selectedItem selected,
      item.id ∈ selected ∧ pressed zm c x y button = { c with
        selectedItem := selectedItem
        selectedItems := selected
        action := getResizeHandle zm c item x y
        dragStartX := x
        dragStartY := y
        dragOrig := item.rect
        dragging := true } := by
  unfold pressed canvasMouseDown
  rw [if_neg (by simp [h.menu]),if_neg h.left.1,if_neg h.left.2,h.hit,if_pos h.numbered]
  dsimp only
  rw [h.found]
  dsimp only
  split_ifs with hselected
  · exact ⟨c.selectedItem,c.selectedItems,hselected,rfl⟩
  · exact ⟨item.id,[item.id],List.mem_singleton_self _,rfl⟩

/-- What a selected item has become is what the last point makes of it. -/
theorem found_after_drag_iff (hc : Drags c) (points : List (Int32 × Int32)) (last : Int32 × Int32)
    {id : Int32} (hid : id ∈ c.selectedItems) {item : CanvasItem}
    (hitem : projectFindItem c.project id = some item) (P : CanvasItem → Prop) :
    (∃ item', projectFindItem (run (dragStep zm) c (points++[last])).project id = some item' ∧
      P item') ↔ P (dragItem c (dragDistance zm c last).1 (dragDistance zm c last).2 item) := by
  rw [findItem_drag hc,if_pos hid,hitem]
  constructor
  · rintro ⟨item',hitem',hP⟩
    rwa [← Option.some.inj hitem'] at hP
  · exact fun hP => ⟨_,rfl,hP⟩

theorem geometry_kept_iff (hc : Drags c) (hgrid : c.showGrid = false) {item : CanvasItem}
    (horig : c.dragOrig = item.rect) (hself : item.id ∈ c.selectedItems)
    (hfound : projectFindItem c.project item.id = some item) (points : List (Int32 × Int32))
    (last : Int32 × Int32) :
    GeometryKept c.action (dragDistance zm c last).1 (dragDistance zm c last).2 item.id
      c.selectedItems c.project (run (dragStep zm) c (points++[last])).project ↔
    DragFits c (dragDistance zm c last).1 (dragDistance zm c last).2 := by
  have hafter := @found_after_drag_iff _ zm _ hc points last
  have hdragged := hafter hself hfound
  generalize (dragDistance zm c last).1 = dx at *
  generalize (dragDistance zm c last).2 = dy at *
  constructor
  · intro h
    have hrect : c.action = .move → ∀ id ∈ c.selectedItems, ∀ item,
        projectFindItem c.project id = some item →
        (item.rect.x = c.dragOrig.x ∧ item.rect.y = c.dragOrig.y) ∧
          20 ≤ item.rect.w ∧ 20 ≤ item.rect.h :=
      fun hmove id hid item hitem => (move_rect_iff hmove hgrid dx dy item.rect).1
        ((hafter hid hitem _).1 (h.moved hmove id hid item hitem))
    have hcorner : c.action.resizes → ∀ id ∈ c.selectedItems, ∀ item,
        projectFindItem c.project id = some item →
        (c.action.west → item.rect.x = c.dragOrig.x) ∧
          (c.action.north → item.rect.y = c.dragOrig.y) :=
      fun hresize id hid item hitem => (resize_corner_iff hresize dx dy item.rect).1
        ((hafter hid hitem _).1 (h.others hresize id hid item hitem))
    have hsize : c.action.resizes →
        (c.action.west → 20 ≤ c.dragOrig.w-dx) ∧ (c.action.north → 20 ≤ c.dragOrig.h-dy) := by
      intro hresize
      have hkept := (hdragged _).1 (h.opposite hresize item hfound)
      rw [dragItem,← horig] at hkept
      exact (resize_opposite_iff c dx dy).1 hkept
    refine ⟨fun id hid item hitem => ⟨?_,?_⟩,fun hmove id hid item hitem =>
      (hrect hmove id hid item hitem).2,fun hwest => ?_,fun hnorth => ?_⟩
    · rintro (hmove | hwest)
      · exact (hrect hmove id hid item hitem).1.1
      · exact (hcorner (resizes_of_west hwest) id hid item hitem).1 hwest
    · rintro (hmove | hnorth)
      · exact (hrect hmove id hid item hitem).1.2
      · exact (hcorner (resizes_of_north hnorth) id hid item hitem).2 hnorth
    · exact (hsize (resizes_of_west hwest)).1 hwest
    · exact (hsize (resizes_of_north hnorth)).2 hnorth
  · intro h
    refine ⟨fun hmove id hid item hitem => (hafter hid hitem _).2 ?_,
      fun hresize item' hitem' => ?_,fun hresize id hid item hitem => (hafter hid hitem _).2 ?_⟩
    · have hat := h.together id hid item hitem
      exact (move_rect_iff hmove hgrid dx dy item.rect).2
        ⟨⟨hat.1 (Or.inl hmove),hat.2 (Or.inl hmove)⟩,h.sizes hmove id hid item hitem⟩
    · rw [hfound,Option.some_inj] at hitem'
      rw [← hitem']
      refine (hdragged _).2 ?_
      rw [dragItem,← horig]
      exact (resize_opposite_iff c dx dy).2 ⟨h.width,h.height⟩
    · have hat := h.together id hid item hitem
      exact (resize_corner_iff hresize dx dy item.rect).2
        ⟨fun hwest => hat.1 (Or.inr hwest),fun hnorth => hat.2 (Or.inr hnorth)⟩

/-- A drag keeps the geometry of the selected items exactly when they begin together and
stay large enough. -/
theorem drag_geometry_iff {x y button : Int32} {item : CanvasItem}
    (h : PressedOn zm c x y button item) (points : List (Int32 × Int32)) (last : Int32 × Int32) :
    GeometryKept (pressed zm c x y button).action
      (dragDistance zm (pressed zm c x y button) last).1
      (dragDistance zm (pressed zm c x y button) last).2 item.id
      (pressed zm c x y button).selectedItems c.project
      (run (dragStep zm) (pressed zm c x y button) (points++[last])).project ↔
    DragFits (pressed zm c x y button) (dragDistance zm (pressed zm c x y button) last).1
      (dragDistance zm (pressed zm c x y button) last).2 := by
  obtain ⟨selectedItem,selected,hmem,heq⟩ := h.pressed_eq
  have hdrags : Drags (pressed zm c x y button) := by
    rw [heq]
    exact ⟨rfl,(getResizeHandle_drags c item x y).1,(getResizeHandle_drags c item x y).2⟩
  have hgrid : (pressed zm c x y button).showGrid = false := by rw [heq]; exact h.grid
  have horig : (pressed zm c x y button).dragOrig = item.rect := by rw [heq]
  have hproject : (pressed zm c x y button).project = c.project := by rw [heq]
  have hself : item.id ∈ (pressed zm c x y button).selectedItems := by rw [heq]; exact hmem
  rw [← hproject]
  exact geometry_kept_iff hdrags hgrid horig hself (hproject ▸ h.found) points last

/-! ## Two items at zoom 1 -/

/-- At zoom 1 nothing is scaled. -/
def unitZoom : ZoomArithmetic Unit where
  one := ()
  scale := fun _ v => v
  unscale := fun _ v => v
  unscaleFrom := fun _ v scroll => v+scroll
  rescroll := fun _ _ _ scroll => scroll
  larger := id
  smaller := id
  wheelUp := id
  wheelDown := id
  clamp := id
  fit := fun _ _ _ _ => ()
  belowMost := fun _ => true
  aboveLeast := fun _ => true

def plainItem (id : Int32) (rect : Rect) : CanvasItem where
  id := id
  widgetType := bytes "input"
  instanceName := instanceNameOf (bytes "input") id
  rect := rect
  params := none
  parentId := -1
  tabIndex := 0
  locked := false
  visible := true

/-- Two items on a canvas without grid. -/
def twoItems (selected : List Int32) : Canvas Unit :=
  { canvasNew unitZoom { projectNew none 800 600 with
      items := [plainItem 1 ⟨100,100,200,120⟩,plainItem 2 ⟨400,300,200,120⟩]
      nextItemId := 3 } 800 600 with
    showGrid := false
    selectedItems := selected }

/-- A move of one item alone keeps the geometry. -/
theorem one_item_moves :
    GeometryKept .move 30 (-10) 1 [1] (twoItems [1]).project
      (run (dragStep unitZoom) (pressed unitZoom (twoItems [1]) 200 150 1)
        ([(210,150)]++[(230,140)])).project := by
  have hpress : PressedOn unitZoom (twoItems [1]) 200 150 1 (plainItem 1 ⟨100,100,200,120⟩) :=
    ⟨rfl,rfl,by decide,by decide +kernel,by decide,rfl⟩
  have haction : (pressed unitZoom (twoItems [1]) 200 150 1).action = .move := by decide +kernel
  have hselected : (pressed unitZoom (twoItems [1]) 200 150 1).selectedItems = [1] := by
    decide +kernel
  have hdistance : dragDistance unitZoom (pressed unitZoom (twoItems [1]) 200 150 1) (230,140) =
      (30,-10) := by decide +kernel
  have horig : (pressed unitZoom (twoItems [1]) 200 150 1).dragOrig = ⟨100,100,200,120⟩ := by
    decide +kernel
  have hitem : ∀ id ∈ (pressed unitZoom (twoItems [1]) 200 150 1).selectedItems, ∀ item,
      projectFindItem (pressed unitZoom (twoItems [1]) 200 150 1).project id = some item →
      item.rect = ⟨100,100,200,120⟩ := by
    intro id hid item hfound
    rw [hselected,List.mem_singleton] at hid
    rw [hid] at hfound
    have hrect : (projectFindItem (pressed unitZoom (twoItems [1]) 200 150 1).project 1).map
        CanvasItem.rect = some ⟨100,100,200,120⟩ := by decide +kernel
    rwa [hfound,Option.map_some,Option.some_inj] at hrect
  have hkept := (drag_geometry_iff hpress [(210,150)] (230,140)).2
  rw [haction,hselected,hdistance] at hkept
  refine hkept ⟨fun id hid item hfound => ?_,fun _ id hid item hfound => ?_,fun hwest => ?_,
    fun hnorth => ?_⟩
  · rw [hitem id hid item hfound,horig]
    exact ⟨fun _ => rfl,fun _ => rfl⟩
  · rw [hitem id hid item hfound]
    exact ⟨by decide,by decide⟩
  · rw [haction] at hwest
    exact absurd hwest Bool.false_ne_true
  · rw [haction] at hnorth
    exact absurd hnorth Bool.false_ne_true

/-- The other selected item jumps to the dragged one. A handle that is drawn too far takes
the opposite edge along. -/
theorem drags_lose_geometry :
    (¬GeometryKept .move 30 (-10) 1 [1,2] (twoItems [1,2]).project
      (run (dragStep unitZoom) (pressed unitZoom (twoItems [1,2]) 200 150 1) [(230,140)]).project) ∧
    ¬GeometryKept .resizeW 190 0 1 [1] (twoItems [1]).project
      (run (dragStep unitZoom) (pressed unitZoom (twoItems [1]) 101 150 1) [(291,150)]).project := by
  constructor
  · intro h
    obtain ⟨item,hitem,hrect⟩ := h.moved rfl 2 (by decide) _ rfl
    have hjump : (projectFindItem (run (dragStep unitZoom)
        (pressed unitZoom (twoItems [1,2]) 200 150 1) [(230,140)]).project 2).map CanvasItem.rect =
          some ⟨130,90,200,120⟩ := by decide +kernel
    rw [hitem,Option.map_some,Option.some_inj,hrect] at hjump
    exact absurd hjump (by decide +kernel)
  · intro h
    obtain ⟨item,hitem,hkept⟩ := h.opposite rfl _ rfl
    have hnarrow : (projectFindItem (run (dragStep unitZoom)
        (pressed unitZoom (twoItems [1]) 101 150 1) [(291,150)]).project 1).map CanvasItem.rect =
          some ⟨290,100,20,120⟩ := by decide +kernel
    rw [hitem,Option.map_some,Option.some_inj] at hnarrow
    have hedge := hkept.west rfl
    rw [hnarrow] at hedge
    exact absurd hedge (by decide +kernel)

end Filly.Builder

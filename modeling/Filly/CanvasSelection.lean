import Filly.CanvasLocks

/-!
# The selection and the order on the canvas

The ids of the selected items, the one among them that was selected last and the items of
the project are changed by one function each. The id -1 stands for no item. A rubber band
selects what it touches, and what is drawn last is hit first.
-/
namespace Filly.Builder
open KeyedList Runs

variable {F : Type} {zm : ZoomArithmetic F} {c : Canvas F}

/-! ## The selected ids -/

def Canvas.ids (c : Canvas F) : List Int32 := c.project.items.map CanvasItem.id

/-- The ids of the items are different, and none of them stands for no item. -/
structure Numbered (ids : List Int32) : Prop where
  distinct : ids.Nodup
  proper : -1 ∉ ids

structure Selected (c : Canvas F) : Prop where
  distinct : c.selectedItems.Nodup
  present : ∀ id ∈ c.selectedItems, id ∈ c.ids
  none : c.selectedItem = -1 ↔ c.selectedItems = []
  primary : c.selectedItem ≠ -1 → c.selectedItem ∈ c.selectedItems

theorem Selected.of_mem (hids : Numbered c.ids) (hdistinct : c.selectedItems.Nodup)
    (hpresent : ∀ id ∈ c.selectedItems, id ∈ c.ids) (h : c.selectedItem ∈ c.selectedItems) :
    Selected c := by
  have hproper : c.selectedItem ≠ -1 := by
    intro hnone
    exact hids.proper (hnone ▸ hpresent _ h)
  exact ⟨hdistinct,hpresent,iff_of_false hproper (List.ne_nil_of_mem h),fun _ => h⟩

theorem Selected.of_nil (hitem : c.selectedItem = -1) (hitems : c.selectedItems = []) :
    Selected c := by
  refine ⟨?_,?_,iff_of_true hitem hitems,fun h => absurd hitem h⟩
  · rw [hitems]
    exact List.nodup_nil
  · rw [hitems]
    exact fun id hid => absurd hid List.not_mem_nil

/-- The selection and the ids are all that counts. -/
theorem Selected.congr {c' : Canvas F} (h : Selected c) (hids : c'.ids = c.ids)
    (hitem : c'.selectedItem = c.selectedItem) (hitems : c'.selectedItems = c.selectedItems) :
    Selected c' := by
  refine ⟨?_,?_,?_,?_⟩
  · rw [hitems]
    exact h.distinct
  · rw [hitems,hids]
    exact h.present
  · rw [hitem,hitems]
    exact h.none
  · rw [hitem,hitems]
    exact h.primary

theorem selected_canvasNew (p : BuilderProject) (w h : Int32) : Selected (canvasNew zm p w h) :=
  .of_nil rfl rfl

theorem selected_deselectAll (c : Canvas F) : Selected (canvasDeselectAll c) := .of_nil rfl rfl

theorem selected_selectItem (hids : Numbered c.ids) {id : Int32} (hid : id ∈ c.ids) :
    Selected (canvasSelectItem c id) := by
  refine .of_mem hids (List.nodup_singleton id) ?_ (List.mem_singleton_self id)
  intro k hk
  rwa [List.mem_singleton.1 hk]

theorem selected_selectAll (hids : Numbered c.ids) (h : Selected c) :
    Selected (canvasSelectAll c) := by
  cases hall : c.ids with
  | nil =>
      have hnone : c.selectedItems = [] := by
        refine List.eq_nil_iff_forall_not_mem.2 fun id hid => ?_
        have hin := h.present id hid
        rw [hall] at hin
        exact List.not_mem_nil hin
      refine .of_nil ?_ hall
      change (c.ids.head?).getD c.selectedItem = -1
      rw [hall]
      exact h.none.2 hnone
  | cons id ids =>
      refine .of_mem hids hids.distinct (fun _ hk => hk) ?_
      change (c.ids.head?).getD c.selectedItem ∈ c.ids
      rw [hall]
      exact List.mem_cons_self

theorem selected_toggle (hids : Numbered c.ids) (h : Selected c) {id : Int32} (hid : id ∈ c.ids) :
    Selected (canvasToggleSelect c id) := by
  unfold canvasToggleSelect
  split_ifs with hin
  · dsimp only
    cases hlast : (c.selectedItems.erase id).getLast? with
    | none => exact .of_nil rfl (List.getLast?_eq_none_iff.1 hlast)
    | some last =>
        exact .of_mem hids (h.distinct.erase id) (fun k hk => h.present k (List.mem_of_mem_erase hk))
          (List.mem_of_getLast? hlast)
  · refine .of_mem hids ?_ ?_ (List.mem_append_right _ (List.mem_singleton_self id))
    · exact h.distinct.append (List.nodup_singleton id)
        (List.disjoint_singleton.2 hin)
    · intro k hk
      rcases List.mem_append.1 hk with hk | hk
      · exact h.present k hk
      · rwa [List.mem_singleton.1 hk]

theorem ids_toggle (c : Canvas F) (id : Int32) : (canvasToggleSelect c id).ids = c.ids := by
  unfold Canvas.ids
  rw [canvasToggleSelect_project]

theorem selected_toggles {ids : List Int32} (hids : Numbered c.ids) (h : Selected c)
    (hin : ∀ id ∈ ids, id ∈ c.ids) : Selected (ids.foldl canvasToggleSelect c) := by
  induction ids generalizing c with
  | nil => exact h
  | cons id ids ih =>
      rw [List.forall_mem_cons] at hin
      refine ih ?_ (selected_toggle hids h hin.1) ?_
      · rwa [ids_toggle]
      · rw [ids_toggle]
        exact hin.2

/-- Toggles of different ids that are not selected yet select them. -/
theorem selectedItems_toggles {ids : List Int32} (hids : ids.Nodup)
    (hnew : ∀ id ∈ ids, id ∉ c.selectedItems) :
    (ids.foldl canvasToggleSelect c).selectedItems = c.selectedItems++ids := by
  induction ids generalizing c with
  | nil => rw [List.foldl_nil,List.append_nil]
  | cons id ids ih =>
      rw [List.nodup_cons] at hids
      rw [List.forall_mem_cons] at hnew
      have htoggle : (canvasToggleSelect c id).selectedItems = c.selectedItems++[id] := by
        rw [canvasToggleSelect,if_neg hnew.1]
      rw [List.foldl_cons,ih hids.2,htoggle,List.append_assoc,List.singleton_append]
      intro k hk
      rw [htoggle,List.mem_append,List.mem_singleton]
      rintro (hold | rfl)
      · exact hnew.2 k hk hold
      · exact hids.1 hk

/-! ## What can happen to the selection -/

inductive SelectionEvent where
  | canvas (e : CanvasEvent)
  | select (itemId : Int32)
  | toggle (itemId : Int32)
  | deselectAll

variable (zm) in
def Canvas.take (c : Canvas F) : SelectionEvent → Canvas F
  | .canvas e => c.handle zm e
  | .select itemId => canvasSelectItem c itemId
  | .toggle itemId => canvasToggleSelect c itemId
  | .deselectAll => canvasDeselectAll c

/-- What is selected or toggled is an item. -/
def NamesItem (c : Canvas F) : SelectionEvent → Prop
  | .select itemId | .toggle itemId => itemId ∈ c.ids
  | _ => True

theorem ids_changeItems {f : CanvasItem → CanvasItem} (hf : ∀ item, (f item).id = item.id)
    (p : BuilderProject) (ids : List Int32) :
    (changeItems p f ids).items.map CanvasItem.id = p.items.map CanvasItem.id := by
  induction ids generalizing p with
  | nil => rfl
  | cons id ids ih => exact (ih _).trans (map_key_modify hf p.items)

theorem changeUnlocked_id {f : CanvasItem → CanvasItem} (hf : ∀ item, (f item).id = item.id)
    (item : CanvasItem) : (changeUnlocked f item).id = item.id := by
  unfold changeUnlocked
  split_ifs
  · rfl
  · exact hf item

theorem numbered_removeItem {p : BuilderProject} (h : Numbered (p.items.map CanvasItem.id))
    (id : Int32) : Numbered ((projectRemoveItem p id).items.map CanvasItem.id) := by
  have hsub : ((projectRemoveItem p id).items.map CanvasItem.id).Sublist
      (p.items.map CanvasItem.id) := List.eraseP_sublist.map CanvasItem.id
  exact ⟨h.distinct.sublist hsub,fun hin => h.proper (hsub.subset hin)⟩

theorem numbered_of_perm {items items' : List CanvasItem} (h : items'.Perm items)
    (hids : Numbered (items.map CanvasItem.id)) : Numbered (items'.map CanvasItem.id) :=
  ⟨((h.map CanvasItem.id).nodup_iff).2 hids.distinct,
    fun hin => hids.proper ((h.map CanvasItem.id).mem_iff.1 hin)⟩

variable (zm) in
/-- What each event keeps. -/
structure Steady (c : Canvas F) : Prop where
  numbered : Numbered c.ids
  selected : Selected c
  unzoomed : c.zoom = zm.one

theorem Steady.congr {c' : Canvas F} (h : Steady zm c) (hids : c'.ids = c.ids)
    (hitem : c'.selectedItem = c.selectedItem) (hitems : c'.selectedItems = c.selectedItems)
    (hzoom : c'.zoom = c.zoom) : Steady zm c' := by
  refine ⟨?_,h.selected.congr hids hitem hitems,hzoom.trans h.unzoomed⟩
  rw [hids]
  exact h.numbered

/-- Only the order of the items changes. -/
theorem Steady.of_perm {c' : Canvas F} (h : Steady zm c)
    (hitems : c'.project.items.Perm c.project.items) (hselection :
      c'.selectedItem = c.selectedItem ∧ c'.selectedItems = c.selectedItems)
    (hzoom : c'.zoom = c.zoom) : Steady zm c' := by
  refine ⟨numbered_of_perm hitems h.numbered,⟨?_,?_,?_,?_⟩,hzoom.trans h.unzoomed⟩
  · rw [hselection.2]
    exact h.selected.distinct
  · rw [hselection.2]
    exact fun id hid => (hitems.map CanvasItem.id).mem_iff.2 (h.selected.present id hid)
  · rw [hselection.1,hselection.2]
    exact h.selected.none
  · rw [hselection.1,hselection.2]
    exact h.selected.primary

theorem Steady.mouseDown (h : Steady zm c) (x y button : Int32) :
    Steady zm (canvasMouseDown zm c x y button).2 := by
  unfold canvasMouseDown
  split_ifs
  · exact h.congr rfl rfl rfl rfl
  · exact h.congr rfl rfl rfl rfl
  · exact h.congr rfl rfl rfl rfl
  · dsimp only
    by_cases hhit : 0 ≤ canvasHitTest zm c x y
    · rw [if_pos hhit]
      cases hitem : projectFindItem c.project (canvasHitTest zm c x y) with
      | none => exact h
      | some item =>
          dsimp only
          split_ifs
          · exact h.congr rfl rfl rfl rfl
          · have hid : canvasHitTest zm c x y ∈ c.ids :=
              (lookup_isSome_iff c.project.items).1 (Option.isSome_iff_exists.2 ⟨item,hitem⟩)
            have hselected := selected_selectItem (c := canvasDeselectAll c) h.numbered hid
            exact ⟨h.numbered,hselected.congr rfl rfl rfl,h.unzoomed⟩
    · rw [if_neg hhit]
      exact h.congr rfl rfl rfl rfl

theorem Steady.mouseMove (h : Steady zm c) (x y : Int32) (buttonDown : Bool) :
    Steady zm (canvasMouseMove zm c x y buttonDown).2 := by
  unfold canvasMouseMove
  dsimp only
  split_ifs
  · exact h.congr rfl rfl rfl rfl
  · exact h.congr rfl rfl rfl rfl
  · refine h.congr (ids_changeItems ?_ c.project c.selectedItems) rfl rfl rfl
    exact fun _ => rfl
  · exact h.congr rfl rfl rfl rfl
  · exact h.congr rfl rfl rfl rfl

theorem banded_sublist (zm : ZoomArithmetic F) (c : Canvas F) : (banded zm c).Sublist c.ids :=
  List.filter_sublist.map CanvasItem.id

theorem Steady.mouseUp (h : Steady zm c) : Steady zm (canvasMouseUp zm c).2 := by
  have hzoom : ∀ (ids : List Int32) (c : Canvas F),
      (ids.foldl canvasToggleSelect c).zoom = c.zoom := by
    intro ids
    induction ids with
    | nil => exact fun _ => rfl
    | cons id ids ih =>
        intro c
        rw [List.foldl_cons,ih,canvasToggleSelect]
        split_ifs <;> rfl
  have hproject : (canvasMouseUp zm c).2.project = c.project := canvasMouseUp_project c
  unfold canvasMouseUp at hproject ⊢
  dsimp only at hproject ⊢
  split_ifs at hproject ⊢
  · have hselected := selected_toggles (c := canvasDeselectAll c) h.numbered
      (selected_deselectAll c) (banded_sublist zm c).subset
    have hids : Numbered ((banded zm c).foldl canvasToggleSelect (canvasDeselectAll c)).ids := by
      unfold Canvas.ids
      rw [hproject]
      exact h.numbered
    exact ⟨hids,hselected.congr rfl rfl rfl,(hzoom _ _).trans h.unzoomed⟩
  · exact ⟨h.numbered,.of_nil rfl rfl,h.unzoomed⟩
  · exact h.congr rfl rfl rfl rfl

theorem Steady.deleteSelected (h : Steady zm c) : Steady zm (canvasDeleteSelected c) := by
  have hremove : ∀ (ids : List Int32) (p : BuilderProject), Numbered (p.items.map CanvasItem.id) →
      Numbered ((ids.foldl projectRemoveItem p).items.map CanvasItem.id) := by
    intro ids
    induction ids with
    | nil => exact fun _ hp => hp
    | cons id ids ih => exact fun p hp => ih _ (numbered_removeItem hp id)
  exact ⟨hremove c.selectedItems c.project h.numbered,.of_nil rfl rfl,h.unzoomed⟩

theorem Steady.bringToFront (h : Steady zm c) (id : Int32) : Steady zm (canvasBringToFront c id) := by
  refine h.of_perm (canvasBringToFront_perm c id) ?_ ?_
  · unfold canvasBringToFront
    split
    · exact ⟨rfl,rfl⟩
    · split_ifs <;> exact ⟨rfl,rfl⟩
  · unfold canvasBringToFront
    split
    · rfl
    · split_ifs <;> rfl

theorem Steady.sendToBack (h : Steady zm c) (id : Int32) : Steady zm (canvasSendToBack c id) := by
  refine h.of_perm (canvasSendToBack_perm c id) ?_ ?_
  · unfold canvasSendToBack
    split <;> exact ⟨rfl,rfl⟩
  · unfold canvasSendToBack
    split <;> rfl

theorem Steady.handle (h : Steady zm c) (e : CanvasEvent) : Steady zm (c.handle zm e) := by
  cases e with
  | mouseDown x y button => exact h.mouseDown x y button
  | mouseMove x y buttonDown => exact h.mouseMove x y buttonDown
  | mouseUp => exact h.mouseUp
  | keyMove dx dy =>
      refine h.congr (ids_changeItems (changeUnlocked_id ?_) c.project c.selectedItems) rfl rfl rfl
      exact fun _ => rfl
  | keyResize dw dh =>
      refine h.congr (ids_changeItems (changeUnlocked_id ?_) c.project c.selectedItems) rfl rfl rfl
      exact fun _ => rfl
  | deleteSelected => exact h.deleteSelected
  | selectAll => exact ⟨h.numbered,selected_selectAll h.numbered h.selected,h.unzoomed⟩
  | bringToFront itemId => exact h.bringToFront itemId
  | sendToBack itemId => exact h.sendToBack itemId

theorem Steady.take (h : Steady zm c) {e : SelectionEvent} (he : NamesItem c e) :
    Steady zm (c.take zm e) := by
  cases e with
  | canvas e => exact h.handle e
  | select itemId => exact ⟨h.numbered,selected_selectItem h.numbered he,h.unzoomed⟩
  | toggle itemId =>
      have hzoom : (canvasToggleSelect c itemId).zoom = c.zoom := by
        unfold canvasToggleSelect
        split_ifs <;> rfl
      have hids : Numbered (canvasToggleSelect c itemId).ids := by
        rw [ids_toggle]
        exact h.numbered
      exact ⟨hids,selected_toggle h.numbered h.selected he,hzoom.trans h.unzoomed⟩
  | deselectAll => exact ⟨h.numbered,selected_deselectAll c,h.unzoomed⟩

/-! ## Numbers that do not wrap around -/

theorem toInt_sub_eq {a b : Int32} (h : |a.toInt-b.toInt| < 2^31) :
    (a-b).toInt = a.toInt-b.toInt := by
  rw [abs_lt] at h
  rw [Int32.toInt_sub,Int.bmod_eq_of_le] <;> omega

theorem toInt_add_eq {a b : Int32} (h : -2^31 ≤ a.toInt+b.toInt ∧ a.toInt+b.toInt < 2^31) :
    (a+b).toInt = a.toInt+b.toInt := by
  rw [Int32.toInt_add,Int.bmod_eq_of_le] <;> omega

theorem toInt_abs_eq {v : Int32} (h : |v.toInt| < 2^31) : v.abs.toInt = |v.toInt| := by
  have hmin : v.toBitVec ≠ BitVec.intMin 32 := by
    intro hv
    have hint : v.toInt = (BitVec.intMin 32).toInt := congrArg BitVec.toInt hv
    rw [hint] at h
    exact absurd h (by decide)
  rw [Int.abs_eq_natAbs]
  exact BitVec.toInt_abs_eq_natAbs_of_ne_intMin hmin

theorem toInt_if_lt (p q : Int32) : (if q < p then q else p).toInt = min p.toInt q.toInt := by
  split_ifs with hlt
  · rw [Int32.lt_iff_toInt_lt] at hlt
    exact (min_eq_right hlt.le).symm
  · rw [Int32.lt_iff_toInt_lt,not_lt] at hlt
    exact (min_eq_left hlt).symm

/-- The far edge of a rectangle. -/
theorem toInt_edge {a w : Int32} (ha : |a.toInt| ≤ 2^24) (hw : 0 ≤ w.toInt ∧ w.toInt ≤ 2^24) :
    (a+w).toInt = a.toInt+w.toInt := by
  rw [abs_le] at ha
  exact toInt_add_eq (by omega)

/-- In one direction the edges are compared as they should be. -/
theorem edges_meet_iff {p q a w : Int32} (hband : |q.toInt-p.toInt| < 2^31)
    (ha : |a.toInt| ≤ 2^24) (hw : 0 ≤ w.toInt ∧ w.toInt ≤ 2^24) :
    ((if q < p then q else p) ≤ a+w ∧ a ≤ (if q < p then q else p)+(q-p).abs) ↔
      (Set.Icc a.toInt (a.toInt+w.toInt) ∩ Set.uIcc p.toInt q.toInt).Nonempty := by
  have hlow := toInt_if_lt p q
  have hwide : (q-p).abs.toInt = |q.toInt-p.toInt| := by
    rw [toInt_abs_eq (by rwa [toInt_sub_eq hband]),toInt_sub_eq hband]
  have hedge := toInt_edge ha hw
  have hsum : min p.toInt q.toInt+|q.toInt-p.toInt| = max p.toInt q.toInt := by
    rw [← max_sub_min_eq_abs]
    ring
  have hhigh : ((if q < p then q else p)+(q-p).abs).toInt = max p.toInt q.toInt := by
    have hp := And.intro p.le_toInt p.toInt_lt
    have hq := And.intro q.le_toInt q.toInt_lt
    rw [toInt_add_eq (by rw [hlow,hwide,hsum]; omega),hlow,hwide,hsum]
  rw [Int32.le_iff_toInt_le,Int32.le_iff_toInt_le,hlow,hedge,hhigh,Set.uIcc,Set.Icc_inter_Icc,
    Set.nonempty_Icc,sup_le_iff,le_inf_iff,le_inf_iff]
  have hown : a.toInt ≤ a.toInt+w.toInt := by omega
  have hother : p.toInt ⊓ q.toInt ≤ p.toInt ⊔ q.toInt := inf_le_sup
  exact ⟨fun h => ⟨⟨hown,h.2⟩,h.1,hother⟩,fun h => ⟨h.2.1,h.1.2⟩⟩

/-! ## Rectangles at zoom 1 -/

/-- Where the left and the upper edge are on the screen. -/
def leftOf (c : Canvas F) (r : Rect) : ℤ := r.x.toInt-c.scrollX.toInt

def topOf (c : Canvas F) (r : Rect) : ℤ := r.y.toInt-c.scrollY.toInt

/-- The points of the rectangle. -/
def covered (c : Canvas F) (r : Rect) : Set (ℤ × ℤ) :=
  Set.Ico (leftOf c r) (leftOf c r+r.w.toInt) ×ˢ Set.Ico (topOf c r) (topOf c r+r.h.toInt)

/-- The rectangle with its edges. -/
def framed (c : Canvas F) (r : Rect) : Set (ℤ × ℤ) :=
  Set.Icc (leftOf c r) (leftOf c r+r.w.toInt) ×ˢ Set.Icc (topOf c r) (topOf c r+r.h.toInt)

/-- The rubber band with its edges. -/
def bandArea (c : Canvas F) : Set (ℤ × ℤ) :=
  Set.uIcc c.dragStartX.toInt c.rubberX.toInt ×ˢ Set.uIcc c.dragStartY.toInt c.rubberY.toInt

/-- The size is not negative, and single precision has the numbers of the rectangle. -/
structure Placed (c : Canvas F) (r : Rect) : Prop where
  left : |leftOf c r| ≤ 2^24
  top : |topOf c r| ≤ 2^24
  width : 0 ≤ r.w.toInt ∧ r.w.toInt ≤ 2^24
  height : 0 ≤ r.h.toInt ∧ r.h.toInt ≤ 2^24

/-- The size of the band is a 32-bit number. -/
structure BandFits (c : Canvas F) : Prop where
  width : |c.rubberX.toInt-c.dragStartX.toInt| < 2^31
  height : |c.rubberY.toInt-c.dragStartY.toInt| < 2^31

def BandWide (c : Canvas F) : Prop :=
  4 < |c.rubberX.toInt-c.dragStartX.toInt| ∨ 4 < |c.rubberY.toInt-c.dragStartY.toInt|

variable (zm) in
/-- At zoom 1 small numbers are not changed. -/
def ExactAtOne : Prop := ∀ v : Int32, |v.toInt| ≤ 2^24 → zm.scale zm.one v = v

/-- The numbers on the screen are those of the rectangle. -/
theorem onScreen_toInt (hexact : ExactAtOne zm) (hzoom : c.zoom = zm.one) {r : Rect}
    (h : Placed c r) :
    (onScreen zm c r).x.toInt = leftOf c r ∧ (onScreen zm c r).y.toInt = topOf c r ∧
      (onScreen zm c r).w = r.w ∧ (onScreen zm c r).h = r.h := by
  have hplace {v scroll : Int32} (hv : |v.toInt-scroll.toInt| ≤ 2^24) :
      (zm.scale c.zoom (v-scroll)).toInt = v.toInt-scroll.toInt := by
    have hsub : (v-scroll).toInt = v.toInt-scroll.toInt :=
      toInt_sub_eq (hv.trans_lt (by norm_num))
    rw [hzoom,hexact _ (by rwa [hsub]),hsub]
  have hsize {v : Int32} (hv : 0 ≤ v.toInt ∧ v.toInt ≤ 2^24) : zm.scale c.zoom v = v := by
    rw [hzoom]
    exact hexact v (by rw [abs_of_nonneg hv.1]; exact hv.2)
  exact ⟨hplace h.left,hplace h.top,hsize h.width,hsize h.height⟩

/-! ## The rubber band -/

/-- The ids of the band are those of the items that it meets. -/
theorem mem_banded_iff (hexact : ExactAtOne zm) (h : Steady zm c) (hband : BandFits c)
    {item : CanvasItem} (hitem : item ∈ c.project.items) (hplaced : Placed c item.rect) :
    item.id ∈ banded zm c ↔
      item.locked = false ∧ item.visible ∧ (framed c item.rect ∩ bandArea c).Nonempty := by
  obtain ⟨hx,hy,hw,hh⟩ := onScreen_toInt hexact h.unzoomed hplaced
  have hhor := edges_meet_iff (a := (onScreen zm c item.rect).x) hband.width
    (by rw [hx]; exact hplaced.left) hplaced.width
  have hver := edges_meet_iff (a := (onScreen zm c item.rect).y) hband.height
    (by rw [hy]; exact hplaced.top) hplaced.height
  rw [hx] at hhor
  rw [hy] at hver
  unfold banded
  rw [key_mem_filter_iff h.numbered.distinct hitem,decide_eq_true_iff,hw,hh,framed,bandArea,
    Set.prod_inter_prod,Set.prod_nonempty_iff,← hhor,← hver,Bool.not_eq_true,and_assoc]

theorem selectedItems_mouseUp (h : Steady zm c) (haction : c.action = .rubberBand)
    (hdragging : c.dragging) (hfits : BandFits c) (hwide : BandWide c) :
    (canvasMouseUp zm c).2.selectedItems = banded zm c := by
  have hsize {p q : Int32} (hpq : |q.toInt-p.toInt| < 2^31) :
      4 < (q-p).abs ↔ 4 < |q.toInt-p.toInt| := by
    rw [Int32.lt_iff_toInt_lt,toInt_abs_eq (by rwa [toInt_sub_eq hpq]),toInt_sub_eq hpq]
    rfl
  have htoggles := selectedItems_toggles (c := canvasDeselectAll c)
    (h.numbered.distinct.sublist (banded_sublist zm c))
    (fun id _ => List.not_mem_nil)
  unfold canvasMouseUp
  rw [if_pos ⟨haction,hdragging⟩,if_pos]
  · exact htoggles
  · rw [hsize hfits.width,hsize hfits.height]
    exact hwide

/-! ## The front and the back -/

theorem canvasBringToFront_eq {before after : List CanvasItem} {item : CanvasItem}
    (hids : Numbered c.ids) (hitems : c.project.items = before++item::after) :
    canvasBringToFront c item.id =
      { c with project := { c.project with items := before++after++[item] } } := by
  have hids := hids.distinct
  unfold Canvas.ids at hids
  unfold canvasBringToFront
  rw [hitems] at hids ⊢
  rw [findIdx?_key hids]
  dsimp only
  cases after with
  | nil =>
      rw [if_neg (by simp),List.append_nil,← hitems]
  | cons next after =>
      rw [if_pos (by simp),List.eraseIdx_append_of_length_le le_rfl]
      simp

theorem canvasSendToBack_eq {before after : List CanvasItem} {item : CanvasItem}
    (hids : Numbered c.ids) (hitems : c.project.items = before++item::after) :
    canvasSendToBack c item.id =
      { c with project := { c.project with items := item::(before++after) } } := by
  have hids := hids.distinct
  unfold Canvas.ids at hids
  unfold canvasSendToBack
  rw [hitems] at hids ⊢
  cases before with
  | nil =>
      have hnone : after.findIdx? (fun a => a.id = item.id) = none := by
        rw [List.findIdx?_eq_none_iff]
        rw [List.nil_append,List.map_cons,List.nodup_cons] at hids
        exact fun a ha => decide_eq_false fun hid => hids.1 (hid ▸ List.mem_map_of_mem ha)
      rw [List.nil_append,List.tail_cons,hnone]
      dsimp only
      rw [List.nil_append,← List.nil_append (item::after),← hitems]
  | cons first before =>
      have htail := findIdx?_key (List.Nodup.of_cons hids)
      rw [List.cons_append,List.tail_cons,htail]
      simp [List.eraseIdx_append_of_length_le]

/-- The last item is hit before all others. -/
theorem canvasHitTest_last (hexact : ExactAtOne zm) (hzoom : c.zoom = zm.one)
    (others : List CanvasItem) {item : CanvasItem} (hitems : c.project.items = others++[item])
    (hlocked : item.locked = false) (hvisible : item.visible) (hplaced : Placed c item.rect)
    {x y : Int32} (hpoint : (x.toInt,y.toInt) ∈ covered c item.rect) :
    canvasHitTest zm c x y = item.id := by
  obtain ⟨hx,hy,hw,hh⟩ := onScreen_toInt hexact hzoom hplaced
  have hright := toInt_edge (a := (onScreen zm c item.rect).x) (by rw [hx]; exact hplaced.left)
    hplaced.width
  have hbottom := toInt_edge (a := (onScreen zm c item.rect).y) (by rw [hy]; exact hplaced.top)
    hplaced.height
  rw [hx] at hright
  rw [hy] at hbottom
  obtain ⟨⟨hleft,hin⟩,htop,habove⟩ := hpoint
  unfold canvasHitTest
  rw [hitems,List.reverse_append,List.reverse_singleton,List.singleton_append]
  dsimp only
  rw [List.find?_cons_of_pos]
  · rfl
  · rw [decide_eq_true_iff,hw,hh,Int32.le_iff_toInt_le,Int32.le_iff_toInt_le,
      Int32.lt_iff_toInt_lt,Int32.lt_iff_toInt_lt,hx,hy,hright,hbottom]
    exact ⟨by rw [hlocked]; exact Bool.false_ne_true,hvisible,hleft,hin,htop,habove⟩

/-! ## Every state of a run -/

variable (zm) in
/-- What the selection and the order of the items are for. -/
structure Serves (c : Canvas F) : Prop where
  selected : Selected c
  banded : c.action = .rubberBand → c.dragging → BandFits c → BandWide c →
    ∀ item ∈ c.project.items, Placed c item.rect →
      (item.id ∈ (canvasMouseUp zm c).2.selectedItems ↔
        item.locked = false ∧ item.visible ∧ (framed c item.rect ∩ bandArea c).Nonempty)
  front : ∀ before item after, c.project.items = before++item::after →
    (canvasBringToFront c item.id).project.items = before++after++[item]
  back : ∀ before item after, c.project.items = before++item::after →
    (canvasSendToBack c item.id).project.items = item::(before++after)
  hit : ∀ item ∈ c.project.items, item.locked = false → item.visible → Placed c item.rect →
    ∀ x y : Int32, (x.toInt,y.toInt) ∈ covered c item.rect →
      canvasHitTest zm (canvasBringToFront c item.id) x y = item.id

theorem Steady.serves (hexact : ExactAtOne zm) (h : Steady zm c) : Serves zm c := by
  refine ⟨h.selected,?_,?_,?_,?_⟩
  · intro haction hdragging hfits hwide item hitem hplaced
    rw [selectedItems_mouseUp h haction hdragging hfits hwide]
    exact mem_banded_iff hexact h hfits hitem hplaced
  · intro before item after hitems
    rw [canvasBringToFront_eq h.numbered hitems]
  · intro before item after hitems
    rw [canvasSendToBack_eq h.numbered hitems]
  · intro item hitem hlocked hvisible hplaced x y hpoint
    obtain ⟨before,after,hitems⟩ := List.append_of_mem hitem
    rw [canvasBringToFront_eq h.numbered hitems]
    refine canvasHitTest_last hexact ?_ (before++after) ?_ hlocked hvisible ?_ hpoint
    · exact h.unzoomed
    · rfl
    · exact ⟨hplaced.left,hplaced.top,hplaced.width,hplaced.height⟩

/-- From a new canvas on, every sequence of events keeps the selection among the items, and a
band, the front and the back do what they are for. -/
theorem selection_serves (hexact : ExactAtOne zm) {p : BuilderProject}
    (hids : Numbered (p.items.map CanvasItem.id)) (w h : Int32) (es : List SelectionEvent)
    (hes : Guarded (Canvas.take zm) NamesItem (canvasNew zm p w h) es) :
    Always (Canvas.take zm) (Serves zm) (canvasNew zm p w h) es := by
  have hsteady := hes.always (fun _ _ hc he => Steady.take hc he)
    (⟨hids,selected_canvasNew p w h,rfl⟩ : Steady zm (canvasNew zm p w h))
  exact hsteady.imp fun _ hc => hc.serves hexact

/-! ## Items at the edge of the numbers -/

def projectOf (items : List CanvasItem) : BuilderProject :=
  { projectNew none 800 600 with items := items }

def threeItems : BuilderProject :=
  projectOf [plainItem 1 ⟨100,100,200,120⟩,{ plainItem 2 ⟨150,150,200,120⟩ with locked := true },
    plainItem 3 ⟨400,300,200,120⟩]

/-- A band selects two items, one more is toggled, the selection is deleted. -/
theorem selection_served : Always (Canvas.take unitZoom) (Serves unitZoom)
    (canvasNew unitZoom threeItems 800 600)
    [.canvas (.mouseDown 700 500 1),.canvas (.mouseMove 50 50 true),.canvas .mouseUp,.toggle 2,
      .canvas (.bringToFront 1),.canvas .deleteSelected] := by
  refine selection_serves (fun _ _ => rfl) ⟨by decide +kernel,by decide +kernel⟩ 800 600 _ ?_
  have htoggled : (2 : Int32) ∈ threeItems.items.map CanvasItem.id := by decide +kernel
  exact ⟨trivial,trivial,trivial,htoggled,trivial,trivial,trivial⟩

def alone (item : CanvasItem) : Canvas Unit := canvasNew unitZoom (projectOf [item]) 800 600

/-- A band over one item that is not finished. -/
def bandOver (item : CanvasItem) (x y x' y' : Int32) : Canvas Unit :=
  run (Canvas.take unitZoom) (alone item)
    [.canvas (.mouseDown x y 1),.canvas (.mouseMove x' y' true)]

def farItem : CanvasItem := plainItem 1 ⟨2147483520,100,200,120⟩

def negativeItem : CanvasItem := plainItem 1 ⟨300,100,-50,120⟩

def negativeBand : Canvas Unit := bandOver negativeItem 200 50 400 300

def wideBand : Canvas Unit :=
  bandOver (plainItem 1 ⟨100,0,200,120⟩) (-1073741824) 50 1073741824 50

/-- An item may have the id -1. One at the end of the numbers is not hit where it is, one of
negative size is selected by a band that does not meet it, and a band of 2^31 does not select
what it meets. -/
theorem selection_fails :
    (¬Always (Canvas.take unitZoom) Selected (alone (plainItem (-1) ⟨100,100,200,120⟩))
      [.canvas .selectAll]) ∧
    ((2147483520,150) ∈ covered (alone farItem) farItem.rect ∧
      canvasHitTest unitZoom (canvasBringToFront (alone farItem) 1) 2147483520 150 = -1) ∧
    (¬(framed negativeBand negativeItem.rect ∩ bandArea negativeBand).Nonempty ∧
      (canvasMouseUp unitZoom negativeBand).2.selectedItems = [1]) ∧
    (framed wideBand ⟨100,0,200,120⟩ ∩ bandArea wideBand).Nonempty ∧ BandWide wideBand ∧
      (canvasMouseUp unitZoom wideBand).2.selectedItems = [] := by
  refine ⟨?_,⟨⟨⟨?_,?_⟩,?_⟩,by decide +kernel⟩,⟨?_,by decide +kernel⟩,⟨(100,50),⟨⟨?_,?_⟩,?_⟩,?_⟩,
    Or.inl (by decide +kernel),by decide +kernel⟩
  · intro h
    exact absurd (h.finish.none.1 (by decide +kernel)) (by decide +kernel)
  · decide +kernel
  · decide +kernel
  · exact ⟨by decide +kernel,by decide +kernel⟩
  · rintro ⟨point,⟨⟨hleft,hright⟩,_⟩,_⟩
    exact absurd (hleft.trans hright) (by decide +kernel)
  · decide +kernel
  · decide +kernel
  · exact ⟨by decide +kernel,by decide +kernel⟩
  · exact ⟨⟨by decide +kernel,by decide +kernel⟩,by decide +kernel,by decide +kernel⟩

end Filly.Builder

import Filly.CanvasDrags

/-!
# Locked items on the canvas

The keys pass over locked items, and neither the pointer nor the rubber band finds them.
A selection of all items holds them too, and a drag and a deletion do not look at the
lock again.
-/
namespace Filly.Builder
open KeyedList Runs

/-! ## The locked items of a project -/

variable {F : Type} {zm : ZoomArithmetic F}

/-- The locked items, in any order. -/
def lockedItems (p : BuilderProject) : Multiset CanvasItem := ↑(p.items.filter CanvasItem.locked)

/-- The item with the id is locked. -/
def findsLocked (p : BuilderProject) (id : Int32) : Bool :=
  (projectFindItem p id).any CanvasItem.locked

theorem lockedItems_of_perm {p p' : BuilderProject} (h : p'.items.Perm p.items) :
    lockedItems p' = lockedItems p :=
  Multiset.coe_eq_coe.2 (h.filter CanvasItem.locked)

theorem lockedItems_changeItem {f : CanvasItem → CanvasItem}
    (hf : ∀ item, (f item).locked = item.locked) {p : BuilderProject} {id : Int32}
    (h : ∀ item, projectFindItem p id = some item → item.locked → f item = item) :
    lockedItems (changeItem p id f) = lockedItems p :=
  congrArg Multiset.ofList (filter_modify hf h)

theorem lockedItems_projectRemoveItem {p : BuilderProject} {id : Int32}
    (h : ¬findsLocked p id) : lockedItems (projectRemoveItem p id) = lockedItems p := by
  refine congrArg Multiset.ofList (filter_eraseP fun item hitem => ?_)
  rw [Bool.not_eq_true,findsLocked,projectFindItem,hitem] at h
  exact h

theorem changeUnlocked_locked {f : CanvasItem → CanvasItem}
    (hf : ∀ item, (f item).locked = item.locked) (item : CanvasItem) :
    (changeUnlocked f item).locked = item.locked := by
  unfold changeUnlocked
  split_ifs
  · rfl
  · exact hf item

/-- The keys leave the locked items, whatever is selected. -/
theorem lockedItems_changeUnlocked {f : CanvasItem → CanvasItem}
    (hf : ∀ item, (f item).locked = item.locked) (p : BuilderProject) (ids : List Int32) :
    lockedItems (changeItems p (changeUnlocked f) ids) = lockedItems p := by
  induction ids generalizing p with
  | nil => rfl
  | cons id ids ih =>
      rw [changeItems,List.foldl_cons,← changeItems,ih]
      exact lockedItems_changeItem (changeUnlocked_locked hf) fun item _ h => if_pos h

theorem findsLocked_changeItem {f : CanvasItem → CanvasItem} (hid : ∀ item, (f item).id = item.id)
    (hf : ∀ item, (f item).locked = item.locked) (p : BuilderProject) (id k : Int32) :
    findsLocked (changeItem p id f) k = findsLocked p k := by
  unfold findsLocked
  rw [findItem_changeItem hid]
  split_ifs
  · cases projectFindItem p k with
    | none => rfl
    | some item => exact hf item
  · rfl

/-- A change of selected items leaves the locked ones when none of them is selected. -/
theorem lockedItems_changeItems {f : CanvasItem → CanvasItem} (hid : ∀ item, (f item).id = item.id)
    (hf : ∀ item, (f item).locked = item.locked) {p : BuilderProject} {ids : List Int32}
    (h : ∀ id ∈ ids, ¬findsLocked p id) : lockedItems (changeItems p f ids) = lockedItems p := by
  induction ids generalizing p with
  | nil => rfl
  | cons id ids ih =>
      rw [List.forall_mem_cons] at h
      have htail : ∀ k ∈ ids, ¬findsLocked (changeItem p id f) k := by
        intro k hk
        rw [findsLocked_changeItem hid hf]
        exact h.2 k hk
      rw [changeItems,List.foldl_cons,← changeItems,ih htail]
      refine lockedItems_changeItem hf fun item hitem hlocked => ?_
      exact absurd (by rw [findsLocked,hitem]; exact hlocked) h.1

/-- A deletion leaves the locked items when it finds none of them on its way. -/
theorem lockedItems_removeItems {p : BuilderProject} {ids : List Int32}
    (h : Guarded projectRemoveItem (fun p id => ¬findsLocked p id) p ids) :
    lockedItems (ids.foldl projectRemoveItem p) = lockedItems p :=
  (h.always (I := fun p' => lockedItems p' = lockedItems p)
    (fun _ _ hp hid => (lockedItems_projectRemoveItem hid).trans hp) rfl).finish

/-! ## What can happen on the canvas -/

inductive CanvasEvent where
  | mouseDown (x y button : Int32)
  | mouseMove (x y : Int32) (buttonDown : Bool)
  | mouseUp
  | keyMove (dx dy : Int32)
  | keyResize (dw dh : Int32)
  | deleteSelected
  | selectAll
  | bringToFront (itemId : Int32)
  | sendToBack (itemId : Int32)

variable (zm) in
def Canvas.handle (c : Canvas F) : CanvasEvent → Canvas F
  | .mouseDown x y button => (canvasMouseDown zm c x y button).2
  | .mouseMove x y buttonDown => (canvasMouseMove zm c x y buttonDown).2
  | .mouseUp => (canvasMouseUp zm c).2
  | .keyMove dx dy => canvasKeyMove c dx dy
  | .keyResize dw dh => canvasKeyResize c dw dh
  | .deleteSelected => canvasDeleteSelected c
  | .selectAll => canvasSelectAll c
  | .bringToFront itemId => canvasBringToFront c itemId
  | .sendToBack itemId => canvasSendToBack c itemId

theorem canvasMouseDown_project (c : Canvas F) (x y button : Int32) :
    (canvasMouseDown zm c x y button).2.project = c.project := by
  unfold canvasMouseDown
  split_ifs
  · rfl
  · rfl
  · rfl
  · dsimp only
    by_cases hhit : 0 ≤ canvasHitTest zm c x y
    · rw [if_pos hhit]
      cases projectFindItem c.project (canvasHitTest zm c x y) with
      | none => rfl
      | some item =>
          dsimp only
          split_ifs
          · rfl
          · rfl
    · rw [if_neg hhit]

theorem canvasToggleSelect_project (c : Canvas F) (id : Int32) :
    (canvasToggleSelect c id).project = c.project := by
  unfold canvasToggleSelect
  split_ifs
  · rfl
  · rfl

theorem canvasMouseUp_project (c : Canvas F) : (canvasMouseUp zm c).2.project = c.project := by
  have htoggle : ∀ (ids : List Int32) (c : Canvas F),
      (ids.foldl canvasToggleSelect c).project = c.project := by
    intro ids
    induction ids with
    | nil => exact fun _ => rfl
    | cons id ids ih => exact fun c => (ih _).trans (canvasToggleSelect_project c id)
  unfold canvasMouseUp
  dsimp only
  split_ifs
  · exact htoggle _ _
  · rfl
  · rfl

/-- Without a drag of items a move of the mouse leaves the project. -/
theorem canvasMouseMove_project {c : Canvas F} {buttonDown : Bool}
    (h : ¬(Drags c ∧ buttonDown)) (x y : Int32) :
    (canvasMouseMove zm c x y buttonDown).2.project = c.project := by
  unfold canvasMouseMove
  dsimp only
  split_ifs with hdragging hdown hpan hband
  · rfl
  · rfl
  · exact absurd ⟨⟨hdragging,hpan,hband⟩,hdown⟩ h
  · rfl
  · rfl

theorem canvasBringToFront_perm (c : Canvas F) (id : Int32) :
    (canvasBringToFront c id).project.items.Perm c.project.items := by
  unfold canvasBringToFront
  split
  · exact List.Perm.refl _
  · next i hi =>
      split_ifs with hlast
      · have hlt : i < c.project.items.length := Nat.lt_of_succ_lt hlast
        dsimp only
        rw [List.getElem?_eq_getElem hlt]
        exact (List.perm_append_singleton _ _).trans (List.getElem_cons_eraseIdx_perm hlt)
      · exact List.Perm.refl _

theorem canvasSendToBack_perm (c : Canvas F) (id : Int32) :
    (canvasSendToBack c id).project.items.Perm c.project.items := by
  unfold canvasSendToBack
  split
  · exact List.Perm.refl _
  · next i hi =>
      have hlt : i+1 < c.project.items.length := by
        have htail := (List.findIdx?_eq_some_iff_findIdx_eq.1 hi).1
        rw [List.length_tail] at htail
        omega
      dsimp only
      rw [List.getElem?_eq_getElem hlt]
      exact List.getElem_cons_eraseIdx_perm hlt

/-! ## Runs -/

/-- No locked item is among those that the event drags or deletes. -/
def SparesLocked (c : Canvas F) : CanvasEvent → Prop
  | .mouseMove _ _ buttonDown =>
      Drags c ∧ buttonDown → ∀ id ∈ c.selectedItems, ¬findsLocked c.project id
  | .deleteSelected =>
      Guarded projectRemoveItem (fun p id => ¬findsLocked p id) c.project c.selectedItems
  | _ => True

theorem lockedItems_handle {c : Canvas F} {e : CanvasEvent} (h : SparesLocked c e) :
    lockedItems (c.handle zm e).project = lockedItems c.project := by
  cases e with
  | mouseDown x y button => exact congrArg lockedItems (canvasMouseDown_project c x y button)
  | mouseMove x y buttonDown =>
      by_cases hdrag : Drags c ∧ buttonDown
      · have heq : c.handle zm (.mouseMove x y buttonDown) = dragStep zm c (x,y) := by
          rw [hdrag.2]
          rfl
        rw [heq,dragStep_eq hdrag.1]
        refine lockedItems_changeItems ?_ ?_ (h hdrag)
        · exact fun _ => rfl
        · exact fun _ => rfl
      · exact congrArg lockedItems (canvasMouseMove_project hdrag x y)
  | mouseUp => exact congrArg lockedItems (canvasMouseUp_project c)
  | keyMove dx dy =>
      refine lockedItems_changeUnlocked ?_ c.project c.selectedItems
      exact fun _ => rfl
  | keyResize dw dh =>
      refine lockedItems_changeUnlocked ?_ c.project c.selectedItems
      exact fun _ => rfl
  | deleteSelected => exact lockedItems_removeItems h
  | selectAll => rfl
  | bringToFront itemId => exact lockedItems_of_perm (canvasBringToFront_perm c itemId)
  | sendToBack itemId => exact lockedItems_of_perm (canvasSendToBack_perm c itemId)

/-- The locked items stay as they are along every run in which no drag and no deletion has
one of them selected. -/
theorem locked_items_stay (c : Canvas F) (es : List CanvasEvent)
    (h : Guarded (Canvas.handle zm) SparesLocked c es) :
    Always (Canvas.handle zm) (fun c' => lockedItems c'.project = lockedItems c.project) c es :=
  h.always (I := fun c' => lockedItems c'.project = lockedItems c.project)
    (fun _ _ hc he => (lockedItems_handle he).trans hc) rfl

/-! ## A locked item beside an unlocked one -/

def lockedBeside : Canvas Unit :=
  { twoItems [] with
    project := { (twoItems []).project with
      items := [plainItem 1 ⟨100,100,200,120⟩,
        { plainItem 2 ⟨400,300,200,120⟩ with locked := true }] } }

/-- With all items selected a key leaves the locked one. A press beside the items empties the
selection, so the drag and the deletion that follow have only the other one. -/
theorem locked_item_stays :
    Always (Canvas.handle unitZoom)
      (fun c => lockedItems c.project = lockedItems lockedBeside.project) lockedBeside
      [.selectAll,.keyMove 8 0,.mouseDown 10 10 1,.mouseUp,.mouseDown 200 150 1,
        .mouseMove 230 140 true,.mouseUp,.deleteSelected] := by
  refine locked_items_stay lockedBeside _ ⟨trivial,trivial,trivial,trivial,trivial,?_,trivial,
    ?_,trivial⟩
  · intro _ id hid
    have hselected : id ∈ [(1 : Int32)] := hid
    cases List.mem_singleton.1 hselected
    decide +kernel
  · exact ⟨by decide +kernel,trivial⟩

/-- With all items selected a drag of the other one takes the locked item along, and a
deletion removes it. -/
theorem locked_items_lost :
    (¬Always (Canvas.handle unitZoom)
      (fun c => lockedItems c.project = lockedItems lockedBeside.project) lockedBeside
      [.selectAll,.mouseDown 200 150 1,.mouseMove 230 140 true]) ∧
    ¬Always (Canvas.handle unitZoom)
      (fun c => lockedItems c.project = lockedItems lockedBeside.project) lockedBeside
      [.selectAll,.deleteSelected] := by
  constructor
  · intro h
    have hrects := congrArg (Multiset.map CanvasItem.rect) h.finish
    exact absurd hrects (by decide +kernel)
  · intro h
    have hcards := congrArg Multiset.card h.finish
    exact absurd hcards (by decide +kernel)

end Filly.Builder

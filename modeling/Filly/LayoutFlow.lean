import Filly.LayoutCalls

/-!
# The flowing children of a container

A container gives each flowing child the rows behind the previous one and moves
on by the height the child ends with. In between, the call for the child anchors
its rectangle anew, as if its frame started at zero; only a child that clips is
pushed back into its frame. The children are stacked exactly when the top that
every child asks for is the one it was given or, for a child that clips, lies not
below it.
-/
namespace Filly.Layout
open Rectangles

/-- The children in z-order, equal ones in the order of the array. -/
def byZIndex (cs : List RenderTree) : List RenderTree :=
  cs.insertionSort fun a b => a.node.zIndex.toInt ≤ b.node.zIndex.toInt

/-- The children occupy pairwise disjoint bands that are stacked in z-order. -/
def FlowStacked (top : ℤ) (cs : List RenderTree) : Prop :=
  Stacked top ((byZIndex cs).map RenderTree.rect) ∧
    (cs.map RenderTree.rect).Pairwise Rect.BandsApart

/-- No difference of two z-indices leaves the range of an `int`. -/
def ZIndicesComparable (cs : List RenderTree) : Prop :=
  ∀ a ∈ cs, ∀ b ∈ cs, -2^31 ≤ a.node.zIndex.toInt-b.node.zIndex.toInt ∧
    a.node.zIndex.toInt-b.node.zIndex.toInt < 2^31

/-- The frame of a flowing child. -/
def flowFrame (isPixel : Bool) (content : Rect) (top : ℤ) (c : RenderTree) : Rect :=
  ⟨content.x,top,content.w,flowHeight isPixel c content.w⟩

/-- The rectangle that a flowing child asks for. -/
def askedRect (c : RenderTree) (frame : Rect) : Rect := (wantedNode (c.withRect frame).node frame).rect

/-- The child keeps the top of its frame. -/
def KeepsTop (c : RenderTree) (frame : Rect) : Prop :=
  if c.node.overflow = .clip then (askedRect c frame).y ≤ frame.y
  else (askedRect c frame).y = frame.y

/-- The height of the band of a child that keeps the top of its frame. -/
def bandHeight (isPixel : Bool) (c : RenderTree) (frame : Rect) : ℤ :=
  settledHeight isPixel c.u frame.y
    (if c.node.overflow = .clip then min (askedRect c frame).h frame.h
    else (askedRect c frame).h)

/-- Every child, in this order, keeps the top that the bands before it leave it,
and no band ends above its top. A child that is given no rows is left as it is. -/
def Settles (isPixel : Bool) (content : Rect) : ℤ → List RenderTree → Prop
  | _, [] => True
  | top, c::cs =>
      let frame := flowFrame isPixel content top c
      if frame.h ≤ 0 then frame.h = 0 ∧ Settles isPixel content top cs
      else KeepsTop c frame ∧ 0 ≤ bandHeight isPixel c frame ∧
        Settles isPixel content (top+bandHeight isPixel c frame) cs

instance (c : RenderTree) (frame : Rect) : Decidable (KeepsTop c frame) := by
  unfold KeepsTop
  infer_instance

instance decidableSettles (isPixel : Bool) (content : Rect) :
    ∀ top cs, Decidable (Settles isPixel content top cs)
  | _, [] => isTrue trivial
  | top, c::cs =>
      have := decidableSettles isPixel content top cs
      have := decidableSettles isPixel content
        (top+bandHeight isPixel c (flowFrame isPixel content top c)) cs
      inferInstanceAs (Decidable (if (flowFrame isPixel content top c).h ≤ 0 then _ ∧ _
        else _ ∧ _ ∧ _))

/-! ## One child -/

variable {isPixel : Bool} {content : Rect} {top : ℤ} {c : RenderTree}

/-- What becomes of a flowing child that gets rows. -/
theorem flowing_keeps_iff {frame : Rect} (hw : 0 < frame.w) (hh : 0 < frame.h) :
    (layoutNode isPixel (c.withRect frame) frame).rect.y = frame.y ↔ KeepsTop c frame := by
  have hpos : ¬(frame.w ≤ 0 ∨ frame.h ≤ 0) := by omega
  have hrec := (wantedNode_record (c.withRect frame).node frame).overflow
  rw [RenderTree.rect,layoutNode_node hpos,KeepsTop,askedRect]
  simp only [placeNode]
  split_ifs with hclip
  · rw [clampOverflow_clip (hrec.trans hclip)]
    exact max_eq_right_iff
  · rw [clampOverflow_free (hrec.trans_ne hclip)]

theorem flowing_height {frame : Rect} (hw : 0 < frame.w) (hh : 0 < frame.h)
    (h : KeepsTop c frame) :
    (layoutNode isPixel (c.withRect frame) frame).rect.h = bandHeight isPixel c frame := by
  have hpos : ¬(frame.w ≤ 0 ∨ frame.h ≤ 0) := by omega
  have hrec := (wantedNode_record (c.withRect frame).node frame).overflow
  have hplain : (placeNode (c.withRect frame).node frame).rect.h =
      if c.node.overflow = .clip then min (askedRect c frame).h frame.h
      else (askedRect c frame).h := by
    rw [KeepsTop] at h
    rw [placeNode]
    split_ifs at h ⊢ with hclip
    · rw [clampOverflow_clip (hrec.trans hclip)]
      change min (askedRect c frame).h (frame.y+frame.h-max (askedRect c frame).y frame.y) = _
      rw [max_eq_right h]
      congr 1
      ring
    · rw [clampOverflow_free (hrec.trans_ne hclip)]
      rfl
  rw [RenderTree.rect,layoutNode_node hpos,bandHeight,← hplain]
  rfl

/-! ## All children -/

/-- The results of the calls for flowing children. -/
def flowResults (isPixel : Bool) (content : Rect) : ℤ → List RenderTree → List RenderTree
  | _, [] => []
  | top, c::cs =>
      let frame := flowFrame isPixel content top c
      let out := layoutNode isPixel (c.withRect frame) frame
      out::flowResults isPixel content (top+out.rect.h) cs

theorem childCall_flow (siblings : List RenderTree) (h : c.flows = true) :
    childCall isPixel content top siblings c =
      (c.withRect (flowFrame isPixel content top c),flowFrame isPixel content top c) := by
  simp only [RenderTree.flows,Bool.and_eq_true,decide_eq_true_eq] at h
  unfold childCall
  split
  · exact absurd ‹_› h.1
  · exact absurd ‹_› h.2
  · rfl

theorem childCalls_results (cs : List (ℕ × RenderTree)) (h : ∀ p ∈ cs, p.2.flows = true)
    (top : ℤ) (siblings : List RenderTree) :
    (childCalls isPixel content cs top siblings).map (fun p => p.2.result isPixel) =
      flowResults isPixel content top (cs.map Prod.snd) := by
  induction cs generalizing top siblings with
  | nil => rfl
  | cons p cs ih =>
      obtain ⟨i,c⟩ := p
      have hc : c.flows = true := h _ List.mem_cons_self
      simp only [childCalls,List.map_cons,flowResults,hc,if_true,childCall_flow siblings hc]
      rw [ih fun p hp => h p (List.mem_cons_of_mem _ hp)]
      rfl

/-- The stack of the results, child by child. -/
theorem flowResults_stacked_iff (hw : 0 < content.w) (cs : List RenderTree) (top : ℤ) :
    Stacked top ((flowResults isPixel content top cs).map RenderTree.rect) ↔
      Settles isPixel content top cs := by
  induction cs generalizing top with
  | nil => exact Iff.rfl
  | cons c cs ih =>
      simp only [flowResults,List.map_cons,Stacked,Settles]
      set frame := flowFrame isPixel content top c with hframe
      have htop : frame.y = top := rfl
      split_ifs with hh
      · rw [layoutNode_small (.inr hh),rect_withRect]
        constructor
        · rintro ⟨-,hn,hs⟩
          have hz : frame.h = 0 := by omega
          rw [hz,add_zero] at hs
          exact ⟨hz,(ih top).mp hs⟩
        · rintro ⟨hz,hs⟩
          rw [hz,add_zero]
          exact ⟨htop,le_rfl,(ih top).mpr hs⟩
      · have hfw : 0 < frame.w := hw
        have hy : (layoutNode isPixel (c.withRect frame) frame).rect.y = frame.y ↔
            KeepsTop c frame := flowing_keeps_iff hfw (not_le.mp hh)
        constructor
        · rintro ⟨ht,hn,hs⟩
          have hk := hy.mp (ht.trans htop.symm)
          rw [flowing_height hfw (not_le.mp hh) hk] at hn hs
          exact ⟨hk,hn,(ih _).mp hs⟩
        · rintro ⟨hk,hn,hs⟩
          rw [flowing_height hfw (not_le.mp hh) hk]
          exact ⟨(hy.mpr hk).trans htop,hn,(ih _).mpr hs⟩

/-! ## The order of the children -/

theorem cmpZIndex_le {a b : RenderTree}
    (h : -2^31 ≤ a.node.zIndex.toInt-b.node.zIndex.toInt ∧
      a.node.zIndex.toInt-b.node.zIndex.toInt < 2^31) :
    cmpZIndex a b ≤ 0 ↔ a.node.zIndex.toInt ≤ b.node.zIndex.toInt := by
  rw [cmpZIndex,Int32.toInt_sub,Int.bmod_eq_of_le (by omega) (by omega)]
  omega

theorem mem_places {cs : List RenderTree} {p : ℕ × RenderTree} (h : p ∈ cs.mapIdx Prod.mk) :
    cs[p.1]? = some p.2 := by
  obtain ⟨i,hi,rfl⟩ := List.mem_mapIdx.mp h
  exact List.getElem?_eq_getElem hi

theorem sortedChildren_snd {cs : List RenderTree} (h : ZIndicesComparable cs) :
    (sortedChildren cs).map Prod.snd = byZIndex cs := by
  rw [sortedChildren,byZIndex,
    List.map_insertionSort _ (fun a b : RenderTree => a.node.zIndex.toInt ≤ b.node.zIndex.toInt)]
  · congr 1
    exact List.ext_getElem (by simp) (by simp)
  · intro a ha b hb
    exact cmpZIndex_le (h _ (List.mem_of_getElem? (mem_places ha)) _
      (List.mem_of_getElem? (mem_places hb)))

/-- The loop changes no z-index. -/
theorem layoutChildren_zIndex (cs : List (ℕ × RenderTree)) (curY : ℤ) (siblings : List RenderTree)
    (h : ∀ p ∈ cs, (siblings.map (·.node.zIndex))[p.1]? = some p.2.node.zIndex) :
    (layoutChildren isPixel (layoutNode isPixel) content cs curY siblings).map (·.node.zIndex) =
      siblings.map (·.node.zIndex) := by
  induction cs generalizing curY siblings with
  | nil => rfl
  | cons p cs ih =>
      obtain ⟨i,c⟩ := p
      set call := childCall isPixel content curY siblings c with hcall
      have hz : (layoutNode isPixel call.1 call.2).node.zIndex = c.node.zIndex := by
        rw [(layoutNode_record isPixel call.1 call.2).zIndex,hcall,childCall]
        split <;> rfl
      have hset : (siblings.set i (layoutNode isPixel call.1 call.2)).map (·.node.zIndex) =
          siblings.map (·.node.zIndex) := by
        obtain ⟨hi,hv⟩ := List.getElem?_eq_some_iff.mp (h (i,c) List.mem_cons_self)
        rw [List.map_set,hz,← hv,List.set_getElem_self]
      rw [layoutChildren,ih _ _ fun p hp => by
        rw [hset]
        exact h p (List.mem_cons_of_mem _ hp)]
      exact hset

theorem layoutNode_container_zIndex (isPixel : Bool) (node : Node) (cs : List RenderTree)
    {frame : Rect} (hpos : ¬(frame.w ≤ 0 ∨ frame.h ≤ 0)) :
    (layoutNode isPixel (.mk node (.container cs)) frame).children.map (·.node.zIndex) =
      cs.map (·.node.zIndex) := by
  rw [layoutNode_eq,layoutBody,if_neg hpos]
  refine layoutChildren_zIndex _ _ _ fun p hp => ?_
  rw [List.getElem?_map,mem_places ((sortedChildren_perm cs).mem_iff.mp hp)]
  rfl

/-- The laid out children in z-order are the results of the calls in their order. -/
theorem layoutNode_container_sorted {node : Node} {cs : List RenderTree} {frame : Rect}
    (hpos : ¬(frame.w ≤ 0 ∨ frame.h ≤ 0)) (hz : ZIndicesComparable cs) :
    byZIndex (layoutNode isPixel (.mk node (.container cs)) frame).children =
      (containerCalls isPixel node cs frame).map fun p => p.2.result isPixel := by
  have hfst := containerCalls_fst isPixel node cs frame
  have hsorted : (containerCalls isPixel node cs frame).map Prod.fst =
      (sortedChildren cs).map Prod.fst := childCalls_fst _ _ _ _ _
  have hzs := layoutNode_container_zIndex isPixel node cs hpos
  rw [layoutNode_container isPixel node cs hpos] at hzs ⊢
  set writes := (containerCalls isPixel node cs frame).map fun p => (p.1,p.2.result isPixel)
    with hwrites
  have hwfst : writes.map Prod.fst = (containerCalls isPixel node cs frame).map Prod.fst := by
    rw [hwrites,List.map_map]
    rfl
  have hread := foldl_set_read (hwfst ▸ hfst)
  generalize writes.foldl (fun out p => out.set p.1 p.2) cs = out at hzs hread ⊢
  have hlen : out.length = cs.length := by simpa using congrArg List.length hzs
  -- Each place of the array with the child that ends up there.
  let get : ℕ × RenderTree → RenderTree := fun p => (out[p.1]?).getD p.2
  have hout : (cs.mapIdx Prod.mk).map get = out :=
    List.ext_getElem (by simp [hlen]) fun i h1 h2 => by simp [get,h2]
  have hget : ∀ p ∈ cs.mapIdx Prod.mk, (get p).node.zIndex = p.2.node.zIndex ∧
      out[p.1]? = some (get p) := by
    intro p hp
    have hc := mem_places hp
    have hzp := congrArg (·[p.1]?) hzs
    simp only [List.getElem?_map,hc,Option.map_some] at hzp
    obtain ⟨d,hd,hdz⟩ := Option.map_eq_some_iff.mp hzp
    simp [get,hd,hdz]
  have hsort : (sortedChildren cs).map get = byZIndex out := by
    rw [sortedChildren,byZIndex,
      List.map_insertionSort _ (fun a b : RenderTree => a.node.zIndex.toInt ≤ b.node.zIndex.toInt),
      hout]
    intro a ha b hb
    rw [(hget a ha).1,(hget b hb).1]
    exact cmpZIndex_le (hz _ (List.mem_of_getElem? (mem_places ha)) _
      (List.mem_of_getElem? (mem_places hb)))
  have hsome : ((sortedChildren cs).map get).map some = (writes.map Prod.snd).map some := by
    rw [← hread,hwfst,hsorted,List.map_map,List.map_map]
    exact List.map_congr_left fun p hp =>
      (hget p ((sortedChildren_perm cs).mem_iff.mp hp)).2.symm
  rw [← hsort,List.map_injective_iff.mpr (Option.some_injective _) hsome,hwrites,List.map_map]
  rfl

/-- After `layout_tree` the flowing children of any container with a positive
content size are stacked in z-order exactly when they settle. -/
theorem layoutTree_stacks_iff (isPixel : Bool) (tree : RenderTree) {w h : ℤ} (hw : 0 < w)
    (hh : 0 < h) {node : Node} {cs : List RenderTree} {frame content : Rect}
    (hcall : Calls isPixel (surfaceCall tree w h) (.mk node (.container cs),frame))
    (hframe : 0 < frame.w ∧ 0 < frame.h)
    (hcontent : contentFrame (placeNode node frame) frame = content)
    (hsize : 0 < content.w ∧ 0 < content.h) (hflow : ∀ c ∈ cs, c.flows = true)
    (hz : ZIndicesComparable cs) :
    Below (layoutTree tree w h isPixel) (layoutNode isPixel (.mk node (.container cs)) frame) ∧
      (FlowStacked content.y (layoutNode isPixel (.mk node (.container cs)) frame).children ↔
        Settles isPixel content content.y (byZIndex cs)) := by
  have hpos : ¬(frame.w ≤ 0 ∨ frame.h ≤ 0) := by omega
  constructor
  · rw [layoutTree_eq hw hh]
    exact hcall.below
  · have hresults : (containerCalls isPixel node cs frame).map (fun p => p.2.result isPixel) =
        flowResults isPixel content content.y (byZIndex cs) := by
      rw [containerCalls,childCalls_results _ fun p hp => hflow _ (mem_of_mem_sortedChildren hp),
        sortedChildren_snd hz,hcontent]
    rw [FlowStacked,layoutNode_container_sorted hpos hz,hresults,
      flowResults_stacked_iff hsize.1]
    refine and_iff_left_of_imp fun hs => ?_
    have hst := ((flowResults_stacked_iff hsize.1 _ _).mpr hs).pairwise
    have hperm := (layoutNode_container_perm isPixel node cs hpos).map RenderTree.rect
    rw [hresults] at hperm
    exact (hperm.pairwise_iff fun hab py h => hab py h.symm).mpr hst

/-- Two rows of text in a container, with the given overflow. -/
def twoRows (overflow : Overflow) : List RenderTree :=
  [.mk { overflow } (.text (some [97])),.mk { overflow, zIndex := 1 } (.text (some [98]))]

/-- Rows that clip are stacked. -/
theorem layoutTree_stacks_clipped_rows :
    ∃ out, Below (layoutTree (.mk {} (.container (twoRows .clip))) 10 5 false) out ∧
      FlowStacked 0 out.children := by
  have hcomparable : ZIndicesComparable (twoRows .clip) := by
    unfold ZIndicesComparable
    decide +kernel
  obtain ⟨hbelow,hiff⟩ := layoutTree_stacks_iff false (.mk {} (.container (twoRows .clip)))
    (w := 10) (h := 5) (by decide) (by decide) .refl (by decide) rfl (by decide) (by decide)
    hcomparable
  refine ⟨_,hbelow,hiff.mpr ?_⟩
  decide +kernel

/-- Rows that do not clip end up on top of each other. -/
theorem visible_rows_overlap :
    (∀ c ∈ twoRows .visible, c.flows = true) ∧
      (layoutTree (.mk {} (.container (twoRows .visible))) 10 5 false).children.map
        RenderTree.rect = [⟨0,0,10,1⟩,⟨0,0,10,1⟩] ∧
      ¬FlowStacked 0
        (layoutTree (.mk {} (.container (twoRows .visible))) 10 5 false).children := by
  have hrects : (layoutTree (.mk {} (.container (twoRows .visible))) 10 5 false).children.map
      RenderTree.rect = [⟨0,0,10,1⟩,⟨0,0,10,1⟩] := by decide +kernel
  refine ⟨by decide,hrects,fun h => ?_⟩
  have hapart := h.2
  rw [hrects] at hapart
  exact (List.rel_of_pairwise_cons hapart (List.mem_singleton.mpr rfl)) 0 (by decide)

end Filly.Layout

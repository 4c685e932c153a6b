import Filly.TerminalRenderer

/-!
# The graphical renderer

`render_node` of the graphical backend as the list of its drawing operations. It looks at
`masked` only before it draws a cursor: the text of a masked input is drawn as it is.
-/
namespace Filly.Rendering
open CJson Rectangles

inductive DrawOp (γ : Type) where
  | shadow (r : Rect) (layer : ShadowLayer)
  | gradient (r : Rect) (grad : γ)
  | roundedRect (r : Rect) (radius : ℤ) (color : UInt32)
  | rect (r : Rect) (color : UInt32)
  | rectAlpha (r : Rect) (color : UInt32)
  | dashedLine (x y length : ℤ) (horizontal : Bool) (color : UInt32)
  | text (x y : ℤ) (text : Bytes) (size : ℤ) (color : UInt32)
  | vector (r : Rect) (path : Bytes)
  | plot (r : Rect) (ws : WidgetStyle γ)
  deriving DecidableEq, Repr

def gcoreRgba (r g b a : UInt8) : UInt32 :=
  (a.toUInt32 <<< 24) ||| (r.toUInt32 <<< 16) ||| (g.toUInt32 <<< 8) ||| b.toUInt32

def white : UInt32 := 0xFFFFFFFF

variable {κ γ τ : Type}

/-- One side of a border: a rectangle, a dashed line or nothing. -/
def drawBorderSide (side : BorderSide) (r : Rect) (horizontal : Bool) : List (DrawOp γ) :=
  if 0 < side.width then
    match side.style with
    | .solid => [.rect r side.color]
    | .dashed =>
        [.dashedLine r.x r.y (if horizontal then r.w else r.h) horizontal side.color]
    | .none | .single | .double | .rounded | .dotted => []
  else []

def drawBorderPerSide (r : Rect) (ws : WidgetStyle γ) : List (DrawOp γ) :=
  drawBorderSide ws.borderTop ⟨r.x,r.y,r.w,ws.borderTop.width⟩ true++
    drawBorderSide ws.borderBottom
      ⟨r.x,r.y+r.h-ws.borderBottom.width,r.w,ws.borderBottom.width⟩ true++
    drawBorderSide ws.borderLeft ⟨r.x,r.y,ws.borderLeft.width,r.h⟩ false++
    drawBorderSide ws.borderRight
      ⟨r.x+r.w-ws.borderRight.width,r.y,ws.borderRight.width,r.h⟩ false

/-- What lies under the contents of a node. -/
def drawGround (r : Rect) (ws : WidgetStyle γ) : List (DrawOp γ) :=
  ws.shadows.map (.shadow r)++
    (match ws.gradient with
    | some grad => [.gradient r grad]
    | none => [.roundedRect r ws.borderRadius ws.bgColor])++
    (match ws.veil with
    | some alpha => [.rectAlpha r (gcoreRgba 255 255 255 alpha)]
    | none => [])++
    drawBorderPerSide r ws

/-- `content_x`, `content_y`, `content_w` and `content_h`. -/
def contentRect (r : Rect) (ws : WidgetStyle γ) (pad : EdgeInsets) : Rect :=
  ⟨r.x+ws.margin.left+pad.left+ws.borderWidth,r.y+ws.margin.top+pad.top+ws.borderWidth,
    r.w-ws.margin.right-ws.margin.left-pad.left-pad.right-ws.borderWidth*2,
    r.h-ws.margin.bottom-ws.margin.top-pad.top-pad.bottom-ws.borderWidth*2⟩

def Content.padding {α : Type} : Content κ α → EdgeInsets
  | .container _ padding _ => padding
  | _ => {}

/-- The height of a line with its padding. -/
def lineHeight (ws : WidgetStyle γ) : ℤ := ws.fontSize+ws.padding.top+ws.padding.bottom

def drawInputField (c : Rect) (ws : WidgetStyle γ) (text placeholder : Option Bytes)
    (cursor : ℤ) (masked : Bool) : List (DrawOp γ) :=
  let inputH := lineHeight ws
  [.roundedRect ⟨c.x,c.y,c.w,inputH⟩ ws.borderRadius ws.bgColor,
    .rect ⟨c.x,c.y,c.w,1⟩ ws.borderColor,
    .rect ⟨c.x,c.y+inputH-1,c.w,1⟩ ws.borderColor,
    .rect ⟨c.x,c.y,1,inputH⟩ ws.borderColor,
    .rect ⟨c.x+c.w-1,c.y,1,inputH⟩ ws.borderColor,
    .text (c.x+ws.padding.left) (c.y+ws.padding.top) (shownText text placeholder) ws.fontSize
      ws.fgColor]++
    if text.isSome && !masked && 0 ≤ cursor then
      [.rect ⟨c.x+ws.padding.left+cursor*ws.fontSize.tdiv 2,c.y+ws.padding.top,2,ws.fontSize⟩
        ws.fgColor]
    else []

/-- The labels of a tab bar from number `i` on. -/
def drawLabels (c : Rect) (ws : WidgetStyle γ) (active : ℤ) :
    ℤ → ℤ → List Bytes → List (DrawOp γ)
  | _, _, [] => []
  | i, lx, label::labels =>
      let tw := label.length*ws.fontSize.tdiv 2+ws.padding.right+ws.padding.left
      let x := lx+ws.padding.left
      let y := c.y+ws.padding.top
      (if i = active then
        [.roundedRect ⟨lx,c.y,tw,lineHeight ws⟩ ws.borderRadius ws.accentColor,
          .text x y label ws.fontSize white]
      else [.text x y label ws.fontSize ws.fgColor])++
        drawLabels c ws active (i+1) (lx+tw+4) labels

/-- What the backend knows of the pointer, and how it draws the contents of other kinds
within the outer rectangle and that of the contents. -/
structure Pixels (κ γ τ : Type) where
  width : ℤ
  tooltipTargetId : Option Bytes
  tooltipHoverX : ℤ
  tooltipHoverY : ℤ
  drawOther : κ → Node γ τ → Rect → Rect → List (DrawOp γ)

variable (pb : Pixels κ γ τ)

def drawTooltip (node : Node γ τ) : List (DrawOp γ) :=
  let ws := node.resolvedStyle
  match node.tooltip, pb.tooltipTargetId with
  | some tooltip, some target =>
      if tooltip ≠ [] ∧ node.styleClass = some target then
        let tw := tooltip.length*ws.fontSize.tdiv 2+12
        let th := ws.fontSize+8
        let x := pb.tooltipHoverX+12
        let y := pb.tooltipHoverY-th-4
        let tx := if x+tw > pb.width then pb.width-tw-4 else x
        let ty := if y < 0 then pb.tooltipHoverY+16 else y
        [.roundedRect ⟨tx,ty,tw,th⟩ 4 (gcoreRgba 40 40 40 240),
          .text (tx+6) (ty+4) tooltip (ws.fontSize-2) white]
      else []
  | _, _ => []

/-- A dirty rectangle with an area has nothing in common with the other one. -/
def outside (r dirtyRect : Rect) : Bool :=
  (0 < dirtyRect.w && 0 < dirtyRect.h) &&
    (r.x+r.w ≤ dirtyRect.x || dirtyRect.x+dirtyRect.w ≤ r.x || r.y+r.h ≤ dirtyRect.y ||
      dirtyRect.y+dirtyRect.h ≤ r.y)

mutual
def renderPixels (t : RenderTree κ γ τ) (offX offY : ℤ) (parentDirty : Bool) (dirtyRect : Rect) :
    List (DrawOp γ) :=
  match t with
  | .mk node u =>
      let r : Rect := ⟨offX+node.rect.x,offY+node.rect.y,node.rect.w,node.rect.h⟩
      let c := contentRect r node.resolvedStyle u.padding
      if r.w ≤ 0 ∨ r.h ≤ 0 then []
      else if !node.dirty && !parentDirty then []
      else if outside r dirtyRect then []
      else
        drawGround r node.resolvedStyle++
          if c.w ≤ 0 then []
          else pixelsBelow u node r c (node.dirty || parentDirty) dirtyRect++drawTooltip pb node

def pixelsBelow (u : Content κ (RenderTree κ γ τ)) (node : Node γ τ) (r c : Rect) (dirty : Bool)
    (dirtyRect : Rect) : List (DrawOp γ) :=
  let ws := node.resolvedStyle
  match u with
  | .container _ _ children => pixelsChildren children c.x c.y dirty dirtyRect
  | .flex children => pixelsChildren children c.x c.y dirty dirtyRect
  | .grid children => pixelsChildren children c.x c.y dirty dirtyRect
  | .input text placeholder cursor masked => drawInputField c ws text placeholder cursor masked
  | .tabs labels active child =>
      drawLabels c ws active 0 c.x labels++
        if lineHeight ws < c.h then pixelsPane child c.x (c.y+lineHeight ws) dirty dirtyRect else []
  | .splitPanes .horizontal position first second _ =>
      let sp := splitAt .horizontal position c.w c.h
      pixelsPane first c.x c.y dirty dirtyRect++[.rect ⟨c.x+sp,c.y,1,c.h⟩ ws.borderColor]++
        pixelsPane second (c.x+sp+1) c.y dirty dirtyRect
  | .splitPanes .vertical position first second _ =>
      let sp := splitAt .vertical position c.w c.h
      pixelsPane first c.x c.y dirty dirtyRect++[.rect ⟨c.x,c.y+sp,c.w,1⟩ ws.borderColor]++
        pixelsPane second c.x (c.y+sp+1) dirty dirtyRect
  | .other contents => pb.drawOther contents node r c

def pixelsChildren (cs : List (RenderTree κ γ τ)) (offX offY : ℤ) (dirty : Bool)
    (dirtyRect : Rect) : List (DrawOp γ) :=
  match cs with
  | [] => []
  | c::cs => renderPixels c offX offY dirty dirtyRect++pixelsChildren cs offX offY dirty dirtyRect

def pixelsPane (c : Option (RenderTree κ γ τ)) (offX offY : ℤ) (dirty : Bool) (dirtyRect : Rect) :
    List (DrawOp γ) :=
  match c with
  | none => []
  | some c => renderPixels c offX offY dirty dirtyRect
end

/-- The operations of `gcore_render_tree_to_pixels`. -/
def gcoreRenderTreeToPixels (t : RenderTree κ γ τ) : List (DrawOp γ) :=
  renderPixels pb t 0 0 true ⟨0,0,0,0⟩

/-! ## The masked texts in view -/

mutual
/-- The texts of the masked inputs that have some room in a part that is drawn. -/
def maskedInView (t : RenderTree κ γ τ) (offX offY : ℤ) (parentDirty : Bool) (dirtyRect : Rect) :
    List Bytes :=
  match t with
  | .mk node u =>
      let r : Rect := ⟨offX+node.rect.x,offY+node.rect.y,node.rect.w,node.rect.h⟩
      let c := contentRect r node.resolvedStyle u.padding
      if r.w ≤ 0 ∨ r.h ≤ 0 then []
      else if !node.dirty && !parentDirty then []
      else if outside r dirtyRect then []
      else if c.w ≤ 0 then []
      else maskedBelow u node c (node.dirty || parentDirty) dirtyRect

def maskedBelow (u : Content κ (RenderTree κ γ τ)) (node : Node γ τ) (c : Rect) (dirty : Bool)
    (dirtyRect : Rect) : List Bytes :=
  let ws := node.resolvedStyle
  match u with
  | .container _ _ children => maskedChildren children c.x c.y dirty dirtyRect
  | .flex children => maskedChildren children c.x c.y dirty dirtyRect
  | .grid children => maskedChildren children c.x c.y dirty dirtyRect
  | .input text _ _ masked => if masked then [text.getD []] else []
  | .tabs _ _ child =>
      if lineHeight ws < c.h then maskedPane child c.x (c.y+lineHeight ws) dirty dirtyRect else []
  | .splitPanes .horizontal position first second _ =>
      maskedPane first c.x c.y dirty dirtyRect++
        maskedPane second (c.x+splitAt .horizontal position c.w c.h+1) c.y dirty dirtyRect
  | .splitPanes .vertical position first second _ =>
      maskedPane first c.x c.y dirty dirtyRect++
        maskedPane second c.x (c.y+splitAt .vertical position c.w c.h+1) dirty dirtyRect
  | .other _ => []

def maskedChildren (cs : List (RenderTree κ γ τ)) (offX offY : ℤ) (dirty : Bool)
    (dirtyRect : Rect) : List Bytes :=
  match cs with
  | [] => []
  | c::cs => maskedInView c offX offY dirty dirtyRect++maskedChildren cs offX offY dirty dirtyRect

def maskedPane (c : Option (RenderTree κ γ τ)) (offX offY : ℤ) (dirty : Bool) (dirtyRect : Rect) :
    List Bytes :=
  match c with
  | none => []
  | some c => maskedInView c offX offY dirty dirtyRect
end

/-! ## Two drawings -/

/-- Two drawings are as long as each other, and they are the same just when the texts are. -/
structure Matched (A A' : List (DrawOp γ)) (T T' : List Bytes) : Prop where
  ops : A.length = A'.length
  texts : T.length = T'.length
  iff : A = A' ↔ T = T'

theorem Matched.same (A : List (DrawOp γ)) : Matched A A [] [] :=
  ⟨rfl,rfl,iff_of_true rfl rfl⟩

theorem Matched.after {A A' : List (DrawOp γ)} {T T' : List Bytes} (h : Matched A A' T T')
    (B : List (DrawOp γ)) : Matched (B++A) (B++A') T T' :=
  ⟨by simp [h.ops],h.texts,by simp [h.iff]⟩

theorem Matched.before {A A' : List (DrawOp γ)} {T T' : List Bytes} (h : Matched A A' T T')
    (B : List (DrawOp γ)) : Matched (A++B) (A'++B) T T' :=
  ⟨by simp [h.ops],h.texts,by simp [h.iff]⟩

theorem Matched.append {A A' B B' : List (DrawOp γ)} {T T' U U' : List Bytes}
    (h : Matched A A' T T') (k : Matched B B' U U') :
    Matched (A++B) (A'++B') (T++U) (T'++U') := by
  refine ⟨?_,?_,?_⟩
  · rw [List.length_append,List.length_append,h.ops,k.ops]
  · rw [List.length_append,List.length_append,h.texts,k.texts]
  · constructor
    · intro hops
      obtain ⟨hA,hB⟩ := List.append_inj hops h.ops
      rw [h.iff.1 hA,k.iff.1 hB]
    · intro htexts
      obtain ⟨hT,hU⟩ := List.append_inj htexts h.texts
      rw [h.iff.2 hT,k.iff.2 hU]

theorem padding_hideBelow (u : Content κ (RenderTree κ γ τ)) : (hideBelow u).padding = u.padding := by
  cases u <;> rfl

theorem shownText_eq_iff {text text' placeholder : Option Bytes}
    (h : (text.getD []).length = (text'.getD []).length) :
    shownText text placeholder = shownText text' placeholder ↔ text.getD [] = text'.getD [] := by
  unfold shownText
  by_cases hempty : text.getD [] = []
  · have hempty' : text'.getD [] = [] := by
      rw [hempty] at h
      exact List.length_eq_zero_iff.1 h.symm
    rw [if_neg (not_not_intro hempty),if_neg (not_not_intro hempty'),hempty,hempty']
    exact iff_of_true rfl rfl
  · have hempty' : text'.getD [] ≠ [] := fun hnil => by
      rw [hnil] at h
      exact hempty (List.length_eq_zero_iff.1 h)
    rw [if_pos hempty,if_pos hempty']

theorem drawInputField_matched (c : Rect) (ws : WidgetStyle γ) {text text' : Option Bytes}
    (placeholder : Option Bytes) (cursor : ℤ)
    (h : (text.getD []).length = (text'.getD []).length) :
    Matched (drawInputField c ws text placeholder cursor true)
      (drawInputField c ws text' placeholder cursor true) [text.getD []] [text'.getD []] := by
  refine ⟨by simp [drawInputField],rfl,?_⟩
  simp [drawInputField,shownText_eq_iff h]

mutual
theorem renderPixels_matched {t t' : RenderTree κ γ τ} (h : hide t = hide t') (offX offY : ℤ)
    (parentDirty : Bool) (dirtyRect : Rect) :
    Matched (renderPixels pb t offX offY parentDirty dirtyRect)
      (renderPixels pb t' offX offY parentDirty dirtyRect)
      (maskedInView t offX offY parentDirty dirtyRect)
      (maskedInView t' offX offY parentDirty dirtyRect) := by
  obtain ⟨node,u⟩ := t
  obtain ⟨node',u'⟩ := t'
  obtain ⟨rfl,hu⟩ := RenderTree.mk.inj h
  have hpadding : u.padding = u'.padding := by
    rw [← padding_hideBelow u,hu,padding_hideBelow]
  simp only [renderPixels,maskedInView,hpadding]
  split_ifs
  · exact Matched.same []
  · exact Matched.same []
  · exact Matched.same []
  · exact Matched.same _
  · exact ((pixelsBelow_matched hu node _ _ _ dirtyRect).before _).after _
termination_by structural t

theorem pixelsBelow_matched {u u' : Content κ (RenderTree κ γ τ)} (h : hideBelow u = hideBelow u')
    (node : Node γ τ) (r c : Rect) (dirty : Bool) (dirtyRect : Rect) :
    Matched (pixelsBelow pb u node r c dirty dirtyRect) (pixelsBelow pb u' node r c dirty dirtyRect)
      (maskedBelow u node c dirty dirtyRect) (maskedBelow u' node c dirty dirtyRect) := by
  cases u with
  | container border padding children =>
      cases u' <;> try cases h
      case container border' padding' children' =>
      obtain ⟨-,-,hchildren⟩ := Content.container.inj h
      exact pixelsChildren_matched hchildren _ _ dirty dirtyRect
  | flex children =>
      cases u' <;> try cases h
      case flex children' =>
      exact pixelsChildren_matched (Content.flex.inj h) _ _ dirty dirtyRect
  | grid children =>
      cases u' <;> try cases h
      case grid children' =>
      exact pixelsChildren_matched (Content.grid.inj h) _ _ dirty dirtyRect
  | input text placeholder cursor masked =>
      cases u' <;> try cases h
      case input text' placeholder' cursor' masked' =>
      obtain ⟨htext,rfl,rfl,rfl⟩ := Content.input.inj h
      cases masked with
      | false =>
          simp only [Bool.false_eq_true,if_false] at htext
          rw [htext]
          exact Matched.same _
      | true =>
          simp only [if_true,Option.some.injEq,List.replicate_inj,and_true,or_true] at htext
          exact drawInputField_matched c _ placeholder cursor htext
  | tabs labels active child =>
      cases u' <;> try cases h
      case tabs labels' active' child' =>
      obtain ⟨rfl,rfl,hchild⟩ := Content.tabs.inj h
      simp only [pixelsBelow,maskedBelow]
      split_ifs
      · exact (pixelsPane_matched hchild _ _ dirty dirtyRect).after _
      · exact Matched.same _
  | splitPanes orientation position first second third =>
      cases u' <;> try cases h
      case splitPanes orientation' position' first' second' third' =>
      obtain ⟨rfl,rfl,hfirst,hsecond,-⟩ := Content.splitPanes.inj h
      cases orientation with
      | horizontal =>
          exact ((pixelsPane_matched hfirst _ _ dirty dirtyRect).before _).append
            (pixelsPane_matched hsecond _ _ dirty dirtyRect)
      | vertical =>
          exact ((pixelsPane_matched hfirst _ _ dirty dirtyRect).before _).append
            (pixelsPane_matched hsecond _ _ dirty dirtyRect)
  | other contents =>
      cases u' <;> try cases h
      exact Matched.same _
termination_by structural u

theorem pixelsChildren_matched {cs cs' : List (RenderTree κ γ τ)} (h : hideList cs = hideList cs')
    (offX offY : ℤ) (dirty : Bool) (dirtyRect : Rect) :
    Matched (pixelsChildren pb cs offX offY dirty dirtyRect)
      (pixelsChildren pb cs' offX offY dirty dirtyRect)
      (maskedChildren cs offX offY dirty dirtyRect)
      (maskedChildren cs' offX offY dirty dirtyRect) := by
  cases cs with
  | nil =>
      cases cs' with
      | nil => exact Matched.same []
      | cons c' cs' => cases h
  | cons c cs =>
      cases cs' with
      | nil => cases h
      | cons c' cs' =>
          obtain ⟨hc,hcs⟩ := List.cons.inj h
          exact (renderPixels_matched hc offX offY dirty dirtyRect).append
            (pixelsChildren_matched hcs offX offY dirty dirtyRect)
termination_by structural cs

theorem pixelsPane_matched {c c' : Option (RenderTree κ γ τ)} (h : hideOption c = hideOption c')
    (offX offY : ℤ) (dirty : Bool) (dirtyRect : Rect) :
    Matched (pixelsPane pb c offX offY dirty dirtyRect) (pixelsPane pb c' offX offY dirty dirtyRect)
      (maskedPane c offX offY dirty dirtyRect) (maskedPane c' offX offY dirty dirtyRect) := by
  cases c with
  | none =>
      cases c' with
      | none => exact Matched.same []
      | some c' => cases h
  | some c =>
      cases c' with
      | none => cases h
      | some c' =>
          exact renderPixels_matched (Option.some.inj h) offX offY dirty dirtyRect
termination_by structural c
end

/-- Trees that differ in masked texts only look the same in the terminal. They are drawn the
same just when the masked texts in view are the same. -/
theorem same_output_iff (term : Terminal κ γ τ) {t t' : RenderTree κ γ τ}
    (h : SameButMasked t t') :
    ((∀ offX offY maxW maxH bufSz, renderTreeToBuf term t offX offY maxW maxH bufSz =
        renderTreeToBuf term t' offX offY maxW maxH bufSz) ∧
      gcoreRenderTreeToPixels pb t = gcoreRenderTreeToPixels pb t') ↔
      maskedInView t 0 0 true ⟨0,0,0,0⟩ = maskedInView t' 0 0 true ⟨0,0,0,0⟩ := by
  have hbuf : ∀ offX offY maxW maxH bufSz, renderTreeToBuf term t offX offY maxW maxH bufSz =
      renderTreeToBuf term t' offX offY maxW maxH bufSz := by
    intro offX offY maxW maxH bufSz
    rw [← renderTreeToBuf_hide,h,renderTreeToBuf_hide]
  rw [and_iff_right hbuf]
  exact (renderPixels_matched pb h 0 0 true ⟨0,0,0,0⟩).iff

/-! ## A password -/

/-- A dialog with an input in it, in the default style. -/
def passwordPicture (text : String) : RenderTree Unit Unit Unit :=
  let ws : WidgetStyle Unit :=
    { fgColor := 0xFFD0D0D0, bgColor := 0xFF1A1A2E, borderWidth := 1, borderRadius := 4,
      padding := ⟨8,12,8,12⟩, fontSize := 14 }
  .mk ⟨⟨10,7,60,10⟩,true,ws,none,none,()⟩ (.container .single {} [
    .mk ⟨⟨1,2,58,1⟩,false,ws,some (bytes "input"),none,()⟩
      (.input (some (bytes text)) none 0 true)])

def plainTerminal : Terminal Unit Unit Unit :=
  ⟨fun _ => false,fun _ => 0,fun _ => 0,fun _ => false,fun _ _ _ => []⟩

def plainPixels : Pixels Unit Unit Unit := ⟨640,none,0,0,fun _ _ _ _ => []⟩

theorem sameButMasked_passwordPicture {s t : String} (h : (bytes s).length = (bytes t).length) :
    SameButMasked (passwordPicture s) (passwordPicture t) := by
  unfold SameButMasked passwordPicture
  simp only [hide,hideBelow,hideList,if_true,Option.getD_some,h]

theorem same_output_iff_password :
    ((∀ offX offY maxW maxH bufSz,
        renderTreeToBuf plainTerminal (passwordPicture "secret") offX offY maxW maxH bufSz =
          renderTreeToBuf plainTerminal (passwordPicture "public") offX offY maxW maxH bufSz) ∧
      gcoreRenderTreeToPixels plainPixels (passwordPicture "secret") =
        gcoreRenderTreeToPixels plainPixels (passwordPicture "public")) ↔
      maskedInView (passwordPicture "secret") 0 0 true ⟨0,0,0,0⟩ =
        maskedInView (passwordPicture "public") 0 0 true ⟨0,0,0,0⟩ :=
  same_output_iff plainPixels plainTerminal (sameButMasked_passwordPicture (by decide))

/-- A password is drawn in the open. -/
theorem password_is_drawn :
    SameButMasked (passwordPicture "secret") (passwordPicture "public") ∧
      gcoreRenderTreeToPixels plainPixels (passwordPicture "secret") ≠
        gcoreRenderTreeToPixels plainPixels (passwordPicture "public") := by
  refine ⟨sameButMasked_passwordPicture (by decide),?_⟩
  decide +kernel

end Filly.Rendering

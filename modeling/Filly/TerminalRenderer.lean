import Filly.Rendering

/-!
# The terminal renderer

Everything that `render_tree_to_buf` writes goes through `buf_printf`, which appends to
the buffer and cuts what does not fit, so the buffer is a beginning of all the text that
is written. The dirty flags that `render_node` clears are not read again.
-/
namespace Filly.Rendering
open CJson Rectangles

def utf8 (s : String) : Bytes := s.toUTF8.toList

/-- `"\033[%d;%dH"`: the cursor goes to the cell `(x,y)`, both from 0. -/
def moveTo (x y : ℤ) : Bytes := 27::91::(formatInt (y+1)++59::(formatInt (x+1)++[72]))

/-- `"%d;%d;%d"` with the parts of a colour. -/
def colorText (color : UInt32) : Bytes :=
  let part (n : UInt32) := formatInt (((color >>> n) &&& 255).toNat : ℤ)
  part 16++59::(part 8++59::part 0)

def resetStyle : Bytes := 27::utf8 "[0m"

variable {κ γ τ : Type}

def setStyle (ws : WidgetStyle γ) : Bytes :=
  if ws.fgColor = 0 then resetStyle
  else
    27::utf8 "[0"++(if 700 ≤ ws.fontWeight then utf8 ";1" else [])++
      (if ws.fontItalic then utf8 ";3" else [])++utf8 ";38;2;"++colorText ws.fgColor++
      (if ws.bgColor ≠ 0 then utf8 ";48;2;"++colorText ws.bgColor else [])++utf8 "m"

/-- What a loop with `n` rounds writes. -/
def rounds (n : ℤ) (f : ℕ → Bytes) : Bytes := (List.range n.toNat).flatMap f

/-- The corners and lines of a box. -/
def boxParts : BorderStyle → Option (String × String × String × String × String × String)
  | .single => some ("┌","┐","└","┘","─","│")
  | .double => some ("╔","╗","╚","╝","═","║")
  | .rounded => some ("╭","╮","╰","╯","─","│")
  | .dashed => some ("┌","┐","└","┘","╌","╎")
  | .dotted => some ("┌","┐","└","┘","┈","┊")
  | .none | .solid => none

def drawBox (x y w h : ℤ) (border : BorderStyle) (ws : WidgetStyle γ) : Bytes :=
  if w < 2 ∨ h < 2 then []
  else
    match boxParts border with
    | none => []
    | some (tl,tr,bl,br,hLine,vLine) =>
        setStyle ws++moveTo x y++utf8 tl++rounds (w-2) (fun _ => utf8 hLine)++utf8 tr++
          rounds (h-2) (fun i => moveTo x (y+i+1)++utf8 vLine++moveTo (x+w-1) (y+i+1)++
            utf8 vLine)++
          moveTo x (y+h-1)++utf8 bl++rounds (w-2) (fun _ => utf8 hLine)++utf8 br++resetStyle

def fillRect (x y w h : ℤ) : Bytes :=
  resetStyle++rounds h fun i => moveTo x (y+i)++rounds w fun _ => [32]

/-- `"%.*s"`: a negative precision is none. -/
def precision (n : ℤ) (text : Bytes) : Bytes := if n < 0 then text else text.take n.toNat

def drawInput (x y w : ℤ) (text placeholder : Option Bytes) (masked : Bool)
    (ws : WidgetStyle γ) : Bytes :=
  let len := (text.getD []).length
  setStyle ws++moveTo x y++rounds w (fun _ => [32])++moveTo x y++
    (if masked then
      rounds (min len (w-2)) (fun _ => [42])++(if len = 0 then placeholder.getD [] else [])
    else utf8 "> "++precision (w-4) (shownText text placeholder))++resetStyle

/-- The labels of a tab bar from number `i` on, the first `lw` cells behind the left edge. -/
def drawTabLabels (x y active : ℤ) (ws : WidgetStyle γ) : ℤ → ℤ → List Bytes → Bytes
  | _, _, [] => []
  | i, lw, label::labels =>
      moveTo (x+lw) y++setStyle ws++
        (if i = active then utf8 "[ "++label++utf8 " ]" else utf8 "  "++label++utf8 "  ")++
        resetStyle++drawTabLabels x y active ws (i+1) (lw+label.length+4) labels

/-- What the animations of a node come to at the time of a frame, and how the contents of
the other kinds are drawn in their cells. -/
structure Terminal (κ γ τ : Type) where
  hasTuiAnimation : τ → Bool
  slideOffsetX : τ → ℤ
  slideOffsetY : τ → ℤ
  /-- The fade amount is below 0.05. -/
  fadedOut : τ → Bool
  drawOther : κ → Node γ τ → Rect → Bytes

variable (term : Terminal κ γ τ)

mutual
def renderNode (t : RenderTree κ γ τ) (offX offY maxW maxH : ℤ) (parentDirty : Bool) : Bytes :=
  match t with
  | .mk node u =>
      if node.rect.w ≤ 0 ∨ node.rect.h ≤ 0 then []
      else if !node.dirty && !parentDirty && !term.hasTuiAnimation node.activeAnimations then []
      else
        let x := offX+node.rect.x+term.slideOffsetX node.activeAnimations
        let y := offY+node.rect.y+term.slideOffsetY node.activeAnimations
        let w := min node.rect.w (maxW-node.rect.x)
        let h := min node.rect.h (maxH-node.rect.y)
        if w ≤ 0 ∨ h ≤ 0 then []
        else if term.fadedOut node.activeAnimations then []
        else renderBelow u node ⟨x,y,w,h⟩ (node.dirty || parentDirty)

def renderBelow (u : Content κ (RenderTree κ γ τ)) (node : Node γ τ) (r : Rect) (dirty : Bool) :
    Bytes :=
  let ws := node.resolvedStyle
  match u with
  | .container border padding children =>
      (if border ≠ .none then
        drawBox r.x r.y r.w r.h border ws++fillRect (r.x+1) (r.y+1) (r.w-2) (r.h-2)
      else [])++
        renderChildren children (r.x+padding.left) (r.y+padding.top)
          (r.w-padding.left-padding.right) (r.h-padding.top-padding.bottom) dirty
  | .flex children => renderChildren children r.x r.y r.w r.h dirty
  | .grid children => renderChildren children r.x r.y r.w r.h dirty
  | .input text placeholder _ masked => drawInput r.x r.y r.w text placeholder masked ws
  | .tabs labels active child =>
      drawTabLabels r.x r.y active ws 0 0 labels++
        if r.h > 1 then renderPane child r.x (r.y+1) r.w (r.h-1) dirty else []
  | .splitPanes .horizontal position first second _ =>
      let sp := splitAt .horizontal position r.w r.h
      renderPane first r.x r.y sp r.h dirty++
        rounds r.h (fun i => moveTo (r.x+sp) (r.y+i)++utf8 "│")++
        renderPane second (r.x+sp+1) r.y (r.w-sp-1) r.h dirty
  | .splitPanes .vertical position first second _ =>
      let sp := splitAt .vertical position r.w r.h
      renderPane first r.x r.y r.w sp dirty++moveTo r.x (r.y+sp)++rounds r.w (fun _ => utf8 "─")++
        renderPane second r.x (r.y+sp+1) r.w (r.h-sp-1) dirty
  | .other contents => term.drawOther contents node r

def renderChildren (cs : List (RenderTree κ γ τ)) (offX offY maxW maxH : ℤ) (dirty : Bool) :
    Bytes :=
  match cs with
  | [] => []
  | c::cs => renderNode c offX offY maxW maxH dirty++renderChildren cs offX offY maxW maxH dirty

def renderPane (c : Option (RenderTree κ γ τ)) (offX offY maxW maxH : ℤ) (dirty : Bool) : Bytes :=
  match c with
  | none => []
  | some c => renderNode c offX offY maxW maxH dirty
end

/-- The text in a buffer of `bufSz` bytes. -/
def renderTreeToBuf (t : RenderTree κ γ τ) (offX offY maxW maxH : ℤ) (bufSz : ℕ) : Bytes :=
  (27::utf8 "[2J"++27::utf8 "[H"++renderNode term t offX offY maxW maxH true++resetStyle).take
    (bufSz-1)

/-! ## Masked texts -/

theorem drawInput_masked (x y w : ℤ) {text text' placeholder : Option Bytes}
    (h : (text.getD []).length = (text'.getD []).length) (ws : WidgetStyle γ) :
    drawInput x y w text placeholder true ws = drawInput x y w text' placeholder true ws := by
  simp only [drawInput,h,if_true]

mutual
/-- The terminal shows the same with stars in place of the masked texts. -/
theorem renderNode_hide (t : RenderTree κ γ τ) (offX offY maxW maxH : ℤ) (parentDirty : Bool) :
    renderNode term (hide t) offX offY maxW maxH parentDirty =
      renderNode term t offX offY maxW maxH parentDirty := by
  obtain ⟨node,u⟩ := t
  simp only [hide,renderNode,renderBelow_hide u]

theorem renderBelow_hide (u : Content κ (RenderTree κ γ τ)) (node : Node γ τ) (r : Rect)
    (dirty : Bool) :
    renderBelow term (hideBelow u) node r dirty = renderBelow term u node r dirty := by
  cases u with
  | container border padding children =>
      simp only [hideBelow,renderBelow,renderChildren_hide children]
  | flex children => exact renderChildren_hide children _ _ _ _ _
  | grid children => exact renderChildren_hide children _ _ _ _ _
  | input text placeholder cursor masked =>
      cases masked with
      | false => rfl
      | true => exact drawInput_masked _ _ _ (by simp) _
  | tabs labels active child => simp only [hideBelow,renderBelow,renderPane_hide child]
  | splitPanes orientation position first second third =>
      cases orientation with
      | horizontal =>
          simp only [hideBelow,renderBelow,renderPane_hide first,renderPane_hide second]
      | vertical => simp only [hideBelow,renderBelow,renderPane_hide first,renderPane_hide second]
  | other contents => rfl

theorem renderChildren_hide (cs : List (RenderTree κ γ τ)) (offX offY maxW maxH : ℤ)
    (dirty : Bool) :
    renderChildren term (hideList cs) offX offY maxW maxH dirty =
      renderChildren term cs offX offY maxW maxH dirty := by
  cases cs with
  | nil => rfl
  | cons c cs =>
      simp only [hideList,renderChildren,renderNode_hide c,renderChildren_hide cs]

theorem renderPane_hide (c : Option (RenderTree κ γ τ)) (offX offY maxW maxH : ℤ) (dirty : Bool) :
    renderPane term (hideOption c) offX offY maxW maxH dirty =
      renderPane term c offX offY maxW maxH dirty := by
  cases c with
  | none => rfl
  | some c => exact renderNode_hide c offX offY maxW maxH dirty
end

/-- No masked text can be told from the buffer. -/
theorem renderTreeToBuf_hide (t : RenderTree κ γ τ) (offX offY maxW maxH : ℤ) (bufSz : ℕ) :
    renderTreeToBuf term (hide t) offX offY maxW maxH bufSz =
      renderTreeToBuf term t offX offY maxW maxH bufSz := by
  unfold renderTreeToBuf
  rw [renderNode_hide]

end Filly.Rendering

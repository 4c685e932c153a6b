import Filly.PixelRenderer

/-!
# The pixels of the graphical renderer

The primitives of `backend/gcore/renderer.c` as the list of their writes to the pixels, each
with its place in the row after row array. A rectangle is cut to the buffer before it is
filled, and a dashed line looks at each pixel. The corners of a rounded rectangle and a
gradient are written as they are. Coordinates do not overflow.
-/
namespace Filly.PixelClipping
open Rectangles Rendering

structure PixelBuffer where
  width : ℤ
  height : ℤ

/-- The new color may depend on the one that is there. -/
structure Write where
  index : ℤ
  color : UInt32 → UInt32

/-- `for (int i = start; i < stop; i++)` -/
def upTo (start stop : ℤ) : List ℤ := (List.range (stop-start).toNat).map fun i : ℕ => start+i

theorem mem_upTo {start stop i : ℤ} : i ∈ upTo start stop ↔ start ≤ i ∧ i < stop := by
  rw [upTo,List.mem_map]
  simp only [List.mem_range]
  constructor
  · rintro ⟨n,hn,rfl⟩
    omega
  · rintro ⟨hle,hlt⟩
    exact ⟨(i-start).toNat,by omega,by omega⟩

/-- `pixels[y*width+x]` -/
def PixelBuffer.at (pb : PixelBuffer) (x y : ℤ) : ℤ := y*pb.width+x

/-- The loops over the rows and columns of a rectangle. -/
def fill (pb : PixelBuffer) (r : Rect) (color : ℤ → ℤ → UInt32 → UInt32) : List Write :=
  (upTo 0 r.h).flatMap fun row => (upTo 0 r.w).map fun col =>
    ⟨pb.at (r.x+col) (r.y+row),color row col⟩

/-- What the first lines of `draw_rect` and `draw_rect_alpha` make of a rectangle. -/
def clip (pb : PixelBuffer) (r : Rect) : Rect :=
  let w := if r.x < 0 then r.w+r.x else r.w
  let x := if r.x < 0 then 0 else r.x
  let h := if r.y < 0 then r.h+r.y else r.h
  let y := if r.y < 0 then 0 else r.y
  ⟨x,y,if pb.width < x+w then pb.width-x else w,if pb.height < y+h then pb.height-y else h⟩

def drawRect (pb : PixelBuffer) (r : Rect) (color : UInt32) : List Write :=
  let r := clip pb r
  if r.w ≤ 0 ∨ r.h ≤ 0 then [] else fill pb r fun _ _ _ => color

/-- One channel of a color over another one. -/
def blend (source below alpha : UInt32) : UInt8 := ((source*alpha+below*(255-alpha))/255).toUInt8

def drawRectAlpha (pb : PixelBuffer) (r : Rect) (color : UInt32) : List Write :=
  let r := clip pb r
  if r.w ≤ 0 ∨ r.h ≤ 0 then []
  else
    let sa := color >>> 24 &&& 0xFF
    if sa = 0 then []
    else if sa = 255 then drawRect pb r color
    else fill pb r fun _ _ bg =>
      gcoreRgba (blend (color >>> 16 &&& 0xFF) (bg >>> 16 &&& 0xFF) sa)
        (blend (color >>> 8 &&& 0xFF) (bg >>> 8 &&& 0xFF) sa) (blend (color &&& 0xFF) (bg &&& 0xFF) sa)
        255

/-- The loop over the corner rows. The offset of a row is a number from a square root. -/
def cornerWrites (pb : PixelBuffer) (offset : ℤ → ℤ) (r : Rect) (radius : ℤ) (color : UInt32) :
    List Write :=
  (upTo 0 radius).flatMap fun row => (upTo 0 (r.w-offset row*2)).flatMap fun col =>
    [⟨pb.at (r.x+offset row+col) (r.y+row),fun _ => color⟩,
      ⟨pb.at (r.x+offset row+col) (r.y+r.h-1-row),fun _ => color⟩]

def drawRoundedRect (pb : PixelBuffer) (offset : ℤ → ℤ) (r : Rect) (radius : ℤ) (color : UInt32) :
    List Write :=
  if radius ≤ 0 ∨ r.w < radius*2 ∨ r.h < radius*2 then drawRect pb r color
  else
    drawRect pb ⟨r.x+radius,r.y,r.w-radius*2,r.h⟩ color++
      drawRect pb ⟨r.x,r.y+radius,r.w,r.h-radius*2⟩ color++cornerWrites pb offset r radius color

inductive GradientType where
  | none
  | linear
  | radial
  deriving DecidableEq

/-- Both types of a gradient are drawn with the same loops; their colors are computed with
floating-point numbers. -/
def drawGradientBg (pb : PixelBuffer) (shade : GradientType → ℤ → ℤ → UInt32) (r : Rect) :
    GradientType → List Write
  | .none => []
  | type => fill pb r fun row col _ => shade type row col

/-- The loop of `draw_dashed_line` from a position on. -/
def dashes (length pos : ℤ) : List ℤ :=
  if pos < length then
    let stop := if length < pos+4 then length else pos+4
    upTo pos stop++dashes length (stop+3)
  else []
termination_by (length-pos).toNat
decreasing_by
  rename_i h
  split_ifs <;> omega

def drawDashedLine (pb : PixelBuffer) (x y length : ℤ) (horizontal : Bool) (color : UInt32) :
    List Write :=
  (dashes length 0).flatMap fun i =>
    if horizontal then
      if 0 ≤ x+i ∧ x+i < pb.width ∧ 0 ≤ y ∧ y < pb.height then
        [⟨pb.at (x+i) y,fun _ => color⟩]
      else []
    else
      if 0 ≤ x ∧ x < pb.width ∧ 0 ≤ y+i ∧ y+i < pb.height then
        [⟨pb.at x (y+i),fun _ => color⟩]
      else []

/-! ## The primitives -/

inductive Primitive where
  | rect (r : Rect) (color : UInt32)
  | rectAlpha (r : Rect) (color : UInt32)
  | roundedRect (r : Rect) (radius : ℤ) (color : UInt32)
  | gradientBg (r : Rect) (type : GradientType)
  | dashedLine (x y length : ℤ) (horizontal : Bool) (color : UInt32)

def Primitive.writes (pb : PixelBuffer) (offset : ℤ → ℤ) (shade : GradientType → ℤ → ℤ → UInt32) :
    Primitive → List Write
  | .rect r color => drawRect pb r color
  | .rectAlpha r color => drawRectAlpha pb r color
  | .roundedRect r radius color => drawRoundedRect pb offset r radius color
  | .gradientBg r type => drawGradientBg pb shade r type
  | .dashedLine x y length horizontal color => drawDashedLine pb x y length horizontal color

/-- The rectangle that a primitive is given. -/
def Primitive.area : Primitive → Rect
  | .rect r _ => r
  | .rectAlpha r _ => r
  | .roundedRect r _ _ => r
  | .gradientBg r _ => r
  | .dashedLine x y length horizontal _ => if horizontal then ⟨x,y,length,1⟩ else ⟨x,y,1,length⟩

def PixelBuffer.rect (pb : PixelBuffer) : Rect := ⟨0,0,pb.width,pb.height⟩

/-- The index belongs to a pixel of the buffer and of the rectangle. -/
def Confined (pb : PixelBuffer) (r : Rect) (index : ℤ) : Prop :=
  ∃ px py, index = pb.at px py ∧ pb.rect.Covers px py ∧ r.Covers px py

/-- An offset for each corner row, which is not larger than the radius. -/
def Offsets (radius : ℤ) (offset : ℤ → ℤ) : Prop :=
  ∀ row, 0 ≤ row → row < radius → 0 ≤ offset row ∧ offset row ≤ radius

def Primitive.radius : Primitive → ℤ
  | .roundedRect _ radius _ => radius
  | _ => 0

/-- Whatever the corners and the colors are, all writes are confined. -/
def StaysInside (pb : PixelBuffer) (prim : Primitive) : Prop :=
  ∀ offset shade, Offsets prim.radius offset →
    ∀ write ∈ prim.writes pb offset shade, Confined pb prim.area write.index

/-- The primitive is one that is cut to the buffer, or there is nothing to cut. -/
def Fits (pb : PixelBuffer) : Primitive → Prop
  | .roundedRect r radius _ =>
      radius ≤ 0 ∨ r.w < radius*2 ∨ r.h < radius*2 ∨ r.Inside pb.rect
  | .gradientBg r type => type = .none ∨ r.w ≤ 0 ∨ r.h ≤ 0 ∨ r.Inside pb.rect
  | _ => True

instance (pb : PixelBuffer) : (prim : Primitive) → Decidable (Fits pb prim)
  | .roundedRect r radius _ => inferInstanceAs
      (Decidable (radius ≤ 0 ∨ r.w < radius*2 ∨ r.h < radius*2 ∨ r.Inside pb.rect))
  | .gradientBg r type => inferInstanceAs
      (Decidable (type = .none ∨ r.w ≤ 0 ∨ r.h ≤ 0 ∨ r.Inside pb.rect))
  | .rect .. | .rectAlpha .. | .dashedLine .. => inferInstanceAs (Decidable True)

/-! ## What each of them writes -/

section
variable {pb : PixelBuffer} {r : Rect} {write : Write}

theorem mem_fill {color : ℤ → ℤ → UInt32 → UInt32} :
    write ∈ fill pb r color ↔ ∃ row col, (0 ≤ row ∧ row < r.h) ∧ (0 ≤ col ∧ col < r.w) ∧
      write = ⟨pb.at (r.x+col) (r.y+row),color row col⟩ := by
  simp only [fill,List.mem_flatMap,List.mem_map,mem_upTo]
  constructor
  · rintro ⟨row,hrow,col,hcol,rfl⟩
    exact ⟨row,col,hrow,hcol,rfl⟩
  · rintro ⟨row,col,hrow,hcol,rfl⟩
    exact ⟨row,hrow,col,hcol,rfl⟩

/-- A filled rectangle that lies in the buffer and in another one. -/
theorem fill_confined {area : Rect} {color : ℤ → ℤ → UInt32 → UInt32} (hbuffer : r.Inside pb.rect)
    (harea : r.Inside area) : ∀ write ∈ fill pb r color, Confined pb area write.index := by
  intro write hwrite
  obtain ⟨row,col,hrow,hcol,rfl⟩ := mem_fill.1 hwrite
  refine ⟨r.x+col,r.y+row,rfl,?_,?_⟩
  all_goals unfold Rect.Covers Rect.Inside at *
  all_goals omega

theorem clip_inside (pb : PixelBuffer) (r : Rect) :
    (clip pb r).Inside pb.rect ∧ (clip pb r).Inside r := by
  simp only [clip,Rect.Inside,PixelBuffer.rect]
  split_ifs <;> omega

theorem drawRect_confined {area : Rect} {color : UInt32} (h : r.Inside area) :
    ∀ write ∈ drawRect pb r color, Confined pb area write.index := by
  rw [drawRect]
  split_ifs
  · simp
  · exact fill_confined (clip_inside pb r).1 ((clip_inside pb r).2.trans h)

theorem drawRectAlpha_confined {color : UInt32} :
    ∀ write ∈ drawRectAlpha pb r color, Confined pb r write.index := by
  have hclip := clip_inside pb r
  intro write hwrite
  simp only [drawRectAlpha] at hwrite
  split_ifs at hwrite
  · cases hwrite
  · cases hwrite
  · exact drawRect_confined hclip.2 write hwrite
  · exact fill_confined hclip.1 hclip.2 write hwrite

theorem mem_dashes {length pos i : ℤ} (h : i ∈ dashes length pos) : pos ≤ i ∧ i < length := by
  fun_induction dashes length pos with
  | case1 pos hlt stop ih =>
      have hstop : pos < stop ∧ stop ≤ length := by
        simp only [stop]
        split_ifs <;> omega
      rcases List.mem_append.1 h with hi | hi
      · rw [mem_upTo] at hi
        omega
      · have hrest := ih hi
        omega
  | case2 pos hlt => cases h

theorem drawDashedLine_confined {x y length : ℤ} {horizontal : Bool} {color : UInt32} :
    ∀ write ∈ drawDashedLine pb x y length horizontal color,
      Confined pb (Primitive.dashedLine x y length horizontal color).area write.index := by
  intro write hwrite
  obtain ⟨i,hi,hwrite⟩ := List.mem_flatMap.1 hwrite
  have hrange := mem_dashes hi
  cases horizontal with
  | true =>
      simp only [if_true] at hwrite
      split_ifs at hwrite with hin
      · cases List.mem_singleton.1 hwrite
        refine ⟨x+i,y,rfl,?_,?_⟩
        all_goals simp only [Rect.Covers,PixelBuffer.rect,Primitive.area,if_true]
        all_goals omega
      · cases hwrite
  | false =>
      simp only [Bool.false_eq_true,if_false] at hwrite
      split_ifs at hwrite with hin
      · cases List.mem_singleton.1 hwrite
        refine ⟨x,y+i,rfl,?_,?_⟩
        all_goals simp only [Rect.Covers,PixelBuffer.rect,Primitive.area,Bool.false_eq_true,if_false]
        all_goals omega
      · cases hwrite

/-- What is confined to its rectangle and drawn without a cut needs its corners in the buffer. -/
theorem inside_of_corners (hfirst : Confined pb r (pb.at r.x r.y))
    (hlast : Confined pb r (pb.at (r.x+r.w-1) (r.y+r.h-1))) : r.Inside pb.rect := by
  obtain ⟨px,py,hindex,hbuffer,harea⟩ := hfirst
  obtain ⟨qx,qy,hindex',hbuffer',harea'⟩ := hlast
  unfold PixelBuffer.at at hindex hindex'
  simp only [Rect.Covers,Rect.Inside,PixelBuffer.rect] at *
  have hwidth : 0 < pb.width := by omega
  have htop : py = r.y := by nlinarith
  have hbottom : qy = r.y+r.h-1 := by nlinarith
  subst htop hbottom
  omega

theorem mem_cornerWrites {offset : ℤ → ℤ} {radius : ℤ} {color : UInt32} :
    write ∈ cornerWrites pb offset r radius color ↔ ∃ row col, (0 ≤ row ∧ row < radius) ∧
      (0 ≤ col ∧ col < r.w-offset row*2) ∧
        (write = ⟨pb.at (r.x+offset row+col) (r.y+row),fun _ => color⟩ ∨
          write = ⟨pb.at (r.x+offset row+col) (r.y+r.h-1-row),fun _ => color⟩) := by
  simp only [cornerWrites,List.mem_flatMap,mem_upTo,List.mem_cons,List.not_mem_nil,or_false]
  constructor
  · rintro ⟨row,hrow,col,hcol,hwrite⟩
    exact ⟨row,col,hrow,hcol,hwrite⟩
  · rintro ⟨row,col,hrow,hcol,hwrite⟩
    exact ⟨row,hrow,col,hcol,hwrite⟩

theorem cornerWrites_confined {offset : ℤ → ℤ} {radius : ℤ} {color : UInt32}
    (hoffset : Offsets radius offset) (hh : radius*2 ≤ r.h) (hinside : r.Inside pb.rect) :
    ∀ write ∈ cornerWrites pb offset r radius color, Confined pb r write.index := by
  intro write hwrite
  obtain ⟨row,col,hrow,hcol,hwrite⟩ := mem_cornerWrites.1 hwrite
  have hrange := hoffset row hrow.1 hrow.2
  rcases hwrite with rfl | rfl
  · refine ⟨r.x+offset row+col,r.y+row,rfl,?_,?_⟩
    all_goals unfold Rect.Covers Rect.Inside at *
    all_goals omega
  · refine ⟨r.x+offset row+col,r.y+r.h-1-row,rfl,?_,?_⟩
    all_goals unfold Rect.Covers Rect.Inside at *
    all_goals omega

theorem drawRoundedRect_confined {offset : ℤ → ℤ} {radius : ℤ} {color : UInt32}
    (hoffset : Offsets radius offset) (h : Fits pb (.roundedRect r radius color)) :
    ∀ write ∈ drawRoundedRect pb offset r radius color, Confined pb r write.index := by
  by_cases hplain : radius ≤ 0 ∨ r.w < radius*2 ∨ r.h < radius*2
  · rw [drawRoundedRect,if_pos hplain]
    exact drawRect_confined ⟨le_rfl,le_rfl,le_rfl,le_rfl⟩
  · simp only [not_or,not_le,not_lt] at hplain
    have hinside : r.Inside pb.rect := by
      rcases h with h | h | h | h
      · omega
      · omega
      · omega
      · exact h
    rw [drawRoundedRect,if_neg (by omega),List.forall_mem_append,List.forall_mem_append]
    refine ⟨⟨drawRect_confined ?_,drawRect_confined ?_⟩,
      cornerWrites_confined hoffset hplain.2.2 hinside⟩
    all_goals unfold Rect.Inside
    all_goals simp only
    all_goals omega

/-- Without an offset the corner loop begins and ends in corners of the rectangle. -/
theorem corners_written (pb : PixelBuffer) {r : Rect} {radius : ℤ} (color : UInt32)
    (hradius : 0 < radius) (hw : radius*2 ≤ r.w) :
    ⟨pb.at r.x r.y,fun _ => color⟩ ∈ cornerWrites pb (fun _ => 0) r radius color ∧
      ⟨pb.at (r.x+r.w-1) (r.y+r.h-1),fun _ => color⟩ ∈ cornerWrites pb (fun _ => 0) r radius color := by
  rw [mem_cornerWrites,mem_cornerWrites]
  refine ⟨⟨0,0,by omega,by omega,Or.inl ?_⟩,⟨0,r.w-1,by omega,by omega,Or.inr ?_⟩⟩
  · rw [add_zero,add_zero,add_zero]
  · rw [add_zero,sub_zero,add_sub_assoc]

end

/-! ## When they stay inside -/

theorem staysInside_of_fits {pb : PixelBuffer} {prim : Primitive} (h : Fits pb prim) :
    StaysInside pb prim := by
  intro offset shade hoffset
  cases prim with
  | rect r color => exact drawRect_confined ⟨le_rfl,le_rfl,le_rfl,le_rfl⟩
  | rectAlpha r color => exact drawRectAlpha_confined
  | roundedRect r radius color => exact drawRoundedRect_confined hoffset h
  | gradientBg r type =>
      have hfill : r.w ≤ 0 ∨ r.h ≤ 0 ∨ r.Inside pb.rect →
          ∀ color, ∀ write ∈ fill pb r color, Confined pb r write.index := by
        intro h color write hwrite
        obtain ⟨row,col,hrow,hcol,-⟩ := mem_fill.1 hwrite
        rcases h with h | h | h
        · omega
        · omega
        · exact fill_confined h ⟨le_rfl,le_rfl,le_rfl,le_rfl⟩ write hwrite
      cases type with
      | none => exact fun _ hwrite => by cases hwrite
      | linear => exact hfill (h.resolve_left GradientType.noConfusion) _
      | radial => exact hfill (h.resolve_left GradientType.noConfusion) _
  | dashedLine x y length horizontal color => exact drawDashedLine_confined

theorem StaysInside.fits {pb : PixelBuffer} {prim : Primitive} (h : StaysInside pb prim) :
    Fits pb prim := by
  cases prim with
  | roundedRect r radius color =>
      by_cases hplain : radius ≤ 0 ∨ r.w < radius*2 ∨ r.h < radius*2
      · rcases hplain with h | h | h
        · exact Or.inl h
        · exact Or.inr (Or.inl h)
        · exact Or.inr (Or.inr (Or.inl h))
      · have hwrites := h (fun _ => 0) (fun _ _ _ => 0) fun _ hrow hlt =>
          ⟨le_rfl,hrow.trans hlt.le⟩
        rw [Primitive.writes,drawRoundedRect,if_neg hplain,List.forall_mem_append] at hwrites
        have hradius : 0 < radius := by omega
        obtain ⟨hfirst,hlast⟩ := corners_written pb (r := r) color hradius (by omega)
        exact Or.inr (Or.inr (Or.inr
          (inside_of_corners (hwrites.2 _ hfirst) (hwrites.2 _ hlast))))
  | gradientBg r type =>
      by_cases hw : r.w ≤ 0
      · exact Or.inr (Or.inl hw)
      by_cases hh : r.h ≤ 0
      · exact Or.inr (Or.inr (Or.inl hh))
      have hfill : ∀ color, (∀ write ∈ fill pb r color, Confined pb r write.index) →
          r.Inside pb.rect := by
        intro color hwrites
        refine inside_of_corners (hwrites ⟨pb.at r.x r.y,color 0 0⟩ ?_)
          (hwrites ⟨pb.at (r.x+r.w-1) (r.y+r.h-1),color (r.h-1) (r.w-1)⟩ ?_)
        · exact mem_fill.2 ⟨0,0,by omega,by omega,by rw [add_zero,add_zero]⟩
        · exact mem_fill.2 ⟨r.h-1,r.w-1,by omega,by omega,by rw [add_sub_assoc,add_sub_assoc]⟩
      have hwrites := h (fun _ => 0) (fun _ _ _ => 0) fun _ hrow hlt => ⟨le_rfl,hrow.trans hlt.le⟩
      cases type with
      | none => exact Or.inl rfl
      | linear => exact Or.inr (Or.inr (Or.inr (hfill _ hwrites)))
      | radial => exact Or.inr (Or.inr (Or.inr (hfill _ hwrites)))
  | _ => trivial

/-- The primitive behind a drawing operation; the others are drawn without one. -/
def primitiveOf {γ : Type} (type : γ → GradientType) : DrawOp γ → Option Primitive
  | .gradient r grad => some (.gradientBg r (type grad))
  | .roundedRect r radius color => some (.roundedRect r radius color)
  | .rect r color => some (.rect r color)
  | .rectAlpha r color => some (.rectAlpha r color)
  | .dashedLine x y length horizontal color => some (.dashedLine x y length horizontal color)
  | .shadow .. | .text .. | .vector .. | .plot .. => none

section
variable {γ : Type} {type : γ → GradientType} {pb : PixelBuffer}

theorem drawBorderSide_fits (side : BorderSide) (r : Rect) (horizontal : Bool) :
    ∀ op ∈ drawBorderSide (γ := γ) side r horizontal, ∀ prim ∈ primitiveOf type op,
      Fits pb prim := by
  rw [drawBorderSide]
  by_cases hwidth : 0 < side.width
  · rw [if_pos hwidth]
    cases side.style <;> simp [primitiveOf,Fits]
  · rw [if_neg hwidth]
    exact List.forall_mem_nil _

/-- A node whose rectangle lies in the buffer has a ground and borders that stay inside, and a
node without rounded corners and gradient wherever it lies. -/
theorem drawGround_staysInside {r : Rect} {ws : WidgetStyle γ}
    (h : r.Inside pb.rect ∨ ws.gradient = none ∧ ws.borderRadius ≤ 0) :
    ∀ op ∈ drawGround r ws, ∀ prim ∈ primitiveOf type op, StaysInside pb prim := by
  have hfits : ∀ op ∈ drawGround r ws, ∀ prim ∈ primitiveOf type op, Fits pb prim := by
    simp only [drawGround,drawBorderPerSide,List.forall_mem_append,List.forall_mem_map]
    refine ⟨⟨⟨by simp [primitiveOf],?_⟩,?_⟩,
      ⟨⟨drawBorderSide_fits _ _ _,drawBorderSide_fits _ _ _⟩,drawBorderSide_fits _ _ _⟩,
      drawBorderSide_fits _ _ _⟩
    · cases hgradient : ws.gradient with
      | some grad =>
          rw [hgradient] at h
          have hinside : r.Inside pb.rect := h.resolve_right fun h => by cases h.1
          simp [primitiveOf,Fits,hinside]
      | none =>
          rcases h with h | h
          · simp [primitiveOf,Fits,h]
          · simp [primitiveOf,Fits,h.2]
    · cases ws.veil <;> simp [primitiveOf,Fits]
  exact fun op hop prim hprim => staysInside_of_fits (hfits op hop prim hprim)

end

end Filly.PixelClipping

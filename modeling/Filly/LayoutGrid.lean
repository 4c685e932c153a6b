import Filly.LayoutFlex

/-!
# Grids

The cells of a grid are as wide as an integer division makes them, and the remainder stays free
on the right. Cells in different columns or rows do not meet.
-/
namespace Filly.Layout
open CJson Rectangles

/-! ## Cells with gaps -/

/-- The cell in a column and a row, all of one size with a gap between them. -/
def cellAt (corner : Rect) (gap col row : ℤ) : Rect :=
  ⟨corner.x+col*(corner.w+gap),corner.y+row*(corner.h+gap),corner.w,corner.h⟩

/-- A cell and its gap end before the next one begins. -/
theorem cell_end_le {size gap a b : ℤ} (hsize : 0 ≤ size) (hgap : 0 ≤ gap) (hab : a < b) :
    a*(size+gap)+size+gap ≤ b*(size+gap) := by
  have hnext : (a+1)*(size+gap) ≤ b*(size+gap) :=
    mul_le_mul_of_nonneg_right hab (add_nonneg hsize hgap)
  rw [add_mul,one_mul] at hnext
  omega

theorem cellAt_apart_of_lt {corner : Rect} {gap : ℤ} (hw : 0 ≤ corner.w) (hh : 0 ≤ corner.h)
    (hgap : 0 ≤ gap) {col row col' row' : ℤ} (hlt : col < col' ∨ row < row') :
    Rect.Apart (cellAt corner gap col row) (cellAt corner gap col' row') := by
  obtain hcol | hrow := hlt
  · refine Rect.apart_of_left ?_
    have hend := cell_end_le hw hgap hcol
    dsimp only [cellAt]
    omega
  · refine Rect.apart_of_above ?_
    have hend := cell_end_le hh hgap hrow
    dsimp only [cellAt]
    omega

theorem cellAt_apart {corner : Rect} {gap : ℤ} (hw : 0 ≤ corner.w) (hh : 0 ≤ corner.h)
    (hgap : 0 ≤ gap) {col row col' row' : ℤ} (hne : col ≠ col' ∨ row ≠ row') :
    Rect.Apart (cellAt corner gap col row) (cellAt corner gap col' row') := by
  by_cases hlt : col < col' ∨ row < row'
  · exact cellAt_apart_of_lt hw hh hgap hlt
  · exact (cellAt_apart_of_lt hw hh hgap (by omega)).symm

/-- Different numbers are in different columns or rows. -/
theorem column_or_row_ne (cols : ℤ) {i j : ℤ} (hij : i ≠ j) :
    i%cols ≠ j%cols ∨ i/cols ≠ j/cols := by
  by_contra h
  push Not at h
  refine hij ?_
  rw [← Int.mul_ediv_add_emod i cols,← Int.mul_ediv_add_emod j cols,h.1,h.2]

/-! ## The grid -/

/-- The columns of a grid, at least one. -/
def gridColumns (columns : ℤ) : ℤ := if columns > 0 then columns else 1

/-- `cell_w`. -/
def cellWidth (isPixel : Bool) (columns : ℤ) (frame : Rect) : ℤ :=
  (frame.w-gapOf isPixel*(gridColumns columns-1)).tdiv (gridColumns columns)

/-- The children of a grid after its layout, where it had `n` of them. -/
structure Gridded (isPixel : Bool) (columns : ℤ) (frame : Rect) (n : ℕ) (done : RenderTree) :
    Prop where
  count : done.children.length = n
  place : ∀ (i : ℕ) (c : RenderTree), done.children[i]? = some c → c.rect =
    cellAt ⟨frame.x,frame.y,cellWidth isPixel columns frame,rowHeight isPixel⟩ (gapOf isPixel)
      (i%gridColumns columns) (i/gridColumns columns)
  apart : done.children.Pairwise fun a b => Rect.Apart a.rect b.rect
  inside : ∀ c ∈ done.children, frame.x ≤ c.rect.x ∧ c.rect.x+c.rect.w ≤ frame.x+frame.w
  bottom : ∀ c ∈ done.children.getLast?, frame.y+done.rect.h = c.rect.y+c.rect.h

theorem gridColumns_pos (columns : ℤ) : 0 < gridColumns columns := by
  rw [gridColumns]
  split_ifs <;> omega

theorem gapOf_nonneg (isPixel : Bool) : 0 ≤ gapOf isPixel := by
  cases isPixel <;> decide

theorem rowHeight_pos (isPixel : Bool) : 0 < rowHeight isPixel := by
  cases isPixel <;> decide

/-- The divisions of the source are those of numbers that are not negative. -/
theorem gridCell_eq (isPixel : Bool) (columns : ℤ) (frame : Rect) (i : ℕ) :
    gridCell isPixel (gridColumns columns) frame i =
      cellAt ⟨frame.x,frame.y,cellWidth isPixel columns frame,rowHeight isPixel⟩ (gapOf isPixel)
        (i%gridColumns columns) (i/gridColumns columns) := by
  have hi : (0 : ℤ) ≤ i := Int.natCast_nonneg i
  rw [gridCell,Int.tmod_eq_emod_of_nonneg hi,Int.tdiv_eq_ediv_of_nonneg hi]
  rfl

theorem layoutGrid_children (isPixel : Bool) (node : Node) (columns : ℤ)
    (children : List RenderTree) (frame : Rect) :
    (layoutGrid isPixel node columns children frame).children = children.mapIdx fun i c =>
      limitChild (c.withRect (gridCell isPixel (gridColumns columns) frame i)) := by
  by_cases hnil : children = []
  · rw [hnil]
    rfl
  · rw [layoutGrid,if_neg hnil]
    rfl

/-- The height of the rows and of the gaps between them. -/
theorem layoutGrid_height (isPixel : Bool) (node : Node) (columns : ℤ) {children : List RenderTree}
    (hne : children ≠ []) (frame : Rect) :
    (layoutGrid isPixel node columns children frame).rect.h =
      ((children.length-1 : ℕ)/gridColumns columns)*(rowHeight isPixel+gapOf isPixel)+
        rowHeight isPixel := by
  have hcols := gridColumns_pos columns
  have hlength := List.length_pos_of_ne_nil hne
  have hrows : ((children.length : ℤ)+gridColumns columns-1).tdiv (gridColumns columns) =
      (children.length-1 : ℕ)/gridColumns columns+1 := by
    rw [Int.tdiv_eq_ediv_of_nonneg (by omega),← Int.add_mul_ediv_right _ _ hcols.ne']
    congr 1
    omega
  rw [layoutGrid,if_neg hne]
  change ((children.length : ℤ)+gridColumns columns-1).tdiv (gridColumns columns)*
    (rowHeight isPixel+gapOf isPixel)-gapOf isPixel = _
  rw [hrows]
  ring

/-- Cells as wide as the division makes them leave room for the gaps between them. -/
theorem columns_fit {isPixel : Bool} {columns : ℤ} {frame : Rect}
    (hcell : 0 < cellWidth isPixel columns frame) :
    gridColumns columns*(cellWidth isPixel columns frame+gapOf isPixel)-gapOf isPixel ≤ frame.w := by
  have hcols := gridColumns_pos columns
  generalize hspace : frame.w-gapOf isPixel*(gridColumns columns-1) = space
  have hcellWidth : cellWidth isPixel columns frame = space.tdiv (gridColumns columns) := by
    rw [cellWidth,hspace]
  rw [hcellWidth] at hcell ⊢
  have hnonneg : 0 ≤ space := by
    by_contra hneg
    have hdiv := Int.tdiv_nonneg (show 0 ≤ -space by omega) hcols.le
    rw [Int.neg_tdiv] at hdiv
    omega
  have hmul := Int.mul_tdiv_self_le (k := gridColumns columns) hnonneg
  rw [mul_add]
  rw [mul_sub,mul_comm (gapOf isPixel),mul_one] at hspace
  omega

theorem layoutGrid_place (isPixel : Bool) (node : Node) (columns : ℤ) {children : List RenderTree}
    (hfree : ∀ c ∈ children, Unlimited c) (frame : Rect) (i : ℕ) (c : RenderTree)
    (hc : (layoutGrid isPixel node columns children frame).children[i]? = some c) :
    c.rect = cellAt ⟨frame.x,frame.y,cellWidth isPixel columns frame,rowHeight isPixel⟩
      (gapOf isPixel) (i%gridColumns columns) (i/gridColumns columns) := by
  rw [layoutGrid_children,List.getElem?_mapIdx,Option.map_eq_some_iff] at hc
  obtain ⟨d,hd,rfl⟩ := hc
  rw [rect_limitChild (hfree d (List.mem_of_getElem? hd)),gridCell_eq]

/-- With cells of a positive width and children without limits a grid is one: no two children
meet, they are inside of the width, and the grid ends with its last row. -/
theorem grid_gridded (isPixel : Bool) (node : Node) (columns : ℤ) {children : List RenderTree}
    (hfree : ∀ c ∈ children, Unlimited c) (frame : Rect)
    (hcell : 0 < cellWidth isPixel columns frame) :
    Gridded isPixel columns frame children.length
      (layoutGrid isPixel node columns children frame) := by
  have hcols := gridColumns_pos columns
  have hgap := gapOf_nonneg isPixel
  have hrow := rowHeight_pos isPixel
  have hplace := layoutGrid_place isPixel node columns hfree frame
  have hcount : (layoutGrid isPixel node columns children frame).children.length =
      children.length := by
    rw [layoutGrid_children,List.length_mapIdx]
  refine ⟨hcount,hplace,?_,?_,?_⟩
  · rw [List.pairwise_iff_getElem]
    intro i j hi hj hij
    rw [hplace i _ (List.getElem?_eq_getElem hi),hplace j _ (List.getElem?_eq_getElem hj)]
    exact cellAt_apart hcell.le hrow.le hgap (column_or_row_ne _ (by omega))
  · intro c hc
    obtain ⟨i,hi⟩ := List.mem_iff_getElem?.1 hc
    rw [hplace i c hi]
    have hmod := Int.emod_nonneg i hcols.ne'
    have hlt := cell_end_le hcell.le hgap (Int.emod_lt_of_pos i hcols)
    have hstart := mul_nonneg hmod (add_nonneg hcell.le hgap)
    have hfit := columns_fit hcell
    dsimp only [cellAt]
    omega
  · intro c hc
    rw [List.getLast?_eq_getElem?,hcount] at hc
    have hne : children ≠ [] := by
      intro hnil
      rw [layoutGrid_children,hnil] at hc
      cases hc
    rw [layoutGrid_height isPixel node columns hne,hplace _ c hc]
    dsimp only [cellAt]
    omega

/-- Three texts in two columns of ten cells. -/
theorem three_texts_gridded :
    Gridded false 2 ⟨0,0,10,5⟩ 3 (layoutGrid false {} 2
      [.mk {} (.text none),.mk {} (.text none),.mk {} (.text none)] ⟨0,0,10,5⟩) := by
  have hfree : ∀ c ∈ [RenderTree.mk {} (.text none),.mk {} (.text none),.mk {} (.text none)],
      Unlimited c := by
    intro c hc
    simp only [List.mem_cons,List.not_mem_nil,or_false,or_self] at hc
    rw [hc]
    exact ⟨le_rfl,le_rfl,le_rfl,le_rfl⟩
  exact grid_gridded false {} 2 hfree ⟨0,0,10,5⟩ (by decide)

end Filly.Layout

import Filly.Canvas

/-!
# Snapping to the grid

A coordinate and half a cell are divided by the cell and multiplied again. The division
cuts off towards zero, so it rounds up below zero and down above.
-/
namespace Filly.Builder

/-- The result is the nearest multiple of the grid, and it snaps to itself. -/
structure Snaps (grid v : Int32) : Prop where
  multiple : grid.toInt ∣ (snapToGrid v grid).toInt
  near : 2*|(snapToGrid v grid).toInt-v.toInt| ≤ grid.toInt
  stable : snapToGrid (snapToGrid v grid) grid = snapToGrid v grid

/-- Two coordinates keep their order, and their distance if it is a multiple of the grid. -/
structure SnapsAlike (grid v w : Int32) : Prop where
  first : Snaps grid v
  second : Snaps grid w
  mono : v ≤ w → snapToGrid v grid ≤ snapToGrid w grid
  translates : grid.toInt ∣ w.toInt-v.toInt →
    (snapToGrid w grid).toInt-(snapToGrid v grid).toInt = w.toInt-v.toInt

/-- The coordinate and half a cell are not below zero, and neither this sum nor the one for
the result is too large for an `int`. -/
structure WithinReach (grid v : Int32) : Prop where
  lower : 0 ≤ v.toInt+grid.toInt/2
  upper : v.toInt+grid.toInt/2 < 2^31
  result : (v.toInt+grid.toInt/2)/grid.toInt*grid.toInt+grid.toInt/2 < 2^31

theorem bmod_eq {n : ℤ} (h : -2^31 ≤ n ∧ n < 2^31) : n.bmod (2^32) = n :=
  Int.bmod_eq_of_le (by omega) (by omega)

/-- A quotient that is cut off towards zero, below zero. -/
theorem tdiv_of_nonpos {a : ℤ} (ha : a ≤ 0) (g : ℤ) : a.tdiv g = -(-a/g) := by
  rw [← Int.tdiv_eq_ediv_of_nonneg (by omega),Int.neg_tdiv,neg_neg]

theorem tdiv_range {a g : ℤ} (ha : -2^31 ≤ a ∧ a < 2^31) (hg : 0 < g) :
    (-2^31 ≤ a.tdiv g ∧ a.tdiv g < 2^31) ∧ -2^31 ≤ a.tdiv g*g ∧ a.tdiv g*g < 2^31 := by
  rcases le_total 0 a with hpos | hneg
  · have hnonneg := Int.ediv_nonneg hpos hg.le
    have hself := Int.ediv_le_self g hpos
    have hmul := Int.ediv_mul_le a hg.ne'
    have hmul₀ := Int.mul_nonneg hnonneg hg.le
    rw [Int.tdiv_eq_ediv_of_nonneg hpos]
    omega
  · have hnonneg := Int.ediv_nonneg (show 0 ≤ -a by omega) hg.le
    have hself := Int.ediv_le_self g (show 0 ≤ -a by omega)
    have hmul := Int.ediv_mul_le (-a) hg.ne'
    have hmul₀ := Int.mul_nonneg hnonneg hg.le
    rw [tdiv_of_nonpos hneg,Int.neg_mul]
    omega

/-- The sum, which may have wrapped around, cut down to a multiple. -/
theorem toInt_snapToGrid {grid : Int32} (hgrid : 0 < grid.toInt) (v : Int32) :
    (snapToGrid v grid).toInt =
      ((v.toInt+grid.toInt/2).bmod (2^32)).tdiv grid.toInt*grid.toInt := by
  have hpos : ¬grid ≤ 0 := by
    rw [Int32.le_iff_toInt_le]
    simpa using hgrid
  have hmost := grid.toInt_lt
  have hhalf : (grid/2).toInt = grid.toInt/2 := by
    rw [Int32.toInt_div,show (2:Int32).toInt = 2 from rfl,
      Int.tdiv_eq_ediv_of_nonneg hgrid.le,bmod_eq (by omega)]
  rw [snapToGrid,if_neg hpos,Int32.toInt_mul,Int32.toInt_div,Int32.toInt_add,hhalf]
  have hle := @Int.le_bmod (v.toInt+grid.toInt/2) (2^32) (by norm_num)
  have hlt := @Int.bmod_lt (v.toInt+grid.toInt/2) (2^32) (by norm_num)
  generalize (v.toInt+grid.toInt/2).bmod (2^32) = sum at hle hlt ⊢
  have hrange := @tdiv_range sum grid.toInt (by omega) hgrid
  rw [bmod_eq hrange.1,bmod_eq hrange.2]

/-- Within reach the result is the multiple at or below the sum. -/
theorem toInt_snap_of_nonneg {grid v : Int32} (hgrid : 0 < grid.toInt)
    (h₀ : 0 ≤ v.toInt+grid.toInt/2) (h₁ : v.toInt+grid.toInt/2 < 2^31) :
    (snapToGrid v grid).toInt = (v.toInt+grid.toInt/2)/grid.toInt*grid.toInt := by
  rw [toInt_snapToGrid hgrid,bmod_eq (by omega),Int.tdiv_eq_ediv_of_nonneg h₀]

/-- Below zero it is the multiple at or above the sum. -/
theorem toInt_snap_of_neg {grid v : Int32} (hgrid : 0 < grid.toInt)
    (h : v.toInt+grid.toInt/2 < 0) :
    (snapToGrid v grid).toInt = -(-(v.toInt+grid.toInt/2)/grid.toInt*grid.toInt) := by
  have hv := v.le_toInt
  rw [toInt_snapToGrid hgrid,bmod_eq (by omega),tdiv_of_nonpos h.le,Int.neg_mul]

/-- A sum that is too large wraps around, and the result is not above zero. -/
theorem toInt_snap_of_large {grid v : Int32} (hgrid : 0 < grid.toInt)
    (h : 2^31 ≤ v.toInt+grid.toInt/2) : (snapToGrid v grid).toInt ≤ 0 := by
  have hv := v.toInt_lt
  have hg := grid.toInt_lt
  have hwrap : (v.toInt+grid.toInt/2).bmod (2^32) = v.toInt+grid.toInt/2-2^32 := by
    rw [← Int.sub_bmod_right (v.toInt+grid.toInt/2) (2^32),bmod_eq (by push_cast; omega)]
    norm_num
  rw [toInt_snapToGrid hgrid,hwrap,tdiv_of_nonpos (by omega),Int.neg_mul]
  have hnonneg := Int.mul_nonneg
    (Int.ediv_nonneg (show 0 ≤ -(v.toInt+grid.toInt/2-2^32) by omega) hgrid.le) hgrid.le
  omega

/-- A coordinate within reach snaps, with any grid. -/
theorem WithinReach.snaps {grid v : Int32} (hgrid : 0 < grid.toInt) (h : WithinReach grid v) :
    Snaps grid v := by
  obtain ⟨hlower,hupper,hresult⟩ := h
  have heq := toInt_snap_of_nonneg hgrid hlower hupper
  have hmod := Int.emod_add_ediv_mul (v.toInt+grid.toInt/2) grid.toInt
  have hmod₀ := Int.emod_nonneg (v.toInt+grid.toInt/2) hgrid.ne'
  have hmod₁ := Int.emod_lt_of_pos (v.toInt+grid.toInt/2) hgrid
  have hnonneg := Int.mul_nonneg (Int.ediv_nonneg hlower hgrid.le) hgrid.le
  refine ⟨?_,?_,?_⟩
  · rw [heq]
    exact Dvd.intro_left _ rfl
  · rw [heq]
    generalize (v.toInt+grid.toInt/2)/grid.toInt*grid.toInt = result at *
    rcases abs_cases (result-v.toInt) with ⟨habs,-⟩ | ⟨habs,-⟩ <;> rw [habs] <;> omega
  · rw [← Int32.toInt_inj,toInt_snap_of_nonneg hgrid (by omega) (by omega),heq,
      Int.add_comm,Int.add_mul_ediv_right _ _ hgrid.ne',
      Int.ediv_eq_zero_of_lt (by omega) (by omega),zero_add]

/-- Elsewhere the result is too far away, or it does not snap to itself. -/
theorem Snaps.withinReach {grid v : Int32} (hgrid : 1 < grid.toInt) (h : Snaps grid v) :
    WithinReach grid v := by
  obtain ⟨-,hnear,hstable⟩ := h
  have hpos : 0 < grid.toInt := by omega
  have hg := grid.toInt_lt
  have hnear' := abs_le.1 (show |(snapToGrid v grid).toInt-v.toInt| ≤ grid.toInt/2 by omega)
  rcases lt_or_ge (v.toInt+grid.toInt/2) 0 with hneg | hnonneg
  · have hsnap := toInt_snap_of_neg hpos hneg
    have hmod := Int.emod_add_ediv_mul (-(v.toInt+grid.toInt/2)) grid.toInt
    have hmod₀ := Int.emod_nonneg (-(v.toInt+grid.toInt/2)) hpos.ne'
    have hmod₁ := Int.emod_lt_of_pos (-(v.toInt+grid.toInt/2)) hpos
    generalize hq : -(v.toInt+grid.toInt/2)/grid.toInt = q at *
    have hround : -(v.toInt+grid.toInt/2) = q*grid.toInt := by omega
    have hq₁ : 1 ≤ q := by
      by_contra hq₀
      have := Int.mul_nonneg (show 0 ≤ -q by omega) hpos.le
      rw [Int.neg_mul] at this
      omega
    have hcell : grid.toInt ≤ q*grid.toInt := by
      have := Int.mul_le_mul_of_nonneg_right hq₁ hpos.le
      omega
    have hagain := @toInt_snap_of_neg grid (snapToGrid v grid) hpos (by omega)
    rw [hstable,hsnap,show -(-(q*grid.toInt)+grid.toInt/2) =
      (grid.toInt-grid.toInt/2)+(q-1)*grid.toInt by ring,Int.add_mul_ediv_right _ _ hpos.ne',
      Int.ediv_eq_zero_of_lt (by omega) (by omega),zero_add,Int.sub_mul,one_mul] at hagain
    omega
  · refine ⟨hnonneg,?_,?_⟩
    · by_contra hlarge
      have := toInt_snap_of_large hpos (not_lt.1 hlarge)
      omega
    · by_contra hlarge
      rw [not_lt] at hlarge
      have hupper : v.toInt+grid.toInt/2 < 2^31 := by
        by_contra hlarge'
        have := toInt_snap_of_large hpos (not_lt.1 hlarge')
        omega
      have heq := toInt_snap_of_nonneg hpos hnonneg hupper
      have hagain := @toInt_snap_of_large grid (snapToGrid v grid) hpos (by omega)
      rw [hstable] at hagain
      omega

/-- With cells of one nothing moves. -/
theorem snapToGrid_one (v : Int32) : snapToGrid v 1 = v := by
  rw [← Int32.toInt_inj,toInt_snapToGrid (by decide),show (1:Int32).toInt = 1 from rfl]
  norm_num

theorem snaps_one (v : Int32) : Snaps 1 v := by
  constructor
  · exact one_dvd _
  · rw [snapToGrid_one,sub_self]
    decide
  · rw [snapToGrid_one]

theorem snaps_iff {grid : Int32} (hgrid : 0 < grid) (v : Int32) :
    Snaps grid v ↔ grid = 1 ∨ WithinReach grid v := by
  have hpos : 0 < grid.toInt := Int32.lt_iff_toInt_lt.1 hgrid
  rcases eq_or_ne grid 1 with rfl | hne
  · exact iff_of_true (snaps_one v) (Or.inl rfl)
  · have hone : grid.toInt ≠ 1 := fun h => hne (Int32.toInt_inj.1 h)
    rw [or_iff_right hne]
    exact ⟨Snaps.withinReach (by omega),WithinReach.snaps hpos⟩

/-- Two coordinates snap alike exactly when both are within reach, or the cells have size
one. -/
theorem snapsAlike_iff {grid : Int32} (hgrid : 0 < grid) (v w : Int32) :
    SnapsAlike grid v w ↔ grid = 1 ∨ WithinReach grid v ∧ WithinReach grid w := by
  have hpos : 0 < grid.toInt := Int32.lt_iff_toInt_lt.1 hgrid
  constructor
  · rintro ⟨hv,hw,-,-⟩
    rw [snaps_iff hgrid] at hv hw
    tauto
  · rintro (rfl | ⟨hv,hw⟩)
    · refine ⟨snaps_one v,snaps_one w,?_,?_⟩
      all_goals
        rw [snapToGrid_one,snapToGrid_one]
        intro h
      · exact h
      · rfl
    · have hv' := toInt_snap_of_nonneg hpos hv.lower hv.upper
      have hw' := toInt_snap_of_nonneg hpos hw.lower hw.upper
      refine ⟨hv.snaps hpos,hw.snaps hpos,fun h => ?_,fun h => ?_⟩
      · rw [Int32.le_iff_toInt_le] at h ⊢
        rw [hv',hw']
        exact Int.mul_le_mul_of_nonneg_right (Int.ediv_le_ediv hpos (by omega)) hpos.le
      · obtain ⟨k,hk⟩ := h
        rw [hv',hw',show w.toInt+grid.toInt/2 = v.toInt+grid.toInt/2+k*grid.toInt by
          rw [mul_comm k]; omega,Int.add_mul_ediv_right _ _ hpos.ne',add_mul,hk]
        ring

/-- Coordinates of the first screen snap alike. -/
theorem snaps_on_first_screen : SnapsAlike 8 100 740 :=
  (snapsAlike_iff (by decide) 100 740).2 (Or.inr ⟨⟨by decide,by decide,by decide⟩,
    ⟨by decide,by decide,by decide⟩⟩)

/-- Left of the origin a coordinate snaps to a multiple that is 7 away, and a multiple to
the next one. -/
theorem snaps_too_far : snapToGrid (-7) 8 = 0 ∧ snapToGrid (-16) 8 = -8 ∧ ¬SnapsAlike 8 (-7) 1 := by
  refine ⟨by decide,by decide,fun h => ?_⟩
  exact absurd h.first.near (by decide)

end Filly.Builder

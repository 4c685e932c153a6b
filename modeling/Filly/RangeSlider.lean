import Filly.Calendar

/-!
# The range slider

The limits and the value come from a request and are not compared with each other. Sums
and differences are of type `int`; one that is too large, and a marker outside of the
buffer of the bar, have no result here. The place of the marker and the percentage are
quotients, cut off towards zero.
-/
namespace Filly.RangeSlider
open CJson Protocol SessionLoop Runs Rectangles
open Keys hiding Event
open Calendar (checkedInt checkedInt_eq)

structure RangeSliderData where
  base : WidgetBase
  title : Bytes
  label : Bytes
  min : ℤ
  max : ℤ
  value : ℤ

def rangeSliderWidgetNew (title : Bytes) (min max value : ℤ) (label : Bytes) :
    RangeSliderData where
  base := {}
  title := title
  label := label
  min := min
  max := max
  value := value

def rsHandleEvent (ev : Event) (d : RangeSliderData) : Option (EventResult × RangeSliderData) :=
  match ev with
  | .key .keyEsc _ => some (cancelled,d)
  | .key .keyLeft _ => do
      let next ← checkedInt (d.value-1)
      some (.handled,{ d with value := if d.min ≤ next then next else d.min,
                              base := d.base.touch })
  | .key .keyRight _ => do
      let next ← checkedInt (d.value+1)
      some (.handled,{ d with value := if next ≤ d.max then next else d.max,
                              base := d.base.touch })
  | .key .keyEnter _ => some (answered (.number ⟨d.value < 0,d.value.natAbs,0⟩),d)
  | _ => some (.unhandled,d)

/-- The bar, in a buffer of one byte more than its width. -/
def drawBar (barW pos : ℤ) : Option Bytes :=
  if 0 ≤ pos ∧ pos ≤ barW then
    some ((List.replicate pos.toNat (45:UInt8)++79::
      List.replicate (barW-(pos+1)).toNat 45).take barW.toNat)
  else none

structure SliderPicture where
  box : Rect
  title : Bytes
  bar : Bytes
  label : Bytes

/-- The part of the range below the value, where the whole range counts `whole`. -/
def scaled (d : RangeSliderData) (range whole empty : ℤ) : Option ℤ :=
  if range = 0 then some empty
  else do
    let above ← checkedInt (d.value-d.min)
    checkedInt ((above*whole).tdiv range)

def rsRender (area : Rect) (d : RangeSliderData) : Option SliderPicture := do
  let freeW ← checkedInt (area.w-2)
  let freeH ← checkedInt (area.h-2)
  let boxW := if freeW < 50 then freeW else 50
  let boxH := if freeH < 7 then freeH else 7
  let _ ← checkedInt (boxW-2)
  let range ← checkedInt (d.max-d.min)
  let inner ← checkedInt (boxW-4)
  let barW := if inner < 3 then 3 else inner
  let pos ← scaled d range (barW-1) 0
  let bar ← drawBar barW pos
  let pct ← scaled d range 100 100
  let _ ← checkedInt (boxH-2)
  let leftW ← checkedInt (area.w-boxW)
  let leftH ← checkedInt (area.h-boxH)
  some {
    box := ⟨leftW.tdiv 2,leftH.tdiv 2,boxW,boxH⟩
    title := d.title
    bar := bar
    label := (d.label++bytes ": "++Fil.intText d.value++bytes " ("++Fil.intText pct++
      bytes "%)").take 127 }

def take (s : Option RangeSliderData) (ev : Event) : Option RangeSliderData :=
  s.bind fun d => (rsHandleEvent ev d).map Prod.snd

/-- No sum was too large, the picture can be drawn, and Enter answers with a number
within the limits. -/
def Sound (area : Rect) (min max : ℤ) (s : Option RangeSliderData) : Prop :=
  ∃ d, s = some d ∧ (rsRender area d).isSome ∧
    ∀ ch, ∃ n : ℤ, min ≤ n ∧ n ≤ max ∧
      rsHandleEvent (.key .keyEnter ch) d =
        some (answered (.number ⟨n < 0,n.natAbs,0⟩),d)

/-- The value is within the limits, and they are no further apart than an `int`. -/
structure Placed (min max value : ℤ) : Prop where
  lower : min ≤ value
  upper : value ≤ max
  range : max-min < 2^31

/-- The area is not so far below zero that the frame cannot be subtracted. -/
def Roomy (area : Rect) : Prop := -2^31+6 ≤ area.w ∧ -2^31+4 ≤ area.h

/-- The smallest number is not made smaller, and the largest not larger. -/
def Steps (s : Option RangeSliderData) : Event → Prop
  | .key .keyLeft _ => ∀ d ∈ s, d.value ≠ -2^31
  | .key .keyRight _ => ∀ d ∈ s, d.value ≠ 2^31-1
  | _ => True

theorem checkedInt_eq_some_iff {n m : ℤ} : checkedInt n = some m ↔ (-2^31 ≤ n ∧ n < 2^31) ∧ n = m := by
  unfold checkedInt
  split_ifs with h
  · rw [Option.some_inj,and_iff_right h]
  · exact iff_of_false (fun he => by cases he) fun he => h he.1

theorem scaled_eq {d : RangeSliderData} (hd : Placed d.min d.max d.value) {whole empty : ℤ}
    (h₀ : 0 ≤ whole) (h₁ : whole < 2^31) (hempty : 0 ≤ empty ∧ empty ≤ whole) :
    ∃ part, scaled d (d.max-d.min) whole empty = some part ∧ 0 ≤ part ∧ part ≤ whole := by
  obtain ⟨hlower,hupper,hrange⟩ := hd
  unfold scaled
  split_ifs with hne
  · exact ⟨empty,rfl,hempty⟩
  · have hpos : 0 < d.max-d.min := by omega
    have hnonneg : 0 ≤ (d.value-d.min)*whole := Int.mul_nonneg (by omega) h₀
    have hpart₀ : 0 ≤ (d.value-d.min)*whole/(d.max-d.min) := Int.ediv_nonneg hnonneg hpos.le
    have hpart₁ : (d.value-d.min)*whole/(d.max-d.min) ≤ whole := by
      apply Int.ediv_le_of_le_mul hpos
      rw [mul_comm whole]
      exact Int.mul_le_mul_of_nonneg_right (by omega) h₀
    refine ⟨_,?_,hpart₀,hpart₁⟩
    rw [checkedInt_eq (by omega)]
    simp only [Option.bind_eq_bind,Option.bind_some]
    rw [Int.tdiv_eq_ediv_of_nonneg hnonneg,checkedInt_eq (by omega)]

/-- With the value between the limits, the marker is on the bar. -/
theorem rsRender_isSome {area : Rect} {d : RangeSliderData} (harea : Roomy area)
    (hw : area.w < 2^31) (hh : area.h < 2^31) (hd : Placed d.min d.max d.value) :
    (rsRender area d).isSome := by
  obtain ⟨hroomW,hroomH⟩ := harea
  have hrange := hd.range
  have hdiff : 0 ≤ d.max-d.min := by have := hd.lower; have := hd.upper; omega
  unfold rsRender
  rw [checkedInt_eq (by omega),checkedInt_eq (by omega)]
  simp only [Option.bind_eq_bind,Option.bind_some]
  have hboxW : -2^31+4 ≤ (if area.w-2 < 50 then area.w-2 else 50) ∧
      (if area.w-2 < 50 then area.w-2 else 50) ≤ 50 ∧
      2 ≤ area.w-(if area.w-2 < 50 then area.w-2 else 50) ∧
      area.w-(if area.w-2 < 50 then area.w-2 else 50) < 2^31 := by split_ifs <;> omega
  have hboxH : -2^31+2 ≤ (if area.h-2 < 7 then area.h-2 else 7) ∧
      (if area.h-2 < 7 then area.h-2 else 7) ≤ 7 ∧
      2 ≤ area.h-(if area.h-2 < 7 then area.h-2 else 7) ∧
      area.h-(if area.h-2 < 7 then area.h-2 else 7) < 2^31 := by split_ifs <;> omega
  generalize (if area.w-2 < 50 then area.w-2 else 50) = boxW at hboxW ⊢
  generalize (if area.h-2 < 7 then area.h-2 else 7) = boxH at hboxH ⊢
  rw [checkedInt_eq (by omega),Option.bind_some,checkedInt_eq (by omega),Option.bind_some,
    checkedInt_eq (by omega),Option.bind_some]
  have hbar : 3 ≤ (if boxW-4 < 3 then 3 else boxW-4) ∧
      (if boxW-4 < 3 then 3 else boxW-4) ≤ 46 := by split_ifs <;> omega
  generalize (if boxW-4 < 3 then 3 else boxW-4) = barW at hbar ⊢
  obtain ⟨pos,hpos,hpos₀,hpos₁⟩ := @scaled_eq d hd (barW-1) 0 (by omega) (by omega) (by omega)
  obtain ⟨pct,hpct,-⟩ := @scaled_eq d hd 100 100 (by omega) (by omega) (by omega)
  rw [hpos,Option.bind_some,drawBar,if_pos ⟨hpos₀,by omega⟩,Option.bind_some,hpct,
    Option.bind_some,checkedInt_eq (by omega),Option.bind_some,checkedInt_eq (by omega),
    Option.bind_some,checkedInt_eq (by omega),Option.bind_some]
  rfl

theorem roomy_of_rsRender {area : Rect} {d : RangeSliderData} (h : (rsRender area d).isSome) :
    Roomy area ∧ d.max-d.min < 2^31 := by
  obtain ⟨picture,h⟩ := Option.isSome_iff_exists.1 h
  unfold rsRender at h
  simp only [Option.bind_eq_bind,Option.bind_eq_some_iff,checkedInt_eq_some_iff] at h
  obtain ⟨_,⟨hw,rfl⟩,_,⟨hh,rfl⟩,_,-,_,⟨hrange,rfl⟩,_,⟨hinner,rfl⟩,_,-,_,-,_,-,_,⟨hboxH,rfl⟩,-⟩ := h
  refine ⟨⟨?_,?_⟩,hrange.2⟩
  · split_ifs at hinner with hlt <;> omega
  · split_ifs at hboxH with hlt <;> omega

theorem sound_iff {area : Rect} (hw : area.w < 2^31) (hh : area.h < 2^31) (d : RangeSliderData) :
    Sound area d.min d.max (some d) ↔ Roomy area ∧ Placed d.min d.max d.value := by
  constructor
  · rintro ⟨_,hd,hrender,henter⟩
    cases hd
    obtain ⟨n,hlower,hupper,hn⟩ := henter 0
    have hvalue : d.value = n := by
      simp only [rsHandleEvent,answered,Option.some.injEq,Prod.mk.injEq,EventResult.response.injEq,
        WidgetResponse.mk.injEq,Json.number.injEq,Decimal.mk.injEq,decide_eq_decide] at hn
      omega
    rw [← hvalue] at hlower hupper
    obtain ⟨hroomy,hrange⟩ := roomy_of_rsRender hrender
    exact ⟨hroomy,hlower,hupper,hrange⟩
  · rintro ⟨hroomy,hd⟩
    exact ⟨d,rfl,rsRender_isSome hroomy hw hh hd,fun _ => ⟨d.value,hd.lower,hd.upper,rfl⟩⟩

/-! ## Every run -/

/-- The limits of the slider, with a value between them. -/
def Kept (min max : ℤ) (s : Option RangeSliderData) : Prop :=
  ∃ d, s = some d ∧ d.min = min ∧ d.max = max ∧ Placed min max d.value

theorem kept_take {min max : Int32} {s : Option RangeSliderData} {ev : Event}
    (hs : Kept min.toInt max.toInt s) (hev : Steps s ev) :
    Kept min.toInt max.toInt (take s ev) := by
  obtain ⟨d,rfl,hmin,hmax,hd⟩ := hs
  have hlower := hd.lower
  have hupper := hd.upper
  have hleast := min.le_toInt
  have hmost := max.toInt_lt
  unfold take rsHandleEvent
  rw [Option.bind_some]
  split
  case h_2 =>
    have hvalue : d.value ≠ -2^31 := hev d rfl
    rw [checkedInt_eq (by omega)]
    refine ⟨_,rfl,hmin,hmax,?_,?_,hd.range⟩
    · dsimp only
      split_ifs <;> omega
    · dsimp only
      split_ifs <;> omega
  case h_3 =>
    have hvalue : d.value ≠ 2^31-1 := hev d rfl
    rw [checkedInt_eq (by omega)]
    refine ⟨_,rfl,hmin,hmax,?_,?_,hd.range⟩
    · dsimp only
      split_ifs <;> omega
    · dsimp only
      split_ifs <;> omega
  all_goals exact ⟨d,rfl,hmin,hmax,hd⟩

/-- A step that is not taken with care has no result. -/
theorem take_eq_none {d : RangeSliderData} {ev : Event} (h : ¬Steps (some d) ev) :
    take (some d) ev = none := by
  have hnone : ∀ n : ℤ, ¬(-2^31 ≤ n ∧ n < 2^31) → checkedInt n = none := fun n hn => if_neg hn
  unfold Steps at h
  split at h
  · simp only [Option.mem_def,Option.some_inj,forall_eq',not_not] at h
    unfold take rsHandleEvent
    rw [Option.bind_some,hnone (d.value-1) (by omega)]
    rfl
  · simp only [Option.mem_def,Option.some_inj,forall_eq',not_not] at h
    unfold take rsHandleEvent
    simp only [hnone (d.value+1) (by omega),Option.bind_some]
    rfl
  · exact absurd trivial h

/-- The slider stays within its limits, on its bar and in the numbers of an `int`, exactly
when it starts there and no key goes beyond the smallest or the largest number. -/
theorem slider_bounded_iff (title label : Bytes) (min max value x y w h : Int32)
    (evs : List Event) :
    Always take (Sound ⟨x.toInt,y.toInt,w.toInt,h.toInt⟩ min.toInt max.toInt)
      (some (rangeSliderWidgetNew title min.toInt max.toInt value.toInt label)) evs ↔
      Roomy ⟨x.toInt,y.toInt,w.toInt,h.toInt⟩ ∧ Placed min.toInt max.toInt value.toInt ∧
        Guarded take Steps
          (some (rangeSliderWidgetNew title min.toInt max.toInt value.toInt label)) evs := by
  have hsound := fun d : RangeSliderData =>
    @sound_iff ⟨x.toInt,y.toInt,w.toInt,h.toInt⟩ w.toInt_lt h.toInt_lt d
  by_cases hstart : Roomy ⟨x.toInt,y.toInt,w.toInt,h.toInt⟩ ∧ Placed min.toInt max.toInt value.toInt
  · obtain ⟨hroomy,hplaced⟩ := hstart
    rw [and_iff_right hroomy,and_iff_right hplaced]
    refine always_iff_guarded (I := Kept min.toInt max.toInt) ?_ (fun s ev => kept_take) ?_
      ⟨_,rfl,rfl,rfl,hplaced⟩ evs
    · rintro _ ⟨d,rfl,hmin,hmax,hd⟩
      rw [← hmin,← hmax] at hd ⊢
      exact (hsound d).2 ⟨hroomy,hd⟩
    · rintro _ ev ⟨d,rfl,-⟩ hev ⟨d',hd',-⟩
      rw [take_eq_none hev] at hd'
      cases hd'
  · refine iff_of_false (fun halways => hstart ?_) fun hcond => hstart ⟨hcond.1,hcond.2.1⟩
    exact (hsound _).1 halways.start

/-- A value above the limits is confirmed as it is. -/
theorem value_above_limits :
    ¬Always take (Sound ⟨0,0,80,24⟩ 0 10)
      (some (rangeSliderWidgetNew (bytes "Volume") 0 10 50 (bytes "Level")))
      [.key .keyEnter 0] := by
  intro h
  have hplaced := ((@sound_iff ⟨0,0,80,24⟩ (by decide) (by decide) _).1 h.start).2
  exact absurd hplaced.upper (by decide)

end Filly.RangeSlider

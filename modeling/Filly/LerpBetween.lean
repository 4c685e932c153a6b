import Filly.ProjectFile
import Filly.Singles
import Filly.StyleLerp

/-!
# Interpolated styles lie between the ends

A portion of a difference lies between zero and the difference, so an interpolated channel
lies between the two ends, and so does an interpolated `int` unless the difference
overflows. A style without shadows has no last one to lend, and a gradient without stops has
no last stop.
-/
namespace Filly.Animation
open Builder Calendar CJson Numerals Themes

/-! ## Portions -/

/-- Each portion of a difference lies between zero and the difference. -/
def Portions (rnd : ℚ → Option ℚ) (t : ℚ) : Prop :=
  ∀ d : ℤ, |d| ≤ 2^31 → portion rnd d t ∈ Set.uIcc 0 d

theorem toInt_some_mem {q : ℚ} {n : ℤ} (h0 : 0 ≤ q) (hn : q ≤ n) : toInt (some q) ∈ Set.uIcc 0 n := by
  have hfloor : ⌊q⌋ ≤ n := Int.floor_le_iff.2 (by linarith)
  rw [toInt,if_pos h0]
  exact Set.mem_uIcc.2 (Or.inl ⟨Int.floor_nonneg.2 h0,hfloor⟩)

theorem toInt_neg (q : ℚ) : toInt (some (-q)) = -toInt (some q) := by
  simp only [toInt]
  split_ifs with h₁ h₂ h₂
  · have hzero : q = 0 := by linarith
    rw [hzero]
    simp
  · rw [Int.floor_neg]
  · rw [Int.ceil_neg]
  · linarith

theorem mem_uIcc_neg {v n : ℤ} (h : v ∈ Set.uIcc 0 n) : -v ∈ Set.uIcc 0 (-n) := by
  rw [Set.mem_uIcc] at h ⊢
  omega

/-- The portions in single precision, at a single. -/
theorem portions_binary32 {t : ℚ} (ht : binary32 t = some t) (h0 : 0 < t) (h1 : t < 1) :
    Portions binary32 t := by
  intro d hd
  rw [abs_le] at hd
  obtain hpos | hneg := Int.le_total 0 d
  · obtain ⟨m,w,hm,hw,hw0,hwd⟩ := binary32_portion hpos hd.2 ht h0 h1
    rw [portion,hm,Option.bind_eq_bind,Option.bind_some,hw]
    exact toInt_some_mem hw0 hwd
  · obtain ⟨m,w,hm,hw,hw0,hwd⟩ := binary32_portion (n := -d) (by omega) (by omega) ht h0 h1
    have hm' : binary32 d = some (-m) := by
      rw [← neg_neg (d : ℚ),binary32_neg,← Int.cast_neg,hm]
      rfl
    have hw' : binary32 (-m*t) = some (-w) := by
      rw [neg_mul,binary32_neg,hw]
      rfl
    rw [portion,hm',Option.bind_eq_bind,Option.bind_some,hw',toInt_neg,← neg_neg d]
    exact mem_uIcc_neg (toInt_some_mem hw0 hwd)

/-- The portions in exact arithmetic. -/
theorem portions_exact {t : ℚ} (h0 : 0 < t) (h1 : t < 1) : Portions some t := by
  intro d _
  change toInt (some ((d : ℚ)*t)) ∈ Set.uIcc 0 d
  obtain hpos | hneg := Int.le_total 0 d
  · have hd : (0 : ℚ) ≤ d := by exact_mod_cast hpos
    exact toInt_some_mem (mul_nonneg hd h0.le) (mul_le_of_le_one_right hd h1.le)
  · have hd : (0 : ℚ) ≤ ((-d : ℤ) : ℚ) := by exact_mod_cast (by omega : 0 ≤ -d)
    have hmem := mem_uIcc_neg
      (toInt_some_mem (mul_nonneg hd h0.le) (mul_le_of_le_one_right hd h1.le))
    rwa [← toInt_neg,neg_neg,Int.cast_neg,neg_mul,neg_neg] at hmem

/-! ## What lies between two ends -/

structure ColorBetween (a b c : UInt32) : Prop where
  alpha : (alpha c).toNat ∈ Set.uIcc (alpha a).toNat (alpha b).toNat
  red : (red c).toNat ∈ Set.uIcc (red a).toNat (red b).toNat
  green : (green c).toNat ∈ Set.uIcc (green a).toNat (green b).toNat
  blue : (blue c).toNat ∈ Set.uIcc (blue a).toNat (blue b).toNat

structure ShadowBetween (a b s : ShadowLayer) : Prop where
  offsetX : s.offsetX ∈ Set.uIcc a.offsetX b.offsetX
  offsetY : s.offsetY ∈ Set.uIcc a.offsetY b.offsetY
  blur : s.blur ∈ Set.uIcc a.blur b.blur
  spread : s.spread ∈ Set.uIcc a.spread b.spread
  color : ColorBetween a.color b.color s.color

structure InsetsBetween (a b s : Insets) : Prop where
  first : s.first ∈ Set.uIcc a.first b.first
  second : s.second ∈ Set.uIcc a.second b.second
  third : s.third ∈ Set.uIcc a.third b.third
  fourth : s.fourth ∈ Set.uIcc a.fourth b.fourth

/-- Each element lies between those at its place, or the last ones. -/
structure ListBetween {α : Type} (between : α → α → α → Prop) (a b l : List α) : Prop where
  length : l.length = max a.length b.length
  element : ∀ i < max a.length b.length, ∃ x y z, elementOrLast a i = some x ∧
    elementOrLast b i = some y ∧ l[i]? = some z ∧ between x y z

structure StyleBetween (a b s : NodeStyle) : Prop where
  fgColor : ColorBetween a.fgColor b.fgColor s.fgColor
  bgColor : ColorBetween a.bgColor b.bgColor s.bgColor
  borderColor : ColorBetween a.borderColor b.borderColor s.borderColor
  accentColor : ColorBetween a.accentColor b.accentColor s.accentColor
  borderWidth : s.borderWidth ∈ Set.uIcc a.borderWidth b.borderWidth
  borderRadius : s.borderRadius ∈ Set.uIcc a.borderRadius b.borderRadius
  fontSize : s.fontSize ∈ Set.uIcc a.fontSize b.fontSize
  fontWeight : s.fontWeight ∈ Set.uIcc a.fontWeight b.fontWeight
  backdropBlur : s.backdropBlur ∈ Set.uIcc a.backdropBlur b.backdropBlur
  padding : InsetsBetween a.padding b.padding s.padding
  margin : InsetsBetween a.margin b.margin s.margin
  shadows : ListBetween ShadowBetween a.shadows b.shadows s.shadows
  stops : a.gradient.type ≠ .none → b.gradient.type ≠ .none →
    ListBetween (fun x y z => ColorBetween x.color y.color z.color) a.gradient.stops
      b.gradient.stops s.gradient.stops

/-! ## What the fields can hold -/

def IsInt (v : ℤ) : Prop := -2^31 ≤ v ∧ v < 2^31

instance (v : ℤ) : Decidable (IsInt v) := inferInstanceAs (Decidable (_ ∧ _))

structure ShadowHolds (s : ShadowLayer) : Prop where
  offsetX : IsInt s.offsetX
  offsetY : IsInt s.offsetY
  blur : IsInt s.blur
  spread : IsInt s.spread

structure InsetsHold (s : Insets) : Prop where
  first : IsInt s.first
  second : IsInt s.second
  third : IsInt s.third
  fourth : IsInt s.fourth

/-- Integers are of the type `int`, and the arrays have room for the layers and stops. -/
structure StyleHolds (s : NodeStyle) : Prop where
  borderWidth : IsInt s.borderWidth
  borderRadius : IsInt s.borderRadius
  fontSize : IsInt s.fontSize
  fontWeight : IsInt s.fontWeight
  backdropBlur : IsInt s.backdropBlur
  padding : InsetsHold s.padding
  margin : InsetsHold s.margin
  layers : ∀ layer ∈ s.shadows, ShadowHolds layer
  layers_le : s.shadows.length ≤ maxShadows
  stops_le : s.gradient.stops.length ≤ maxGradientStops

/-! ## When the code stays within its bounds -/

/-- The difference is an `int`. -/
def Fits (a b : ℤ) : Prop := IsInt (b-a)

instance (a b : ℤ) : Decidable (Fits a b) := inferInstanceAs (Decidable (IsInt (b-a)))

structure ShadowFits (a b : ShadowLayer) : Prop where
  offsetX : Fits a.offsetX b.offsetX
  offsetY : Fits a.offsetY b.offsetY
  blur : Fits a.blur b.blur
  spread : Fits a.spread b.spread

structure InsetsFit (a b : Insets) : Prop where
  first : Fits a.first b.first
  second : Fits a.second b.second
  third : Fits a.third b.third
  fourth : Fits a.fourth b.fourth

/-- Both lists are empty or neither is, and the elements that meet fit. -/
structure ListFits {α : Type} (fits : α → α → Prop) (a b : List α) : Prop where
  empty : a = [] ↔ b = []
  element : ∀ i < max a.length b.length, ∀ x y, elementOrLast a i = some x →
    elementOrLast b i = some y → fits x y

structure StyleFits (a b : NodeStyle) : Prop where
  borderWidth : Fits a.borderWidth b.borderWidth
  borderRadius : Fits a.borderRadius b.borderRadius
  fontSize : Fits a.fontSize b.fontSize
  fontWeight : Fits a.fontWeight b.fontWeight
  backdropBlur : Fits a.backdropBlur b.backdropBlur
  padding : InsetsFit a.padding b.padding
  margin : InsetsFit a.margin b.margin
  shadows : ListFits ShadowFits a.shadows b.shadows
  stops : a.gradient.type ≠ .none → b.gradient.type ≠ .none →
    (a.gradient.stops = [] ↔ b.gradient.stops = [])

/-! ## Colours and integers -/

section
variable {rnd : ℚ → Option ℚ} {t : ℚ} (hp : Portions rnd t) (h0 : 0 < t) (h1 : t < 1)
include hp

theorem channel_between {x y : UInt32} (hx : IsByte x) (hy : IsByte y) :
    IsByte (word (x.toNat+portion rnd (y.toNat-x.toNat) t)) ∧
      (word (x.toNat+portion rnd (y.toNat-x.toNat) t)).toNat ∈ Set.uIcc x.toNat y.toNat := by
  unfold IsByte at *
  have hd : |(y.toNat : ℤ)-x.toNat| ≤ 2^31 := abs_le.2 ⟨by omega,by omega⟩
  have hmem := Set.mem_uIcc.1 (hp _ hd)
  generalize portion rnd ((y.toNat : ℤ)-x.toNat) t = v at *
  have hword : (word (x.toNat+v)).toNat = (x.toNat+v).toNat := by
    rw [word,UInt32.toNat_ofNat',Nat.mod_eq_of_lt (by omega),Int.emod_eq_of_lt (by omega) (by omega)]
  rw [hword,Set.mem_uIcc]
  omega

include h0 h1

theorem animLerpColor_between (a b : UInt32) : ColorBetween a b (animLerpColor rnd a b t) := by
  have ha := channel_between hp (isByte_alpha a) (isByte_alpha b)
  have hr := channel_between hp (isByte_red a) (isByte_red b)
  have hg := channel_between hp (isByte_green a) (isByte_green b)
  have hb := channel_between hp (isByte_blue a) (isByte_blue b)
  rw [animLerpColor,if_neg (not_le.2 h0),if_neg (not_le.2 h1)]
  obtain ⟨halpha,hred,hgreen,hblue⟩ := channels_pack ha.1 hr.1 hg.1 hb.1
  exact ⟨halpha ▸ ha.2,hred ▸ hr.2,hgreen ▸ hg.2,hblue ▸ hb.2⟩

theorem animLerpInt_of_fits {a b : ℤ} (ha : IsInt a) (hb : IsInt b) (h : Fits a b) :
    ∃ v, animLerpInt rnd a b t = some v ∧ v ∈ Set.uIcc a b := by
  have hmem := Set.mem_uIcc.1 (hp (b-a) (abs_le.2 ⟨h.1,h.2.le⟩))
  unfold Fits IsInt at *
  rw [animLerpInt,if_neg (not_le.2 h0),if_neg (not_le.2 h1),checkedInt_eq h,Option.bind_eq_bind,
    Option.bind_some]
  generalize portion rnd (b-a) t = p at *
  refine ⟨a+p,checkedInt_eq (by omega),?_⟩
  rw [Set.mem_uIcc]
  omega

omit hp in
theorem fits_of_animLerpInt {a b v : ℤ} (h : animLerpInt rnd a b t = some v) : Fits a b := by
  rw [animLerpInt,if_neg (not_le.2 h0),if_neg (not_le.2 h1),Option.bind_eq_bind,
    Option.bind_eq_some_iff] at h
  obtain ⟨d,hd,_⟩ := h
  unfold checkedInt at hd
  split_ifs at hd with hfits
  exact hfits

end

/-! ## Lists -/

section
variable {α : Type} {f : α → α → Option α} {a b l : List α} {i : ℕ}

theorem elementOrLast_of_lt (h : i < a.length) : elementOrLast a i = some a[i] := by
  rw [elementOrLast,if_pos h,element,if_pos (by omega),Int.toNat_natCast,List.getElem?_eq_getElem h]

theorem elementOrLast_of_le (h : a.length ≤ i) (hne : a ≠ []) :
    elementOrLast a i = some (a.getLast hne) := by
  have hpos := List.length_pos_iff.2 hne
  rw [elementOrLast,if_neg (by omega),element,if_pos (by omega),
    show ((a.length : ℤ)-1).toNat = a.length-1 by omega,← List.getLast?_eq_getElem?,
    List.getLast?_eq_some_getLast hne]

theorem exists_elementOrLast_iff : (∃ x, elementOrLast a i = some x) ↔ a ≠ [] := by
  constructor
  · rintro ⟨x,hx⟩ rfl
    cases hx
  · intro hne
    by_cases h : i < a.length
    · exact ⟨_,elementOrLast_of_lt h⟩
    · exact ⟨_,elementOrLast_of_le (not_lt.1 h) hne⟩

theorem mem_of_elementOrLast {x : α} (h : elementOrLast a i = some x) : x ∈ a := by
  unfold elementOrLast element at h
  split_ifs at h
  · exact List.mem_of_getElem? h
  · exact List.mem_of_getElem? h

theorem lerpLists_eq_some_iff : lerpLists f a b = some l ↔
    l.length = max a.length b.length ∧ ∀ i < max a.length b.length, ∃ x y z,
      elementOrLast a i = some x ∧ elementOrLast b i = some y ∧ l[i]? = some z ∧ f x y = some z := by
  unfold lerpLists
  rw [mapM_eq_some_iff,List.forall₂_iff_get]
  simp only [List.length_range,List.get_eq_getElem,List.getElem_range,Option.bind_eq_bind,
    Option.bind_eq_some_iff]
  constructor
  · rintro ⟨hlen,hl⟩
    refine ⟨hlen.symm,fun i hi => ?_⟩
    obtain ⟨x,hx,y,hy,hz⟩ := hl i hi (hlen ▸ hi)
    exact ⟨x,y,_,hx,hy,List.getElem?_eq_getElem (hlen ▸ hi),hz⟩
  · rintro ⟨hlen,hl⟩
    refine ⟨hlen.symm,fun i hi hi' => ?_⟩
    obtain ⟨x,y,z,hx,hy,hz,hf⟩ := hl i hi
    rw [List.getElem?_eq_getElem hi',Option.some_inj] at hz
    exact ⟨x,hx,y,hy,hz ▸ hf⟩

variable {between : α → α → α → Prop} {fits : α → α → Prop}

theorem ListFits.ne_nil (h : ListFits fits a b) (hi : i < max a.length b.length) :
    a ≠ [] ∧ b ≠ [] := by
  rw [ne_eq,ne_eq,h.empty,and_self]
  intro hb
  rw [h.empty.2 hb,hb] at hi
  exact absurd hi (Nat.not_lt_zero i)

theorem lerpLists_of_fits
    (hf : ∀ x ∈ a, ∀ y ∈ b, fits x y → ∃ z, f x y = some z ∧ between x y z)
    (h : ListFits fits a b) : ∃ l, lerpLists f a b = some l ∧ ListBetween between a b l := by
  have hpair : ∀ i : Fin (max a.length b.length), ∃ z, ∃ x y, elementOrLast a i = some x ∧
      elementOrLast b i = some y ∧ f x y = some z ∧ between x y z := by
    intro i
    have hne := h.ne_nil i.2
    obtain ⟨x,hx⟩ := exists_elementOrLast_iff.2 hne.1
    obtain ⟨y,hy⟩ := exists_elementOrLast_iff.2 hne.2
    obtain ⟨z,hz⟩ := hf x (mem_of_elementOrLast hx) y (mem_of_elementOrLast hy)
      (h.element i i.2 x y hx hy)
    exact ⟨z,x,y,hx,hy,hz⟩
  choose z hz using hpair
  have hlen : (List.ofFn z).length = max a.length b.length := List.length_ofFn
  have hget : ∀ (i : ℕ) (hi : i < max a.length b.length),
      (List.ofFn z)[i]? = some (z ⟨i,hi⟩) := by
    intro i hi
    rw [List.getElem?_ofFn,dif_pos hi]
  refine ⟨List.ofFn z,lerpLists_eq_some_iff.2 ⟨hlen,fun i hi => ?_⟩,hlen,fun i hi => ?_⟩
  · obtain ⟨x,y,hx,hy,hfz,_⟩ := hz ⟨i,hi⟩
    exact ⟨x,y,_,hx,hy,hget i hi,hfz⟩
  · obtain ⟨x,y,hx,hy,_,hb⟩ := hz ⟨i,hi⟩
    exact ⟨x,y,_,hx,hy,hget i hi,hb⟩

theorem fits_of_lerpLists (hf : ∀ x y z, f x y = some z → fits x y) (h : lerpLists f a b = some l) :
    ListFits fits a b := by
  obtain ⟨_,hl⟩ := lerpLists_eq_some_iff.1 h
  constructor
  · have hne : 0 < max a.length b.length → a ≠ [] ∧ b ≠ [] := by
      intro hpos
      obtain ⟨x,y,_,hx,hy,_⟩ := hl 0 hpos
      exact ⟨exists_elementOrLast_iff.1 ⟨x,hx⟩,exists_elementOrLast_iff.1 ⟨y,hy⟩⟩
    rw [lt_max_iff,List.length_pos_iff,List.length_pos_iff] at hne
    tauto
  · intro i hi x y hx hy
    obtain ⟨x',y',z,hx',hy',_,hfz⟩ := hl i hi
    rw [hx,Option.some_inj] at hx'
    rw [hy,Option.some_inj] at hy'
    rw [hx',hy']
    exact hf x' y' z hfz

end

/-! ## Styles -/

section
variable {rnd : ℚ → Option ℚ} {t : ℚ} (hp : Portions rnd t) (h0 : 0 < t) (h1 : t < 1)
include h0 h1

theorem fits_of_lerpShadow {a b s : ShadowLayer} (h : lerpShadow rnd t a b = some s) :
    ShadowFits a b := by
  simp only [lerpShadow,Option.bind_eq_bind,Option.bind_eq_some_iff] at h
  obtain ⟨_,hx,_,hy,_,hblur,_,hspread,_⟩ := h
  exact ⟨fits_of_animLerpInt h0 h1 hx,fits_of_animLerpInt h0 h1 hy,
    fits_of_animLerpInt h0 h1 hblur,fits_of_animLerpInt h0 h1 hspread⟩

theorem fits_of_lerpInsets {a b s : Insets} (h : lerpInsets rnd a b t = some s) : InsetsFit a b := by
  simp only [lerpInsets,Option.bind_eq_bind,Option.bind_eq_some_iff] at h
  obtain ⟨_,hfirst,_,hsecond,_,hthird,_,hfourth,_⟩ := h
  exact ⟨fits_of_animLerpInt h0 h1 hfirst,fits_of_animLerpInt h0 h1 hsecond,
    fits_of_animLerpInt h0 h1 hthird,fits_of_animLerpInt h0 h1 hfourth⟩

theorem fits_of_animLerpStyle {a b s : NodeStyle} (h : animLerpStyle rnd a b t = some s) :
    StyleFits a b := by
  rw [animLerpStyle,if_neg (not_le.2 h0),if_neg (not_le.2 h1)] at h
  simp only [Option.bind_eq_bind,Option.bind_eq_some_iff] at h
  obtain ⟨_,hwidth,_,hradius,_,hsize,_,hweight,_,hblur,_,hshadows,_,_,_,hgradient,_,hpadding,_,
    hmargin,_⟩ := h
  refine ⟨fits_of_animLerpInt h0 h1 hwidth,fits_of_animLerpInt h0 h1 hradius,
    fits_of_animLerpInt h0 h1 hsize,fits_of_animLerpInt h0 h1 hweight,
    fits_of_animLerpInt h0 h1 hblur,fits_of_lerpInsets h0 h1 hpadding,
    fits_of_lerpInsets h0 h1 hmargin,
    fits_of_lerpLists (fun _ _ _ => fits_of_lerpShadow h0 h1) hshadows,fun ha hb => ?_⟩
  rw [lerpGradient,if_pos ⟨ha,hb⟩,Option.bind_eq_bind,Option.bind_eq_some_iff] at hgradient
  obtain ⟨_,hstops,_⟩ := hgradient
  have hlists : ListFits (fun _ _ => True) a.gradient.stops b.gradient.stops :=
    fits_of_lerpLists (fun _ _ _ _ => trivial) hstops
  exact hlists.empty

include hp

theorem lerpShadow_of_fits {a b : ShadowLayer} (ha : ShadowHolds a)
    (hb : ShadowHolds b) (h : ShadowFits a b) :
    ∃ s, lerpShadow rnd t a b = some s ∧ ShadowBetween a b s := by
  obtain ⟨_,hx,hx'⟩ := animLerpInt_of_fits hp h0 h1 ha.offsetX hb.offsetX h.offsetX
  obtain ⟨_,hy,hy'⟩ := animLerpInt_of_fits hp h0 h1 ha.offsetY hb.offsetY h.offsetY
  obtain ⟨_,hblur,hblur'⟩ := animLerpInt_of_fits hp h0 h1 ha.blur hb.blur h.blur
  obtain ⟨_,hspread,hspread'⟩ := animLerpInt_of_fits hp h0 h1 ha.spread hb.spread h.spread
  refine ⟨_,by simp only [lerpShadow,hx,hy,hblur,hspread,Option.bind_eq_bind,Option.bind_some]; rfl,
    hx',hy',hblur',hspread',animLerpColor_between hp h0 h1 a.color b.color⟩

theorem lerpInsets_of_fits {a b : Insets} (ha : InsetsHold a) (hb : InsetsHold b)
    (h : InsetsFit a b) : ∃ s, lerpInsets rnd a b t = some s ∧ InsetsBetween a b s := by
  obtain ⟨_,hfirst,hfirst'⟩ := animLerpInt_of_fits hp h0 h1 ha.first hb.first h.first
  obtain ⟨_,hsecond,hsecond'⟩ := animLerpInt_of_fits hp h0 h1 ha.second hb.second h.second
  obtain ⟨_,hthird,hthird'⟩ := animLerpInt_of_fits hp h0 h1 ha.third hb.third h.third
  obtain ⟨_,hfourth,hfourth'⟩ := animLerpInt_of_fits hp h0 h1 ha.fourth hb.fourth h.fourth
  refine ⟨_,by simp only [lerpInsets,hfirst,hsecond,hthird,hfourth,Option.bind_eq_bind,
    Option.bind_some]; rfl,hfirst',hsecond',hthird',hfourth'⟩

theorem lerpStop_between (x y : GradientStop) :
    ∃ z, lerpStop rnd t x y = some z ∧ ColorBetween x.color y.color z.color :=
  ⟨_,rfl,animLerpColor_between hp h0 h1 x.color y.color⟩

theorem lerpGradient_of_fits {a b : Gradient} (h : a.type ≠ .none → b.type ≠ .none →
    (a.stops = [] ↔ b.stops = [])) :
    ∃ g, lerpGradient rnd a b t = some g ∧ (a.type ≠ .none → b.type ≠ .none →
      ListBetween (fun x y z => ColorBetween x.color y.color z.color) a.stops b.stops g.stops) := by
  unfold lerpGradient
  by_cases hboth : a.type ≠ .none ∧ b.type ≠ .none
  · have hlists : ListFits (fun _ _ => True) a.stops b.stops :=
      ⟨h hboth.1 hboth.2,fun _ _ _ _ _ _ => trivial⟩
    obtain ⟨l,hl,hbetween⟩ :=
      lerpLists_of_fits (fun x _ y _ _ => lerpStop_between hp h0 h1 x y) hlists
    rw [if_pos hboth]
    refine ⟨_,by rw [hl,Option.bind_eq_bind,Option.bind_some]; rfl,fun _ _ => hbetween⟩
  · rw [if_neg hboth]
    exact ⟨a,rfl,fun ha hb => absurd ⟨ha,hb⟩ hboth⟩

theorem animLerpStyle_of_fits {a b : NodeStyle} (ha : StyleHolds a) (hb : StyleHolds b)
    (h : StyleFits a b) : ∃ s, animLerpStyle rnd a b t = some s ∧ StyleBetween a b s := by
  obtain ⟨_,hwidth,hwidth'⟩ :=
    animLerpInt_of_fits hp h0 h1 ha.borderWidth hb.borderWidth h.borderWidth
  obtain ⟨_,hradius,hradius'⟩ :=
    animLerpInt_of_fits hp h0 h1 ha.borderRadius hb.borderRadius h.borderRadius
  obtain ⟨_,hsize,hsize'⟩ := animLerpInt_of_fits hp h0 h1 ha.fontSize hb.fontSize h.fontSize
  obtain ⟨_,hweight,hweight'⟩ :=
    animLerpInt_of_fits hp h0 h1 ha.fontWeight hb.fontWeight h.fontWeight
  obtain ⟨_,hblur,hblur'⟩ :=
    animLerpInt_of_fits hp h0 h1 ha.backdropBlur hb.backdropBlur h.backdropBlur
  obtain ⟨l,hl,hl'⟩ := lerpLists_of_fits
    (fun x hx y hy => lerpShadow_of_fits hp h0 h1 (ha.layers x hx) (hb.layers y hy)) h.shadows
  obtain ⟨_,hgradient,hgradient'⟩ := lerpGradient_of_fits hp h0 h1 h.stops
  obtain ⟨_,hpadding,hpadding'⟩ := lerpInsets_of_fits hp h0 h1 ha.padding hb.padding h.padding
  obtain ⟨_,hmargin,hmargin'⟩ := lerpInsets_of_fits hp h0 h1 ha.margin hb.margin h.margin
  have hroom : intoArray maxShadows l = some l :=
    if_pos (hl'.length ▸ max_le ha.layers_le hb.layers_le)
  have hcolor := animLerpColor_between hp h0 h1
  rw [animLerpStyle,if_neg (not_le.2 h0),if_neg (not_le.2 h1)]
  refine ⟨_,by simp only [hwidth,hradius,hsize,hweight,hblur,hl,hroom,hgradient,hpadding,
    hmargin,Option.bind_eq_bind,Option.bind_some]; rfl,?_⟩
  exact ⟨hcolor _ _,hcolor _ _,hcolor _ _,hcolor _ _,hwidth',hradius',hsize',hweight',hblur',
    hpadding',hmargin',hl',hgradient'⟩

end

/-- In single precision the interpolation is defined and stays between its ends exactly when
both styles have shadows or neither has, the stops of two gradients likewise, and no
difference overflows. -/
theorem style_between_iff {a b : NodeStyle} (ha : StyleHolds a) (hb : StyleHolds b)
    {t : ℚ} (ht : binary32 t = some t) (h0 : 0 < t) (h1 : t < 1) :
    (∃ s, animLerpStyle binary32 a b t = some s ∧ StyleBetween a b s) ↔ StyleFits a b := by
  constructor
  · rintro ⟨s,hs,_⟩
    exact fits_of_animLerpStyle h0 h1 hs
  · exact animLerpStyle_of_fits (portions_binary32 ht h0 h1) h0 h1 ha hb

/-! ## Styles of a theme -/

theorem isInt_valueint (d : Decimal) : IsInt d.valueint := by
  unfold IsInt Decimal.valueint
  dsimp only
  split_ifs <;> omega

theorem isInt_parseInt (o : Json) (key : Bytes) {default : ℤ} (h : IsInt default) :
    IsInt (parseInt o key default) := by
  unfold parseInt intMember
  split
  · exact isInt_valueint _
  · exact h

theorem shadowMember_holds {vars : List Variable} {o : Json} {l : List ShadowLayer}
    (h : shadowMember vars o = some l) : (∀ s ∈ l, ShadowHolds s) ∧ l.length ≤ maxShadows := by
  unfold shadowMember at h
  split at h
  · cases h
    constructor
    · intro s hs
      obtain ⟨sh,_,rfl⟩ := List.mem_map.1 hs
      exact ⟨isInt_parseInt _ _ (by decide),isInt_parseInt _ _ (by decide),
        isInt_parseInt _ _ (by decide),isInt_parseInt _ _ (by decide)⟩
    · rw [List.length_map]
      exact List.length_take_le 4 _
  · dsimp only at h
    split_ifs at h
    cases h
    constructor
    · intro s hs
      cases List.mem_singleton.1 hs
      exact ⟨isInt_parseInt _ _ (by decide),isInt_parseInt _ _ (by decide),
        isInt_parseInt _ _ (by decide),isInt_parseInt _ _ (by decide)⟩
    · exact Nat.one_le_ofNat

theorem gradientMember_stops_le {vars : List Variable} {o : Json} {bgColor : UInt32} {g : Gradient}
    (h : gradientMember vars o bgColor = some g) : g.stops.length ≤ maxGradientStops := by
  unfold gradientMember at h
  split at h
  · cases h
    dsimp only
    rw [List.length_map]
    exact List.length_take_le 8 _
  · cases h
    exact Nat.le_of_ble_eq_true rfl
  · cases h
    exact Nat.zero_le _
  · cases h

theorem insetsMember_holds {o : Json} {key : Bytes} {v : Insets} (h : insetsMember o key = some v) :
    InsetsHold v := by
  have hvalue : ∀ j : Json, IsInt j.valueint := by
    intro j
    unfold Json.valueint
    split
    · decide
    · exact isInt_valueint _
    · decide
  unfold insetsMember at h
  split at h
  · cases h
    exact ⟨hvalue _,hvalue _,hvalue _,hvalue _⟩
  · cases h
    exact ⟨isInt_valueint _,isInt_valueint _,isInt_valueint _,isInt_valueint _⟩
  · cases h

theorem holds_getD {α : Type} {P : α → Prop} {o : Option α} {default : α}
    (h : ∀ a, o = some a → P a) (hdefault : P default) : P (o.getD default) := by
  cases o with
  | none => exact hdefault
  | some a => exact h a rfl

/-- What the theme parser makes is a style. -/
theorem parseWidgetStyle_holds (vars : List Variable) (obj : Json) :
    StyleHolds (ofTheme (parseWidgetStyle vars obj)) where
  borderWidth := isInt_parseInt _ _ (by decide)
  borderRadius := isInt_parseInt _ _ (by decide)
  fontSize := isInt_parseInt _ _ (by decide)
  fontWeight := isInt_parseInt _ _ (by decide)
  backdropBlur := isInt_parseInt _ _ (by decide)
  padding := holds_getD (fun _ => insetsMember_holds) ⟨by decide,by decide,by decide,by decide⟩
  margin := holds_getD (fun _ => insetsMember_holds) ⟨by decide,by decide,by decide,by decide⟩
  layers := holds_getD (P := fun l => ∀ s ∈ l, ShadowHolds s) (fun _ h => (shadowMember_holds h).1)
    fun _ h => absurd h List.not_mem_nil
  layers_le := holds_getD (P := fun l => l.length ≤ maxShadows)
    (fun _ h => (shadowMember_holds h).2) (Nat.zero_le _)
  stops_le := holds_getD (P := fun g : Gradient => g.stops.length ≤ maxGradientStops)
    (fun _ => gradientMember_stops_le) (Nat.zero_le _)

/-- The style of a rule with one member. -/
def ruleStyle (key : String) (value : Json) : NodeStyle :=
  ofTheme (parseWidgetStyle [] (.object [(bytes key,value)]))

/-- Half way from one shadow to two. -/
theorem one_shadow_to_two :
    ∃ s, animLerpStyle binary32 (ruleStyle "shadow" (.array [.object []]))
        (ruleStyle "shadow" (.array [.object [],.object []])) (1/2) = some s ∧
      StyleBetween (ruleStyle "shadow" (.array [.object []]))
        (ruleStyle "shadow" (.array [.object [],.object []])) s := by
  refine (style_between_iff (parseWidgetStyle_holds _ _) (parseWidgetStyle_holds _ _)
    (by decide +kernel) (by norm_num) (by norm_num)).2 ?_
  have hshadows : ListFits ShadowFits (ruleStyle "shadow" (.array [.object []])).shadows
      (ruleStyle "shadow" (.array [.object [],.object []])).shadows := by
    refine ⟨by decide +kernel,fun i _ x y hx hy => ?_⟩
    cases List.mem_singleton.1 (mem_of_elementOrLast hx)
    have hlayer := List.eq_of_mem_replicate (n := 2) (mem_of_elementOrLast hy)
    rw [hlayer]
    exact ⟨by decide,by decide,by decide,by decide⟩
  exact ⟨by decide,by decide,by decide,by decide,by decide,⟨by decide,by decide,by decide,by decide⟩,
    ⟨by decide,by decide,by decide,by decide⟩,hshadows,fun ha => absurd rfl ha⟩

/-- From no shadow to one, and from a gradient without stops to one with a stop. -/
theorem missing_layers_undefined :
    (¬∃ s, animLerpStyle binary32 (ruleStyle "shadow" (.array []))
        (ruleStyle "shadow" (.array [.object []])) (1/2) = some s ∧
      StyleBetween (ruleStyle "shadow" (.array [])) (ruleStyle "shadow" (.array [.object []])) s) ∧
    ¬∃ s, animLerpStyle binary32 (ruleStyle "bg_gradient" (.object []))
        (ruleStyle "bg_gradient" (.object [(bytes "stops",.array [.object []])])) (1/2) = some s ∧
      StyleBetween (ruleStyle "bg_gradient" (.object []))
        (ruleStyle "bg_gradient" (.object [(bytes "stops",.array [.object []])])) s := by
  constructor
  · rintro ⟨s,hs,_⟩
    have hempty := (fits_of_animLerpStyle (by norm_num) (by norm_num) hs).shadows.empty
    exact absurd hempty (by decide +kernel)
  · rintro ⟨s,hs,_⟩
    have hempty := (fits_of_animLerpStyle (by norm_num) (by norm_num) hs).stops
      (by decide +kernel) (by decide +kernel)
    exact absurd hempty (by decide +kernel)

end Filly.Animation

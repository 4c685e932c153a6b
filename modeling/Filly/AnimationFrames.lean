import Filly.Animation
import Filly.LerpBetween

/-!
# Single frames of an animation

A frame between two keyframes is drawn unless a difference of two integers overflows, and
the integers stay of the type `int`.
-/
namespace Filly.Animation
open Numerals Rectangles Themes

/-! ## What the fields can hold -/

structure RectHolds (r : Rect) : Prop where
  x : IsInt r.x
  y : IsInt r.y
  w : IsInt r.w
  h : IsInt r.h

structure DrawnHolds (n : Drawn) : Prop where
  rect : RectHolds n.rect
  style : StyleHolds n.resolvedStyle

structure KeyframeHolds (k : AnimKeyframe) : Prop where
  borderWidth : ∀ v, k.borderWidth = some v → IsInt v
  borderRadius : ∀ v, k.borderRadius = some v → IsInt v
  fontSize : ∀ v, k.fontSize = some v → IsInt v
  fontWeight : ∀ v, k.fontWeight = some v → IsInt v
  rect : ∀ r, k.rect = some r → RectHolds r

structure RectFits (a b : Rect) : Prop where
  x : Fits a.x b.x
  y : Fits a.y b.y
  w : Fits a.w b.w
  h : Fits a.h b.h

theorem withKeyframe_holds {k : AnimKeyframe} {s : NodeStyle} (hk : KeyframeHolds k)
    (hs : StyleHolds s) : StyleHolds (withKeyframe k s) :=
  { hs with
    borderWidth := holds_getD hk.borderWidth hs.borderWidth
    borderRadius := holds_getD hk.borderRadius hs.borderRadius
    fontSize := holds_getD hk.fontSize hs.fontSize
    fontWeight := holds_getD hk.fontWeight hs.fontWeight }

theorem isInt_of_mem_uIcc {a b v : ℤ} (ha : IsInt a) (hb : IsInt b) (h : v ∈ Set.uIcc a b) :
    IsInt v := by
  rw [Set.mem_uIcc] at h
  unfold IsInt at *
  omega

theorem insetsHold_of_between {a b s : Insets} (ha : InsetsHold a) (hb : InsetsHold b)
    (h : InsetsBetween a b s) : InsetsHold s :=
  ⟨isInt_of_mem_uIcc ha.first hb.first h.first,isInt_of_mem_uIcc ha.second hb.second h.second,
    isInt_of_mem_uIcc ha.third hb.third h.third,isInt_of_mem_uIcc ha.fourth hb.fourth h.fourth⟩

theorem shadowHolds_of_between {a b s : ShadowLayer} (ha : ShadowHolds a) (hb : ShadowHolds b)
    (h : ShadowBetween a b s) : ShadowHolds s :=
  ⟨isInt_of_mem_uIcc ha.offsetX hb.offsetX h.offsetX,
    isInt_of_mem_uIcc ha.offsetY hb.offsetY h.offsetY,isInt_of_mem_uIcc ha.blur hb.blur h.blur,
    isInt_of_mem_uIcc ha.spread hb.spread h.spread⟩

theorem forall_of_listBetween {α : Type} {between : α → α → α → Prop} {Q : α → Prop}
    {a b l : List α} (hQ : ∀ x ∈ a, ∀ y ∈ b, ∀ z, between x y z → Q z)
    (h : ListBetween between a b l) : ∀ z ∈ l, Q z := by
  intro z hz
  obtain ⟨i,hi,hget⟩ := List.mem_iff_getElem.1 hz
  obtain ⟨x,y,z',hx,hy,hz',hbetween⟩ := h.element i (h.length ▸ hi)
  rw [List.getElem?_eq_getElem hi,hget,Option.some_inj] at hz'
  exact hQ x (mem_of_elementOrLast hx) y (mem_of_elementOrLast hy) z (hz' ▸ hbetween)

section
variable {rnd : ℚ → Option ℚ} {t : ℚ}

theorem lerpGradient_stops_le {size : ℕ} {a b g : Gradient} (ha : a.stops.length ≤ size)
    (hb : b.stops.length ≤ size) (h : lerpGradient rnd a b t = some g) :
    g.stops.length ≤ size := by
  unfold lerpGradient at h
  split_ifs at h
  · rw [Option.bind_eq_bind,Option.bind_eq_some_iff] at h
    obtain ⟨l,hl,hg⟩ := h
    cases hg
    rw [(lerpLists_eq_some_iff.1 hl).1]
    exact max_le ha hb
  · cases h
    exact ha

theorem gradient_of_animLerpStyle {a b s : NodeStyle} (h0 : 0 < t) (h1 : t < 1)
    (h : animLerpStyle rnd a b t = some s) :
    lerpGradient rnd a.gradient b.gradient t = some s.gradient := by
  rw [animLerpStyle,if_neg (not_le.2 h0),if_neg (not_le.2 h1)] at h
  simp only [Option.bind_eq_bind,Option.bind_eq_some_iff] at h
  obtain ⟨_,_,_,_,_,_,_,_,_,_,_,_,_,_,_,hgradient,_,_,_,_,hs⟩ := h
  cases hs
  exact hgradient

theorem animLerpStyle_holds (hp : 0 < t → t < 1 → Portions rnd t) {a b s : NodeStyle}
    (ha : StyleHolds a) (hb : StyleHolds b) (h : animLerpStyle rnd a b t = some s) :
    StyleHolds s := by
  by_cases h0 : t ≤ 0
  · rw [animLerpStyle,if_pos h0] at h
    cases h
    exact ha
  by_cases h1 : 1 ≤ t
  · rw [animLerpStyle,if_neg h0,if_pos h1] at h
    cases h
    exact hb
  rw [not_le] at h0 h1
  have hgradient := gradient_of_animLerpStyle h0 h1 h
  obtain ⟨s',hs',hbetween⟩ :=
    animLerpStyle_of_fits (hp h0 h1) h0 h1 ha hb (fits_of_animLerpStyle h0 h1 h)
  rw [h,Option.some_inj] at hs'
  subst hs'
  exact {
    borderWidth := isInt_of_mem_uIcc ha.borderWidth hb.borderWidth hbetween.borderWidth
    borderRadius := isInt_of_mem_uIcc ha.borderRadius hb.borderRadius hbetween.borderRadius
    fontSize := isInt_of_mem_uIcc ha.fontSize hb.fontSize hbetween.fontSize
    fontWeight := isInt_of_mem_uIcc ha.fontWeight hb.fontWeight hbetween.fontWeight
    backdropBlur := isInt_of_mem_uIcc ha.backdropBlur hb.backdropBlur hbetween.backdropBlur
    padding := insetsHold_of_between ha.padding hb.padding hbetween.padding
    margin := insetsHold_of_between ha.margin hb.margin hbetween.margin
    layers := forall_of_listBetween
      (fun x hx y hy _ => shadowHolds_of_between (ha.layers x hx) (hb.layers y hy)) hbetween.shadows
    layers_le := hbetween.shadows.length ▸ max_le ha.layers_le hb.layers_le
    stops_le := lerpGradient_stops_le ha.stops_le hb.stops_le hgradient }

theorem animLerpInt_holds (hp : 0 < t → t < 1 → Portions rnd t) {a b v : ℤ} (ha : IsInt a)
    (hb : IsInt b) (h : animLerpInt rnd a b t = some v) : IsInt v := by
  by_cases h0 : t ≤ 0
  · rw [animLerpInt,if_pos h0] at h
    cases h
    exact ha
  by_cases h1 : 1 ≤ t
  · rw [animLerpInt,if_neg h0,if_pos h1] at h
    cases h
    exact hb
  rw [not_le] at h0 h1
  obtain ⟨v',hv',hbetween⟩ :=
    animLerpInt_of_fits (hp h0 h1) h0 h1 ha hb (fits_of_animLerpInt h0 h1 h)
  rw [h,Option.some_inj] at hv'
  exact isInt_of_mem_uIcc ha hb (hv' ▸ hbetween)

theorem animLerpRect_holds (hp : 0 < t → t < 1 → Portions rnd t) {a b r : Rect} (ha : RectHolds a)
    (hb : RectHolds b) (h : animLerpRect rnd a b t = some r) : RectHolds r := by
  simp only [animLerpRect,Option.bind_eq_bind,Option.bind_eq_some_iff] at h
  obtain ⟨_,hx,_,hy,_,hw,_,hh,hr⟩ := h
  cases hr
  exact ⟨animLerpInt_holds hp ha.x hb.x hx,animLerpInt_holds hp ha.y hb.y hy,
    animLerpInt_holds hp ha.w hb.w hw,animLerpInt_holds hp ha.h hb.h hh⟩

/-- The ends are always there, so only what is in between needs the condition. -/
theorem isSome_iff_between {α : Type} {o : Option α} {a b : α} {P : Prop}
    (ha : t ≤ 0 → o = some a) (hb : 0 < t → 1 ≤ t → o = some b)
    (hbetween : 0 < t → t < 1 → ((∃ v, o = some v) ↔ P)) :
    (∃ v, o = some v) ↔ (0 < t → t < 1 → P) := by
  by_cases h0 : t ≤ 0
  · exact iff_of_true ⟨a,ha h0⟩ fun h => absurd h (not_lt.2 h0)
  by_cases h1 : 1 ≤ t
  · exact iff_of_true ⟨b,hb (not_le.1 h0) h1⟩ fun _ h => absurd h (not_lt.2 h1)
  rw [not_le] at h0 h1
  exact (hbetween h0 h1).trans ⟨fun h _ _ => h,fun h => h h0 h1⟩

theorem animLerpInt_isSome_iff (hp : 0 < t → t < 1 → Portions rnd t) {a b : ℤ} (ha : IsInt a)
    (hb : IsInt b) : (∃ v, animLerpInt rnd a b t = some v) ↔ (0 < t → t < 1 → Fits a b) := by
  refine isSome_iff_between (b := b) (fun h => if_pos h) (fun h0 h1 => ?_) fun h0 h1 => ?_
  · rw [animLerpInt,if_neg (not_le.2 h0),if_pos h1]
  constructor
  · rintro ⟨v,hv⟩
    exact fits_of_animLerpInt h0 h1 hv
  · intro hfits
    obtain ⟨v,hv,_⟩ := animLerpInt_of_fits (hp h0 h1) h0 h1 ha hb hfits
    exact ⟨v,hv⟩

theorem animLerpStyle_isSome_iff (hp : 0 < t → t < 1 → Portions rnd t) {a b : NodeStyle}
    (ha : StyleHolds a) (hb : StyleHolds b) :
    (∃ s, animLerpStyle rnd a b t = some s) ↔ (0 < t → t < 1 → StyleFits a b) := by
  refine isSome_iff_between (b := b) (fun h => if_pos h) (fun h0 h1 => ?_) fun h0 h1 => ?_
  · rw [animLerpStyle,if_neg (not_le.2 h0),if_pos h1]
  constructor
  · rintro ⟨s,hs⟩
    exact fits_of_animLerpStyle h0 h1 hs
  · intro hfits
    obtain ⟨s,hs,_⟩ := animLerpStyle_of_fits (hp h0 h1) h0 h1 ha hb hfits
    exact ⟨s,hs⟩

theorem animLerpRect_isSome_iff (hp : 0 < t → t < 1 → Portions rnd t) {a b : Rect}
    (ha : RectHolds a) (hb : RectHolds b) :
    (∃ r, animLerpRect rnd a b t = some r) ↔ (0 < t → t < 1 → RectFits a b) := by
  have hx := animLerpInt_isSome_iff hp ha.x hb.x
  have hy := animLerpInt_isSome_iff hp ha.y hb.y
  have hw := animLerpInt_isSome_iff hp ha.w hb.w
  have hh := animLerpInt_isSome_iff hp ha.h hb.h
  constructor
  · rintro ⟨r,hr⟩ h0 h1
    simp only [animLerpRect,Option.bind_eq_bind,Option.bind_eq_some_iff] at hr
    obtain ⟨x,hx',y,hy',w,hw',h,hh',_⟩ := hr
    exact ⟨hx.1 ⟨x,hx'⟩ h0 h1,hy.1 ⟨y,hy'⟩ h0 h1,hw.1 ⟨w,hw'⟩ h0 h1,hh.1 ⟨h,hh'⟩ h0 h1⟩
  · intro hfits
    obtain ⟨x,hx'⟩ := hx.2 fun h0 h1 => (hfits h0 h1).x
    obtain ⟨y,hy'⟩ := hy.2 fun h0 h1 => (hfits h0 h1).y
    obtain ⟨w,hw'⟩ := hw.2 fun h0 h1 => (hfits h0 h1).w
    obtain ⟨h,hh'⟩ := hh.2 fun h0 h1 => (hfits h0 h1).h
    exact ⟨⟨x,y,w,h⟩,by simp only [animLerpRect,hx',hy',hw',hh',Option.bind_eq_bind,
      Option.bind_some]; rfl⟩

end

/-! ## The frame between two keyframes -/

/-- No integer that the frame interpolates overflows. -/
structure FrameFits (a b : AnimKeyframe) (n : Drawn) : Prop where
  rect : a.rect.isSome ∨ b.rect.isSome → RectFits (a.rect.getD n.rect) (b.rect.getD n.rect)
  style : StyleFits (withKeyframe a n.resolvedStyle) (withKeyframe b n.resolvedStyle)

variable {a b : AnimKeyframe} {n m : Drawn} {t : ℚ}

theorem between_eq (a b : AnimKeyframe) (t : ℚ) (n : Drawn) : between a b t n =
    (if a.rect.isSome ∨ b.rect.isSome then
      animLerpRect some (a.rect.getD n.rect) (b.rect.getD n.rect) t else some n.rect).bind fun rect =>
      (animLerpStyle some (withKeyframe a n.resolvedStyle) (withKeyframe b n.resolvedStyle) t).bind
        fun style => some ⟨rect,style,true⟩ := by
  unfold between
  cases a.rect <;> cases b.rect <;> rfl

theorem between_holds (ha : KeyframeHolds a) (hb : KeyframeHolds b) (hn : DrawnHolds n)
    (h : between a b t n = some m) : DrawnHolds m := by
  rw [between_eq,Option.bind_eq_some_iff] at h
  obtain ⟨rect,hrect,h⟩ := h
  obtain ⟨style,hstyle,h⟩ := Option.bind_eq_some_iff.1 h
  cases h
  refine ⟨?_,animLerpStyle_holds portions_exact (withKeyframe_holds ha hn.style)
    (withKeyframe_holds hb hn.style) hstyle⟩
  split_ifs at hrect
  · exact animLerpRect_holds portions_exact (holds_getD ha.rect hn.rect)
      (holds_getD hb.rect hn.rect) hrect
  · cases hrect
    exact hn.rect

theorem between_isSome_iff (ha : KeyframeHolds a) (hb : KeyframeHolds b) (hn : DrawnHolds n) :
    (∃ m, between a b t n = some m) ↔ (0 < t → t < 1 → FrameFits a b n) := by
  have hstyle := animLerpStyle_isSome_iff (t := t) portions_exact (withKeyframe_holds ha hn.style)
    (withKeyframe_holds hb hn.style)
  have hrect := animLerpRect_isSome_iff (t := t) portions_exact (holds_getD ha.rect hn.rect)
    (holds_getD hb.rect hn.rect)
  rw [between_eq]
  constructor
  · rintro ⟨m,hm⟩ h0 h1
    obtain ⟨r,hr,hm⟩ := Option.bind_eq_some_iff.1 hm
    obtain ⟨s,hs,_⟩ := Option.bind_eq_some_iff.1 hm
    refine ⟨fun hset => ?_,hstyle.1 ⟨s,hs⟩ h0 h1⟩
    rw [if_pos hset] at hr
    exact hrect.1 ⟨r,hr⟩ h0 h1
  · intro hfits
    obtain ⟨s,hs⟩ := hstyle.2 fun h0 h1 => (hfits h0 h1).style
    by_cases hset : a.rect.isSome ∨ b.rect.isSome
    · obtain ⟨r,hr⟩ := hrect.2 fun h0 h1 => (hfits h0 h1).rect hset
      exact ⟨⟨r,s,true⟩,by rw [if_pos hset,hr,Option.bind_some,hs,Option.bind_some]⟩
    · exact ⟨⟨n.rect,s,true⟩,by rw [if_neg hset,Option.bind_some,hs,Option.bind_some]⟩

end Filly.Animation

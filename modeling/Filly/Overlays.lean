import Filly.AnimationFrames

/-!
# Keyframes laid over a style

Two styles agree beside the keyframes when they become the same under all of them. A frame
keeps that agreement, and a keyframe that has every property of the others hides what was
drawn before.
-/
namespace Filly.Animation
open Numerals Rectangles Themes

/-! ## Overlays -/

/-- All the keyframes over a style, one after the other. -/
def withKeyframes (ks : List AnimKeyframe) (s : NodeStyle) : NodeStyle :=
  ks.foldl (fun s k => withKeyframe k s) s

/-- A property under all the keyframes. -/
def overlaid {α : Type} (property : AnimKeyframe → Option α) (ks : List AnimKeyframe) (v : α) : α :=
  ks.foldl (fun v k => (property k).getD v) v

/-- The keyframe has each property that the other one has. -/
structure Covers (a k : AnimKeyframe) : Prop where
  fgColor : k.fgColor.isSome → a.fgColor.isSome
  bgColor : k.bgColor.isSome → a.bgColor.isSome
  borderColor : k.borderColor.isSome → a.borderColor.isSome
  accentColor : k.accentColor.isSome → a.accentColor.isSome
  borderWidth : k.borderWidth.isSome → a.borderWidth.isSome
  borderRadius : k.borderRadius.isSome → a.borderRadius.isSome
  fontSize : k.fontSize.isSome → a.fontSize.isSome
  fontWeight : k.fontWeight.isSome → a.fontWeight.isSome
  opacity : k.opacity.isSome → a.opacity.isSome
  scale : k.scale.isSome → a.scale.isSome
  rotation : k.rotation.isSome → a.rotation.isSome
  translate : k.translate.isSome → a.translate.isSome
  rect : k.rect.isSome → a.rect.isSome

theorem getD_getD {α : Type} {o o' : Option α} (h : o'.isSome → o.isSome) (v : α) :
    o.getD (o'.getD v) = o.getD v := by
  cases o' with
  | none => rfl
  | some _ =>
      obtain ⟨w,hw⟩ := Option.isSome_iff_exists.1 (h rfl)
      rw [hw]
      rfl

/-- A covering keyframe hides the other one. -/
theorem Covers.hides {a k : AnimKeyframe} (h : Covers a k) (s : NodeStyle) :
    withKeyframe a (withKeyframe k s) = withKeyframe a s := by
  have hmap : ∀ {α β : Type} {o o' : Option α} (f : α → β), (o'.isSome → o.isSome) →
      (o'.map f).isSome → (o.map f).isSome := by
    intro α β o o' f hsome
    rwa [Option.isSome_map,Option.isSome_map]
  simp only [withKeyframe,getD_getD h.fgColor,getD_getD h.bgColor,getD_getD h.borderColor,
    getD_getD h.accentColor,getD_getD h.borderWidth,getD_getD h.borderRadius,getD_getD h.fontSize,
    getD_getD h.fontWeight,getD_getD h.opacity,getD_getD h.rotation,getD_getD (hmap _ h.scale),
    getD_getD (hmap _ h.translate)]

theorem hides_all {a : AnimKeyframe} {ks : List AnimKeyframe} (h : ∀ k ∈ ks, Covers a k)
    (s : NodeStyle) : withKeyframe a (withKeyframes ks s) = withKeyframe a s := by
  induction ks generalizing s with
  | nil => rfl
  | cons k ks ih =>
      rw [List.forall_mem_cons] at h
      rw [withKeyframes,List.foldl_cons,← withKeyframes,ih h.2,h.1.hides]

theorem overlaid_eq {α : Type} {property : AnimKeyframe → Option α} {ks : List AnimKeyframe}
    {v v' : α} (h : (∀ k ∈ ks, property k = none) → v' = v) :
    overlaid property ks v' = overlaid property ks v := by
  induction ks generalizing v v' with
  | nil => exact h fun _ hk => absurd hk List.not_mem_nil
  | cons k ks ih =>
      rw [overlaid,List.foldl_cons,overlaid,List.foldl_cons]
      refine ih fun hnone => ?_
      cases hk : property k with
      | none => exact h (List.forall_mem_cons.2 ⟨hk,hnone⟩)
      | some w => rfl

theorem withKeyframes_eq (ks : List AnimKeyframe) (s : NodeStyle) : withKeyframes ks s =
    { s with
      fgColor := overlaid AnimKeyframe.fgColor ks s.fgColor
      bgColor := overlaid AnimKeyframe.bgColor ks s.bgColor
      borderColor := overlaid AnimKeyframe.borderColor ks s.borderColor
      accentColor := overlaid AnimKeyframe.accentColor ks s.accentColor
      borderWidth := overlaid AnimKeyframe.borderWidth ks s.borderWidth
      borderRadius := overlaid AnimKeyframe.borderRadius ks s.borderRadius
      fontSize := overlaid AnimKeyframe.fontSize ks s.fontSize
      fontWeight := overlaid AnimKeyframe.fontWeight ks s.fontWeight
      opacity := overlaid AnimKeyframe.opacity ks s.opacity
      scaleX := overlaid (fun k => k.scale.map Prod.fst) ks s.scaleX
      scaleY := overlaid (fun k => k.scale.map Prod.snd) ks s.scaleY
      rotation := overlaid AnimKeyframe.rotation ks s.rotation
      translateX := overlaid (fun k => k.translate.map Prod.fst) ks s.translateX
      translateY := overlaid (fun k => k.translate.map Prod.snd) ks s.translateY } := by
  induction ks generalizing s with
  | nil => rfl
  | cons k ks ih => exact ih (withKeyframe k s)

/-! ## Interpolation between equal values -/

def IsFinite (v : Amount) : Prop := ∃ q, v = .finite q

/-- In exact arithmetic each float is a number. -/
structure Exact (s : NodeStyle) : Prop where
  opacity : IsFinite s.opacity
  scaleX : IsFinite s.scaleX
  scaleY : IsFinite s.scaleY
  rotation : IsFinite s.rotation
  translateX : IsFinite s.translateX
  translateY : IsFinite s.translateY
  angle : IsFinite s.gradient.angle
  centerX : IsFinite s.gradient.centerX
  centerY : IsFinite s.gradient.centerY
  offsets : ∀ stop ∈ s.gradient.stops, IsFinite stop.offset

structure KeyframeExact (k : AnimKeyframe) : Prop where
  opacity : ∀ v, k.opacity = some v → IsFinite v
  scale : ∀ v, k.scale = some v → IsFinite v.1 ∧ IsFinite v.2
  rotation : ∀ v, k.rotation = some v → IsFinite v
  translate : ∀ v, k.translate = some v → IsFinite v.1 ∧ IsFinite v.2

variable {t : ℚ}

theorem portion_zero (t : ℚ) : portion some 0 t = 0 := by
  change toInt (some (((0 : ℤ) : ℚ)*t)) = 0
  rw [Int.cast_zero,zero_mul]
  rfl

theorem animLerpInt_self {v v' : ℤ} (h : animLerpInt some v v t = some v') : v' = v := by
  unfold animLerpInt at h
  split_ifs at h
  · exact (Option.some.inj h).symm
  · exact (Option.some.inj h).symm
  · rw [Option.bind_eq_bind,Option.bind_eq_some_iff] at h
    obtain ⟨d,hd,h⟩ := h
    unfold Calendar.checkedInt at hd h
    split_ifs at hd h
    rw [← Option.some.inj hd,sub_self,portion_zero,add_zero] at h
    exact (Option.some.inj h).symm

theorem animLerpColor_self (c : UInt32) : animLerpColor some c c t = c := by
  unfold animLerpColor
  split_ifs
  · rfl
  · rfl
  · have hword : ∀ x : UInt32, word (x.toNat+portion some (x.toNat-x.toNat) t) = x := by
      intro x
      have hlt := x.toNat_lt
      rw [sub_self,portion_zero,add_zero,word,Int.emod_eq_of_lt (by omega) (by omega)]
      exact UInt32.ofNat_toNat
    simp only [hword]
    exact pack_channels c

theorem animLerpFloat_finite {a b : Amount} (ha : IsFinite a) (hb : IsFinite b) :
    IsFinite (animLerpFloat some a b t) := by
  obtain ⟨p,rfl⟩ := ha
  obtain ⟨q,rfl⟩ := hb
  unfold animLerpFloat
  split_ifs
  · exact ⟨p,rfl⟩
  · exact ⟨q,rfl⟩
  · exact ⟨_,rfl⟩

theorem animLerpFloat_self {a : Amount} (ha : IsFinite a) : animLerpFloat some a a t = a := by
  obtain ⟨q,rfl⟩ := ha
  unfold animLerpFloat
  split_ifs
  · rfl
  · rfl
  · change Amount.finite (q+(q+-q)*t) = .finite q
    rw [add_neg_cancel,zero_mul,add_zero]

theorem lerpShadow_self {a z : ShadowLayer} (h : lerpShadow some t a a = some z) : z = a := by
  simp only [lerpShadow,Option.bind_eq_bind,Option.bind_eq_some_iff] at h
  obtain ⟨_,hx,_,hy,_,hblur,_,hspread,hz⟩ := h
  cases hz
  rw [animLerpInt_self hx,animLerpInt_self hy,animLerpInt_self hblur,animLerpInt_self hspread,
    animLerpColor_self]

theorem lerpInsets_self {a z : Insets} (h : lerpInsets some a a t = some z) : z = a := by
  simp only [lerpInsets,Option.bind_eq_bind,Option.bind_eq_some_iff] at h
  obtain ⟨_,hfirst,_,hsecond,_,hthird,_,hfourth,hz⟩ := h
  cases hz
  rw [animLerpInt_self hfirst,animLerpInt_self hsecond,animLerpInt_self hthird,
    animLerpInt_self hfourth]

theorem lerpLists_self {α : Type} {f : α → α → Option α} {a l : List α}
    (hf : ∀ x ∈ a, ∀ z, f x x = some z → z = x) (h : lerpLists f a a = some l) : l = a := by
  obtain ⟨hlen,hl⟩ := lerpLists_eq_some_iff.1 h
  rw [max_self] at hlen hl
  refine List.ext_getElem hlen fun i hi hi' => ?_
  obtain ⟨x,y,z,hx,hy,hz,hfz⟩ := hl i hi'
  rw [elementOrLast_of_lt hi',Option.some_inj] at hx hy
  rw [List.getElem?_eq_getElem hi,Option.some_inj] at hz
  rw [← hx,← hy] at hfz
  rw [hz]
  exact hf _ (List.getElem_mem hi') z hfz

theorem lerpGradient_self {s : NodeStyle} (hs : Exact s) {g : Gradient}
    (h : lerpGradient some s.gradient s.gradient t = some g) : g = s.gradient := by
  unfold lerpGradient at h
  split_ifs at h
  · rw [Option.bind_eq_bind,Option.bind_eq_some_iff] at h
    obtain ⟨l,hl,hg⟩ := h
    cases hg
    have hstops : l = s.gradient.stops := by
      refine lerpLists_self (fun x hx z hz => ?_) hl
      cases hz
      rw [animLerpFloat_self (hs.offsets x hx),animLerpColor_self]
    rw [hstops,animLerpFloat_self hs.angle,animLerpFloat_self hs.centerX,
      animLerpFloat_self hs.centerY]
  · exact (Option.some.inj h).symm

/-! ## What a frame changes -/

/-- A property that neither keyframe has stays, and so does the rest of the style. -/
structure Touched (a b : AnimKeyframe) (s s' : NodeStyle) : Prop where
  fgColor : a.fgColor = none → b.fgColor = none → s'.fgColor = s.fgColor
  bgColor : a.bgColor = none → b.bgColor = none → s'.bgColor = s.bgColor
  borderColor : a.borderColor = none → b.borderColor = none → s'.borderColor = s.borderColor
  accentColor : a.accentColor = none → b.accentColor = none → s'.accentColor = s.accentColor
  borderWidth : a.borderWidth = none → b.borderWidth = none → s'.borderWidth = s.borderWidth
  borderRadius : a.borderRadius = none → b.borderRadius = none → s'.borderRadius = s.borderRadius
  fontSize : a.fontSize = none → b.fontSize = none → s'.fontSize = s.fontSize
  fontWeight : a.fontWeight = none → b.fontWeight = none → s'.fontWeight = s.fontWeight
  opacity : a.opacity = none → b.opacity = none → s'.opacity = s.opacity
  scaleX : a.scale = none → b.scale = none → s'.scaleX = s.scaleX
  scaleY : a.scale = none → b.scale = none → s'.scaleY = s.scaleY
  rotation : a.rotation = none → b.rotation = none → s'.rotation = s.rotation
  translateX : a.translate = none → b.translate = none → s'.translateX = s.translateX
  translateY : a.translate = none → b.translate = none → s'.translateY = s.translateY
  rest : { s' with
    fgColor := s.fgColor
    bgColor := s.bgColor
    borderColor := s.borderColor
    accentColor := s.accentColor
    borderWidth := s.borderWidth
    borderRadius := s.borderRadius
    fontSize := s.fontSize
    fontWeight := s.fontWeight
    opacity := s.opacity
    scaleX := s.scaleX
    scaleY := s.scaleY
    rotation := s.rotation
    translateX := s.translateX
    translateY := s.translateY } = s

variable {a b : AnimKeyframe} {s s' : NodeStyle}

theorem touched_first (a b : AnimKeyframe) (s : NodeStyle) : Touched a b s (withKeyframe a s) := by
  constructor
  case rest => rfl
  all_goals
    intro ha _
    simp only [withKeyframe,ha,Option.map_none,Option.getD_none]

theorem touched_second (a b : AnimKeyframe) (s : NodeStyle) : Touched a b s (withKeyframe b s) := by
  constructor
  case rest => rfl
  all_goals
    intro _ hb
    simp only [withKeyframe,hb,Option.map_none,Option.getD_none]

theorem touched_of_lerp (hs : Exact s)
    (h : animLerpStyle some (withKeyframe a s) (withKeyframe b s) t = some s') :
    Touched a b s s' := by
  unfold animLerpStyle at h
  split_ifs at h
  · cases h
    exact touched_first a b s
  · cases h
    exact touched_second a b s
  simp only [Option.bind_eq_bind,Option.bind_eq_some_iff] at h
  obtain ⟨_,hwidth,_,hradius,_,hsize,_,hweight,_,hblur,_,hlayers,_,hshadows,_,hgradient,_,hpadding,_,
    hmargin,h⟩ := h
  have hblur' := animLerpInt_self hblur
  have hlayers' := lerpLists_self (fun _ _ _ => lerpShadow_self) hlayers
  have hgradient' := lerpGradient_self hs hgradient
  have hpadding' := lerpInsets_self hpadding
  have hmargin' := lerpInsets_self hmargin
  unfold intoArray at hshadows
  split_ifs at hshadows
  cases hshadows
  cases h
  constructor
  case rest =>
    rw [hblur',hlayers',hgradient',hpadding',hmargin']
    rfl
  case borderWidth =>
    intro ha hb
    simp only [withKeyframe,ha,hb,Option.getD_none] at hwidth
    exact animLerpInt_self hwidth
  case borderRadius =>
    intro ha hb
    simp only [withKeyframe,ha,hb,Option.getD_none] at hradius
    exact animLerpInt_self hradius
  case fontSize =>
    intro ha hb
    simp only [withKeyframe,ha,hb,Option.getD_none] at hsize
    exact animLerpInt_self hsize
  case fontWeight =>
    intro ha hb
    simp only [withKeyframe,ha,hb,Option.getD_none] at hweight
    exact animLerpInt_self hweight
  case fgColor | bgColor | borderColor | accentColor =>
    intro ha hb
    simp only [withKeyframe,ha,hb,Option.getD_none,animLerpColor_self]
  all_goals
    intro ha hb
    simp only [withKeyframe,ha,hb,Option.map_none,Option.getD_none]
    apply animLerpFloat_self
  · exact hs.opacity
  · exact hs.scaleX
  · exact hs.scaleY
  · exact hs.rotation
  · exact hs.translateX
  · exact hs.translateY

theorem withKeyframe_exact {k : AnimKeyframe} (hk : KeyframeExact k) (hs : Exact s) :
    Exact (withKeyframe k s) := by
  have hmap : ∀ {o : Option (Amount × Amount)} (f : Amount × Amount → Amount) {v : Amount},
      (∀ w, o = some w → IsFinite (f w)) → IsFinite v → IsFinite ((o.map f).getD v) := by
    intro o f v ho hv
    cases o with
    | none => exact hv
    | some w => exact ho w rfl
  exact { hs with
    opacity := holds_getD hk.opacity hs.opacity
    scaleX := hmap Prod.fst (fun w hw => (hk.scale w hw).1) hs.scaleX
    scaleY := hmap Prod.snd (fun w hw => (hk.scale w hw).2) hs.scaleY
    rotation := holds_getD hk.rotation hs.rotation
    translateX := hmap Prod.fst (fun w hw => (hk.translate w hw).1) hs.translateX
    translateY := hmap Prod.snd (fun w hw => (hk.translate w hw).2) hs.translateY }

theorem exact_of_lerp (ha : KeyframeExact a) (hb : KeyframeExact b) (hs : Exact s)
    (h : animLerpStyle some (withKeyframe a s) (withKeyframe b s) t = some s') : Exact s' := by
  have hgradient : s'.gradient = s.gradient := by
    have hrest := congrArg (fun z : NodeStyle => z.gradient) (touched_of_lerp hs h).rest
    exact hrest
  have ha' := withKeyframe_exact ha hs
  have hb' := withKeyframe_exact hb hs
  unfold animLerpStyle at h
  split_ifs at h
  · exact Option.some.inj h ▸ ha'
  · exact Option.some.inj h ▸ hb'
  simp only [Option.bind_eq_bind,Option.bind_eq_some_iff] at h
  obtain ⟨_,_,_,_,_,_,_,_,_,_,_,_,_,_,_,_,_,_,_,_,h⟩ := h
  cases h
  exact {
    opacity := animLerpFloat_finite ha'.opacity hb'.opacity
    scaleX := animLerpFloat_finite ha'.scaleX hb'.scaleX
    scaleY := animLerpFloat_finite ha'.scaleY hb'.scaleY
    rotation := animLerpFloat_finite ha'.rotation hb'.rotation
    translateX := animLerpFloat_finite ha'.translateX hb'.translateX
    translateY := animLerpFloat_finite ha'.translateY hb'.translateY
    angle := hgradient ▸ hs.angle
    centerX := hgradient ▸ hs.centerX
    centerY := hgradient ▸ hs.centerY
    offsets := hgradient ▸ hs.offsets }

/-! ## Agreement beside the keyframes -/

/-- The same nodes under all the keyframes. -/
structure Agree (ks : List AnimKeyframe) (n m : Drawn) : Prop where
  style : withKeyframes ks n.resolvedStyle = withKeyframes ks m.resolvedStyle
  rect : overlaid AnimKeyframe.rect ks n.rect = overlaid AnimKeyframe.rect ks m.rect

variable {ks : List AnimKeyframe} {n m : Drawn}

/-- What a frame touches is hidden under the keyframes. -/
theorem Touched.hidden (h : Touched a b s s') (ha : a ∈ ks) (hb : b ∈ ks) :
    withKeyframes ks s' = withKeyframes ks s := by
  have hmap : ∀ {α β : Type} {o : Option α} (f : α → β), o.map f = none → o = none := by
    intro α β o f
    exact Option.map_eq_none_iff.1
  rw [withKeyframes_eq,withKeyframes_eq,
    overlaid_eq fun hnone => h.fgColor (hnone a ha) (hnone b hb),
    overlaid_eq fun hnone => h.bgColor (hnone a ha) (hnone b hb),
    overlaid_eq fun hnone => h.borderColor (hnone a ha) (hnone b hb),
    overlaid_eq fun hnone => h.accentColor (hnone a ha) (hnone b hb),
    overlaid_eq fun hnone => h.borderWidth (hnone a ha) (hnone b hb),
    overlaid_eq fun hnone => h.borderRadius (hnone a ha) (hnone b hb),
    overlaid_eq fun hnone => h.fontSize (hnone a ha) (hnone b hb),
    overlaid_eq fun hnone => h.fontWeight (hnone a ha) (hnone b hb),
    overlaid_eq fun hnone => h.opacity (hnone a ha) (hnone b hb),
    overlaid_eq fun hnone => h.scaleX (hmap _ (hnone a ha)) (hmap _ (hnone b hb)),
    overlaid_eq fun hnone => h.scaleY (hmap _ (hnone a ha)) (hmap _ (hnone b hb)),
    overlaid_eq fun hnone => h.rotation (hnone a ha) (hnone b hb),
    overlaid_eq fun hnone => h.translateX (hmap _ (hnone a ha)) (hmap _ (hnone b hb)),
    overlaid_eq fun hnone => h.translateY (hmap _ (hnone a ha)) (hmap _ (hnone b hb))]
  exact congrArg (fun z : NodeStyle => { z with
    fgColor := overlaid AnimKeyframe.fgColor ks s.fgColor
    bgColor := overlaid AnimKeyframe.bgColor ks s.bgColor
    borderColor := overlaid AnimKeyframe.borderColor ks s.borderColor
    accentColor := overlaid AnimKeyframe.accentColor ks s.accentColor
    borderWidth := overlaid AnimKeyframe.borderWidth ks s.borderWidth
    borderRadius := overlaid AnimKeyframe.borderRadius ks s.borderRadius
    fontSize := overlaid AnimKeyframe.fontSize ks s.fontSize
    fontWeight := overlaid AnimKeyframe.fontWeight ks s.fontWeight
    opacity := overlaid AnimKeyframe.opacity ks s.opacity
    scaleX := overlaid (fun k => k.scale.map Prod.fst) ks s.scaleX
    scaleY := overlaid (fun k => k.scale.map Prod.snd) ks s.scaleY
    rotation := overlaid AnimKeyframe.rotation ks s.rotation
    translateX := overlaid (fun k => k.translate.map Prod.fst) ks s.translateX
    translateY := overlaid (fun k => k.translate.map Prod.snd) ks s.translateY }) h.rest

/-- A frame keeps the agreement with where it began. -/
theorem agree_between (ha : a ∈ ks) (hb : b ∈ ks) (hn : Exact n.resolvedStyle)
    (h : between a b t n = some m) : Agree ks m n := by
  rw [between_eq,Option.bind_eq_some_iff] at h
  obtain ⟨rect,hrect,h⟩ := h
  obtain ⟨style,hstyle,h⟩ := Option.bind_eq_some_iff.1 h
  cases h
  refine ⟨(touched_of_lerp hn hstyle).hidden ha hb,overlaid_eq fun hnone => ?_⟩
  rw [if_neg (by simp [hnone a ha,hnone b hb])] at hrect
  exact (Option.some.inj hrect).symm

theorem exact_between (ha : KeyframeExact a) (hb : KeyframeExact b) (hn : Exact n.resolvedStyle)
    (h : between a b t n = some m) : Exact m.resolvedStyle := by
  rw [between_eq,Option.bind_eq_some_iff] at h
  obtain ⟨_,_,h⟩ := h
  obtain ⟨style,hstyle,h⟩ := Option.bind_eq_some_iff.1 h
  cases h
  exact exact_of_lerp ha hb hn hstyle

theorem overlaid_none {α : Type} {property : AnimKeyframe → Option α}
    (h : ∀ k ∈ ks, property k = none) (v : α) : overlaid property ks v = v := by
  induction ks with
  | nil => rfl
  | cons k ks ih =>
      rw [List.forall_mem_cons] at h
      rw [overlaid,List.foldl_cons,h.1]
      exact ih h.2

/-- Where both keyframes cover all the others, the frame hides what was drawn before. -/
theorem between_eq_of_agree (hca : ∀ k ∈ ks, Covers a k) (hcb : ∀ k ∈ ks, Covers b k)
    (h : Agree ks n m) : between a b t n = between a b t m := by
  have hstyle : ∀ {k : AnimKeyframe}, (∀ j ∈ ks, Covers k j) →
      withKeyframe k n.resolvedStyle = withKeyframe k m.resolvedStyle := by
    intro k hk
    rw [← hides_all hk n.resolvedStyle,h.style,hides_all hk]
  rw [between_eq,between_eq,hstyle hca,hstyle hcb]
  by_cases hrect : ∃ k ∈ ks, k.rect.isSome
  · obtain ⟨k,hk,hsome⟩ := hrect
    obtain ⟨r,hr⟩ := Option.isSome_iff_exists.1 ((hca k hk).rect hsome)
    obtain ⟨r',hr'⟩ := Option.isSome_iff_exists.1 ((hcb k hk).rect hsome)
    rw [hr,hr']
    rfl
  · have hnone : ∀ k ∈ ks, k.rect = none := by
      intro k hk
      rw [← Option.not_isSome_iff_eq_none]
      exact fun hsome => hrect ⟨k,hk,hsome⟩
    have heq := h.rect
    rw [overlaid_none hnone,overlaid_none hnone] at heq
    rw [heq]

end Filly.Animation

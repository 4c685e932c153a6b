import Filly.AnimationFrames
import Filly.Runs

/-!
# The life of an animation

An animation that is played on a node is updated at one time after another. The code leaves
it playing for ever when it is reversed, begins each pass at a frame and not at the end of
the one before, and does not draw the frame at which it notices the end.
-/
namespace Filly.Animation
open Rectangles Runs Themes

/-! ## What a life should be -/

/-- The number of times that the keyframes are gone through. -/
def passes (d : AnimationDef) : ℤ := if d.loop then max 1 d.repeatCount else 1

def totalTime (d : AnimationDef) : ℤ :=
  passes d*d.durationMs*(if d.autoReverse then 2 else 1)

/-- The last keyframe, or the first one of an animation that is reversed. -/
def finalKeyframe (d : AnimationDef) : Option AnimKeyframe :=
  if d.autoReverse then d.keyframes.head? else d.keyframes.getLast?

/-- The properties that the keyframe has are those of the node. -/
def Shows (k : AnimKeyframe) (n : Drawn) : Prop :=
  withKeyframe k n.resolvedStyle = n.resolvedStyle ∧ k.rect.getD n.rect = n.rect

/-- A node, and the last update of it. -/
structure Watched where
  node : Option AnimatedNode
  now : ℤ
  reduced : Bool

/-- An update at a time, with or without reduced motion. -/
def Watched.update (elastic : ℚ → ℚ) (w : Watched) (e : ℤ × Bool) : Watched :=
  ⟨w.node.bind fun n => animationUpdate elastic n e.1 e.2,e.1,e.2⟩

/-- The only animation of a node begins. -/
def played (d : AnimationDef) (n : Drawn) (start : ℤ) : Watched :=
  ⟨some (animationPlayCustom ⟨n,[]⟩ d start),start,false⟩

/-- After the total time, or an update with reduced motion, the animation has stopped, and
then the node shows the final keyframe. -/
def LifeKept (d : AnimationDef) (start : ℤ) (w : Watched) : Prop :=
  ∃ n inst, w.node = some n ∧ n.activeAnimations = [inst] ∧
    (totalTime d ≤ w.now-start ∨ w.reduced → inst.playing = false) ∧
    (inst.playing = false → ∀ k, finalKeyframe d = some k → Shows k n.toDrawn)

/-! ## The condition -/

/-- The code stops the animation at the frame. -/
def LastFrame (inst : AnimInstance) (now : ℤ) : Prop :=
  inst.definition.autoReverse = false ∧ 1 ≤ totalProgress inst now ∧
    ¬(inst.definition.loop ∧ (inst.definition.repeatCount < 0 ∨
      inst.loopIteration < inst.definition.repeatCount-1))

/-- No integer overflows between the keyframes around the progress. -/
def SegmentFits (elastic : ℚ → ℚ) (d : AnimationDef) (p : ℚ) (n : Drawn) : Prop :=
  ∀ a b, d.keyframes[(segment d p).1]? = some a → d.keyframes[(segment d p).2]? = some b →
    0 < easingApply elastic a.easing (segmentProgress d a b p) →
    easingApply elastic a.easing (segmentProgress d a b p) < 1 → FrameFits a b n

/-- What is drawn with reduced motion shows the first keyframe. -/
def ShowsFirst (d : AnimationDef) (n : Drawn) : Prop :=
  ∀ first last, d.keyframes.head? = some first → d.keyframes.getLast? = some last →
    Shows first ⟨last.rect.getD n.rect,withKeyframe last n.resolvedStyle,true⟩

/-- An update of a playing animation: with reduced motion a reversed one shows its first
keyframe in place of the last; the code stops it on a node that shows the last keyframe; at
every other frame the total time has not passed yet and no integer overflows. -/
def EndsWell (elastic : ℚ → ℚ) (d : AnimationDef) (start : ℤ) (w : Watched) (e : ℤ × Bool) : Prop :=
  ∀ n inst, w.node = some n → n.activeAnimations = [inst] → inst.playing →
    (e.2 → d.autoReverse → ShowsFirst d n.toDrawn) ∧
    (e.2 = false → LastFrame inst e.1 → ∀ k, finalKeyframe d = some k → Shows k n.toDrawn) ∧
    (e.2 = false → ¬LastFrame inst e.1 → e.1-start < totalTime d ∧
      ∀ p, (advance inst e.1).2 = some p → SegmentFits elastic d p n.toDrawn)

/-! ## One update -/

variable {elastic : ℚ → ℚ} {d : AnimationDef} {inst : AnimInstance} {n : Drawn} {now start : ℤ}

theorem advance_last (h : LastFrame inst now) :
    advance inst now = ({ inst with playing := false },none) := by
  unfold advance
  rw [if_neg (by rw [h.1]; exact Bool.false_ne_true),if_pos h.2.1,if_neg h.2.2]

theorem advance_on (h : ¬LastFrame inst now) : ∃ inst' p, advance inst now = (inst',some p) ∧
    inst'.definition = inst.definition ∧ inst'.playing = inst.playing ∧
    inst'.paused = inst.paused := by
  unfold advance
  dsimp only
  split_ifs with hreverse hend hturn hend hloop
  · exact ⟨_,_,rfl,rfl,rfl,rfl⟩
  · exact ⟨_,_,rfl,rfl,rfl,rfl⟩
  · exact ⟨_,_,rfl,rfl,rfl,rfl⟩
  · exact ⟨_,_,rfl,rfl,rfl,rfl⟩
  · exact absurd ⟨Bool.eq_false_iff.2 hreverse,hend,hloop⟩ h
  · exact ⟨_,_,rfl,rfl,rfl,rfl⟩

/-- The segment lies within the keyframes. -/
theorem exists_segment (h : d.keyframes ≠ []) (p : ℚ) : ∃ a b,
    d.keyframes[(segment d p).1]? = some a ∧ d.keyframes[(segment d p).2]? = some b := by
  have hpos := List.length_pos_iff.2 h
  unfold segment
  dsimp only
  split
  · next k hk =>
      have hlt := List.mem_range.1 (List.mem_of_find?_eq_some hk)
      exact ⟨_,_,List.getElem?_eq_getElem (by omega),List.getElem?_eq_getElem (by omega)⟩
  · exact ⟨_,_,List.getElem?_eq_getElem hpos,List.getElem?_eq_getElem (by omega)⟩

theorem typed_definition (inst : AnimInstance) (now : ℤ) :
    (typed inst now).definition = inst.definition ∧ (typed inst now).playing = inst.playing ∧
      (typed inst now).paused = inst.paused := by
  unfold typed
  split_ifs
  · exact ⟨rfl,rfl,rfl⟩
  · exact ⟨rfl,rfl,rfl⟩

theorem updateInstance_stopped (h : inst.playing = false) :
    updateInstance elastic now n inst = some (n,inst) := by
  unfold updateInstance
  rw [h]
  exact if_pos (Or.inl Bool.false_ne_true)

theorem updateInstance_last (hplaying : inst.playing) (hpaused : inst.paused = false)
    (hne : inst.definition.keyframes ≠ []) (h : LastFrame inst now) :
    updateInstance elastic now n inst =
      some ({ n with dirty := true },{ inst with playing := false }) := by
  unfold updateInstance
  rw [if_neg (by simp [hplaying,hpaused,hne]),advance_last h]

variable (elastic n) in
/-- A frame that is drawn. -/
theorem updateInstance_on (hplaying : inst.playing) (hpaused : inst.paused = false)
    (hne : inst.definition.keyframes ≠ []) (h : ¬LastFrame inst now) : ∃ p a b,
    (advance inst now).2 = some p ∧ inst.definition.keyframes[(segment inst.definition p).1]? = some a ∧
    inst.definition.keyframes[(segment inst.definition p).2]? = some b ∧
    ∃ inst' : AnimInstance, inst'.definition = inst.definition ∧ inst'.playing ∧
      inst'.paused = false ∧ updateInstance elastic now n inst =
        (between a b (easingApply elastic a.easing (segmentProgress inst.definition a b p)) n).map
          fun m => (m,inst') := by
  obtain ⟨inst₁,p,hadvance,hd,hplaying₁,hpaused₁⟩ := advance_on h
  obtain ⟨a,b,ha,hb⟩ := exists_segment hne p
  have htyped := typed_definition { inst₁ with
    currentKeyframe := (segment inst.definition p).1
    nextKeyframe := (segment inst.definition p).2
    segmentProgress := segmentProgress inst.definition a b p } now
  refine ⟨p,a,b,by rw [hadvance],ha,hb,_,htyped.1.trans hd,?_,?_,?_⟩
  · rw [htyped.2.1]
    exact hplaying₁.trans hplaying
  · rw [htyped.2.2]
    exact hpaused₁.trans hpaused
  · unfold updateInstance
    rw [if_neg (by simp [hplaying,hpaused,hne]),hadvance]
    simp only [ha,hb,Option.bind_eq_bind,Option.bind_some]
    cases between a b (easingApply elastic a.easing (segmentProgress inst.definition a b p)) n
    · rfl
    · rfl

/-- The node has one animation. -/
theorem animationUpdate_single {n : AnimatedNode} (h : n.activeAnimations = [inst]) :
    animationUpdate elastic n now false =
      (updateInstance elastic now n.toDrawn inst).map fun r => ⟨r.1,[r.2]⟩ := by
  unfold animationUpdate
  rw [h]
  cases hr : updateInstance elastic now n.toDrawn inst with
  | none => simp [updateAll,hr]
  | some r => simp [updateAll,hr]

theorem animationUpdate_reduced {n : AnimatedNode} (h : n.activeAnimations = [inst]) :
    animationUpdate elastic n now true =
      some ⟨(settleInstance n.toDrawn inst).1,[(settleInstance n.toDrawn inst).2]⟩ := by
  unfold animationUpdate
  rw [h]
  simp [updateAll]

theorem settleInstance_stopped (h : inst.playing = false) : settleInstance n inst = (n,inst) := by
  unfold settleInstance
  split
  · rfl
  · rw [if_neg (by simp [h])]

theorem settleInstance_playing {last : AnimKeyframe} (hplaying : inst.playing)
    (hpaused : inst.paused = false) (hlast : inst.definition.keyframes.getLast? = some last) :
    settleInstance n inst = (⟨last.rect.getD n.rect,withKeyframe last n.resolvedStyle,true⟩,
      { inst with playing := false }) := by
  unfold settleInstance
  rw [hlast]
  exact if_pos ⟨hplaying,by simp [hpaused]⟩

theorem withKeyframe_twice (k : AnimKeyframe) (s : NodeStyle) :
    withKeyframe k (withKeyframe k s) = withKeyframe k s := by
  have hgetD : ∀ {α : Type} (o : Option α) (v : α), o.getD (o.getD v) = o.getD v := by
    intro α o v
    cases o with
    | none => rfl
    | some v => rfl
  simp only [withKeyframe,hgetD]

/-- A keyframe that has been drawn shows. -/
theorem shows_drawn (k : AnimKeyframe) (n : Drawn) (dirty : Bool) :
    Shows k ⟨k.rect.getD n.rect,withKeyframe k n.resolvedStyle,dirty⟩ := by
  refine ⟨withKeyframe_twice k n.resolvedStyle,?_⟩
  dsimp only
  cases k.rect with
  | none => rfl
  | some r => rfl

/-! ## Runs -/

structure Lives (d : AnimationDef) (start : ℤ) (w : Watched) (n : AnimatedNode)
    (inst : AnimInstance) : Prop where
  node : w.node = some n
  single : n.activeAnimations = [inst]
  definition : inst.definition = d
  paused : inst.paused = false
  holds : DrawnHolds n.toDrawn
  due : totalTime d ≤ w.now-start ∨ w.reduced → inst.playing = false
  shown : inst.playing = false → ∀ k, finalKeyframe d = some k → Shows k n.toDrawn

theorem Lives.kept {w : Watched} {n : AnimatedNode} (h : Lives d start w n inst) :
    LifeKept d start w :=
  ⟨n,inst,h.node,h.single,h.due,h.shown⟩

theorem lifeKept_iff {w : Watched} {n : AnimatedNode} (hnode : w.node = some n)
    (hsingle : n.activeAnimations = [inst]) : LifeKept d start w ↔
      (totalTime d ≤ w.now-start ∨ w.reduced → inst.playing = false) ∧
        (inst.playing = false → ∀ k, finalKeyframe d = some k → Shows k n.toDrawn) := by
  constructor
  · rintro ⟨n',inst',hnode',hsingle',hdue,hshown⟩
    rw [hnode,Option.some_inj] at hnode'
    rw [← hnode',hsingle,List.cons.injEq] at hsingle'
    rw [hnode',hsingle'.1]
    exact ⟨hdue,hshown⟩
  · rintro ⟨hdue,hshown⟩
    exact ⟨n,inst,hnode,hsingle,hdue,hshown⟩

theorem endsWell_iff {w : Watched} {n : AnimatedNode} {e : ℤ × Bool} (h : Lives d start w n inst)
    (hplaying : inst.playing) : EndsWell elastic d start w e ↔
      (e.2 → d.autoReverse → ShowsFirst d n.toDrawn) ∧
      (e.2 = false → LastFrame inst e.1 → ∀ k, finalKeyframe d = some k → Shows k n.toDrawn) ∧
      (e.2 = false → ¬LastFrame inst e.1 → e.1-start < totalTime d ∧
        ∀ p, (advance inst e.1).2 = some p → SegmentFits elastic d p n.toDrawn) := by
  constructor
  · intro hends
    exact hends n inst h.node h.single hplaying
  · intro hends n' inst' hnode hsingle _
    rw [h.node,Option.some_inj] at hnode
    rw [← hnode,h.single,List.cons.injEq] at hsingle
    rw [← hnode,← hsingle.1]
    exact hends

/-! ### The cases of an update -/

section
variable {w : Watched} {n : AnimatedNode} (h : Lives d start w n inst)
include h

theorem node_update (e : ℤ × Bool) :
    (w.update elastic e).node = animationUpdate elastic n e.1 e.2 := by
  rw [Watched.update,h.node]
  rfl

/-- After the end nothing is drawn. -/
theorem update_stopped (hstopped : inst.playing = false) (e : ℤ × Bool) :
    Lives d start (w.update elastic e) ⟨n.toDrawn,[inst]⟩ inst := by
  have hstays : animationUpdate elastic n e.1 e.2 = some ⟨n.toDrawn,[inst]⟩ := by
    cases e.2 with
    | true => rw [animationUpdate_reduced h.single,settleInstance_stopped hstopped]
    | false => rw [animationUpdate_single h.single,updateInstance_stopped hstopped]; rfl
  exact ⟨(node_update h e).trans hstays,rfl,h.definition,h.paused,h.holds,fun _ => hstopped,h.shown⟩

variable (hne : d.keyframes ≠ []) (hkeyframes : ∀ k ∈ d.keyframes, KeyframeHolds k)
  (hplaying : inst.playing)
include hne hplaying

variable (elastic) in
theorem update_last (hlast : LastFrame inst now) :
    ((∀ k, finalKeyframe d = some k → Shows k n.toDrawn) →
      ∃ n' inst', Lives d start (w.update elastic (now,false)) n' inst') ∧
    (LifeKept d start (w.update elastic (now,false)) →
      ∀ k, finalKeyframe d = some k → Shows k n.toDrawn) := by
  have hdrawn : (w.update elastic (now,false)).node =
      some ⟨{ n.toDrawn with dirty := true },[{ inst with playing := false }]⟩ := by
    rw [node_update h,animationUpdate_single h.single,
      updateInstance_last hplaying h.paused (h.definition ▸ hne) hlast]
    rfl
  constructor
  · intro hshown
    exact ⟨_,_,hdrawn,rfl,h.definition,h.paused,⟨h.holds.rect,h.holds.style⟩,fun _ => rfl,
      fun _ => hshown⟩
  · intro hkept
    rw [lifeKept_iff hdrawn rfl] at hkept
    exact hkept.2 rfl

include hkeyframes

variable (elastic now) in
theorem update_reduced :
    ((d.autoReverse → ShowsFirst d n.toDrawn) →
      ∃ n' inst', Lives d start (w.update elastic (now,true)) n' inst') ∧
    (LifeKept d start (w.update elastic (now,true)) → d.autoReverse → ShowsFirst d n.toDrawn) := by
  obtain ⟨last,hlast⟩ : ∃ last, d.keyframes.getLast? = some last :=
    ⟨_,List.getLast?_eq_some_getLast hne⟩
  have hdrawn : (w.update elastic (now,true)).node = some
      ⟨⟨last.rect.getD n.rect,withKeyframe last n.resolvedStyle,true⟩,
        [{ inst with playing := false }]⟩ := by
    rw [node_update h,animationUpdate_reduced h.single,
      settleInstance_playing hplaying h.paused (h.definition ▸ hlast)]
  have hshows : (∀ k, finalKeyframe d = some k →
      Shows k ⟨last.rect.getD n.rect,withKeyframe last n.resolvedStyle,true⟩) ↔
      (d.autoReverse → ShowsFirst d n.toDrawn) := by
    unfold finalKeyframe ShowsFirst
    by_cases hreverse : d.autoReverse
    · simp [hreverse,hlast]
    · rw [if_neg hreverse,hlast]
      refine iff_of_true ?_ fun hr => absurd hr hreverse
      rintro k ⟨⟩
      exact shows_drawn last n.toDrawn true
  constructor
  · intro hfirst
    have hmem := List.mem_of_getLast? hlast
    exact ⟨_,_,hdrawn,rfl,h.definition,h.paused,
      ⟨holds_getD (hkeyframes last hmem).rect h.holds.rect,
        withKeyframe_holds (hkeyframes last hmem) h.holds.style⟩,
      fun _ => rfl,fun _ => hshows.2 hfirst⟩
  · intro hkept
    rw [lifeKept_iff hdrawn rfl] at hkept
    exact hshows.1 (hkept.2 rfl)

variable (elastic) in
theorem update_on (hlast : ¬LastFrame inst now) :
    (now-start < totalTime d ∧
        (∀ p, (advance inst now).2 = some p → SegmentFits elastic d p n.toDrawn) →
      ∃ n' inst', Lives d start (w.update elastic (now,false)) n' inst') ∧
    (LifeKept d start (w.update elastic (now,false)) → now-start < totalTime d ∧
      ∀ p, (advance inst now).2 = some p → SegmentFits elastic d p n.toDrawn) := by
  have hdef := h.definition
  subst hdef
  obtain ⟨p,a,b,hp,ha,hb,inst',hdef',hplaying',hpaused',hupdate⟩ :=
    updateInstance_on elastic n.toDrawn hplaying h.paused hne hlast
  have hka := hkeyframes a (List.mem_of_getElem? ha)
  have hkb := hkeyframes b (List.mem_of_getElem? hb)
  have hdrawn : (w.update elastic (now,false)).node =
      (between a b (easingApply elastic a.easing (segmentProgress inst.definition a b p))
        n.toDrawn).map fun m => ⟨m,[inst']⟩ := by
    rw [node_update h,animationUpdate_single h.single,hupdate,Option.map_map]
    rfl
  have hfits : (∀ p, (advance inst now).2 = some p →
      SegmentFits elastic inst.definition p n.toDrawn) ↔
      ∃ m, between a b (easingApply elastic a.easing (segmentProgress inst.definition a b p))
        n.toDrawn = some m := by
    rw [between_isSome_iff hka hkb h.holds,hp]
    constructor
    · intro hall
      exact hall p rfl a b ha hb
    · rintro hframe p' ⟨⟩ a' b' ha' hb'
      rw [ha,Option.some_inj] at ha'
      rw [hb,Option.some_inj] at hb'
      rw [← ha',← hb']
      exact hframe
  constructor
  · rintro ⟨htime,hall⟩
    obtain ⟨m,hm⟩ := hfits.1 hall
    rw [hm] at hdrawn
    refine ⟨_,inst',hdrawn,rfl,hdef',hpaused',between_holds hka hkb h.holds hm,
      ?_,fun hstop => absurd (hstop ▸ hplaying') Bool.false_ne_true⟩
    rintro (hdue | hreduced)
    · exact absurd hdue (not_le.2 htime)
    · exact absurd hreduced Bool.false_ne_true
  · intro hkept
    obtain ⟨n',_,hn',_⟩ := id hkept
    rw [hdrawn,Option.map_eq_some_iff] at hn'
    obtain ⟨m,hm,_⟩ := hn'
    refine ⟨?_,hfits.2 ⟨m,hm⟩⟩
    rw [hm] at hdrawn
    rw [lifeKept_iff hdrawn rfl] at hkept
    by_contra hdue
    rw [hkept.1 (Or.inl (not_lt.1 hdue))] at hplaying'
    exact absurd hplaying' Bool.false_ne_true

end

section
variable (hne : d.keyframes ≠ []) (hkeyframes : ∀ k ∈ d.keyframes, KeyframeHolds k)
include hne hkeyframes

/-- An update keeps the life under the condition, and under no other. -/
theorem update_lives {w : Watched} {n : AnimatedNode} {e : ℤ × Bool} (h : Lives d start w n inst) :
    (EndsWell elastic d start w e → ∃ n' inst', Lives d start (w.update elastic e) n' inst') ∧
      (LifeKept d start (w.update elastic e) → EndsWell elastic d start w e) := by
  cases hplaying : inst.playing with
  | false =>
      refine ⟨fun _ => ⟨_,_,update_stopped h hplaying e⟩,fun _ n' inst' hnode' hsingle' hplaying' => ?_⟩
      rw [h.node,Option.some_inj] at hnode'
      rw [← hnode',h.single,List.cons.injEq] at hsingle'
      rw [← hsingle'.1,hplaying] at hplaying'
      exact absurd hplaying' Bool.false_ne_true
  | true =>
      obtain ⟨now,reduced⟩ := e
      rw [endsWell_iff h hplaying]
      cases reduced with
      | true =>
          have hupdate := update_reduced elastic now h hne hkeyframes hplaying
          exact ⟨fun hends => hupdate.1 (hends.1 rfl),fun hkept => ⟨fun _ => hupdate.2 hkept,
            fun hr => absurd hr.symm Bool.false_ne_true,fun hr => absurd hr.symm Bool.false_ne_true⟩⟩
      | false =>
          by_cases hlast : LastFrame inst now
          · have hupdate := update_last elastic h hne hplaying hlast
            exact ⟨fun hends => hupdate.1 (hends.2.1 rfl hlast),fun hkept =>
              ⟨fun hr => absurd hr Bool.false_ne_true,fun _ _ => hupdate.2 hkept,
                fun _ hon => absurd hlast hon⟩⟩
          · have hupdate := update_on elastic h hne hkeyframes hplaying hlast
            exact ⟨fun hends => hupdate.1 (hends.2.2 rfl hlast),fun hkept =>
              ⟨fun hr => absurd hr Bool.false_ne_true,fun _ hend => absurd hend hlast,
                fun _ _ => hupdate.2 hkept⟩⟩

/-- The life of an animation is as it should be along a run exactly when each update meets the
condition. -/
theorem life_kept_iff (hd : 0 < d.durationMs) {n : Drawn} (hn : DrawnHolds n) (start : ℤ)
    (es : List (ℤ × Bool)) :
    Always (Watched.update elastic) (LifeKept d start) (played d n start) es ↔
      Guarded (Watched.update elastic) (EndsWell elastic d start) (played d n start) es := by
  have htotal : 0 < totalTime d := by
    unfold totalTime passes
    split_ifs
    · positivity
    · positivity
    · omega
    · omega
  have hstart : ∃ n' inst, Lives d start (played d n start) n' inst := by
    refine ⟨_,_,rfl,rfl,rfl,rfl,hn,?_,fun hstop => absurd hstop.symm Bool.false_ne_true⟩
    rintro (hdue | hreduced)
    · rw [played,sub_self] at hdue
      omega
    · exact absurd hreduced Bool.false_ne_true
  refine always_iff_guarded (I := fun w => ∃ n' inst, Lives d start w n' inst)
    (fun w ⟨_,_,h⟩ => h.kept) (fun w e ⟨_,_,h⟩ he => (update_lives hne hkeyframes h).1 he)
    (fun w e ⟨_,_,h⟩ he hkept => he ((update_lives hne hkeyframes h).2 hkept)) hstart es

end

/-! ## An opacity from 0 to 1 -/

def plainKeyframe (timeOffset : ℚ) (opacity : ℚ) : AnimKeyframe where
  timeOffset := timeOffset
  easing := .linear
  fgColor := none
  bgColor := none
  borderColor := none
  accentColor := none
  borderWidth := none
  borderRadius := none
  fontSize := none
  fontWeight := none
  opacity := some (.finite opacity)
  scale := none
  rotation := none
  translate := none
  rect := none

/-- From 0 to 1 in a given time, in a life of 100 milliseconds. -/
def fadeIn (rise : ℚ) (loop autoReverse : Bool) (repeatCount : ℤ) : AnimationDef where
  name := CJson.bytes "fade-in"
  keyframes := [plainKeyframe 0 0,plainKeyframe rise 1]
  durationMs := 100
  loop := loop
  repeatCount := repeatCount
  autoReverse := autoReverse
  tuiType := .none

def plainNode : Drawn := ⟨⟨0,0,80,24⟩,ofTheme widgetstyleDefault,false⟩

instance (k : AnimKeyframe) (n : Drawn) : Decidable (Shows k n) := inferInstanceAs (Decidable (_ ∧ _))

instance (inst : AnimInstance) (now : ℤ) : Decidable (LastFrame inst now) :=
  inferInstanceAs (Decidable (_ ∧ _ ∧ _))

theorem plainNode_holds : DrawnHolds plainNode where
  rect := ⟨by decide,by decide,by decide,by decide⟩
  style :=
    { borderWidth := by decide
      borderRadius := by decide
      fontSize := by decide
      fontWeight := by decide
      backdropBlur := by decide
      padding := ⟨by decide,by decide,by decide,by decide⟩
      margin := ⟨by decide,by decide,by decide,by decide⟩
      layers := fun _ h => absurd h List.not_mem_nil
      layers_le := Nat.zero_le _
      stops_le := Nat.zero_le _ }

theorem plainKeyframe_holds (timeOffset opacity : ℚ) :
    KeyframeHolds (plainKeyframe timeOffset opacity) := by
  constructor
  all_goals rintro v ⟨⟩

theorem fadeIn_holds (rise : ℚ) (loop autoReverse : Bool) (repeatCount : ℤ) :
    ∀ k ∈ (fadeIn rise loop autoReverse repeatCount).keyframes, KeyframeHolds k := by
  intro k hk
  rcases List.mem_pair.1 hk with rfl | rfl
  · exact plainKeyframe_holds 0 0
  · exact plainKeyframe_holds rise 1

/-- What a run leaves: whether the animation is playing, and whether a keyframe shows. -/
def outcome (k : AnimKeyframe) (w : Watched) : Option (List Bool × Bool) :=
  w.node.map fun n => (n.activeAnimations.map (·.playing),decide (Shows k n.toDrawn))

/-- The last keyframe is reached at 50 milliseconds, and the node shows it before the end. -/
theorem early_keyframe_kept :
    Always (Watched.update id) (LifeKept (fadeIn 50 false false 1) 0)
      (played (fadeIn 50 false false 1) plainNode 0) [(75,false),(100,false)] := by
  refine (life_kept_iff (by decide) (fadeIn_holds 50 false false 1) (by decide) plainNode_holds 0
    _).2 ⟨?_,?_,trivial⟩
  · rintro n inst ⟨⟩ ⟨⟩ _
    refine ⟨fun hr => absurd hr Bool.false_ne_true,fun _ hlast => absurd hlast (by decide +kernel),
      fun _ _ => ⟨by decide,fun p hp => ?_⟩⟩
    have hthree : some p = some (3/4) := hp.symm.trans (by decide +kernel)
    cases hthree
    have hsegment : segment (fadeIn 50 false false 1) (3/4) = (0,1) := by decide +kernel
    intro a b ha hb _ hbelow
    rw [hsegment] at ha hb
    cases ha
    cases hb
    exact absurd hbelow (by decide +kernel)
  · intro n inst hnode hsingle _
    have hshows : (run (Watched.update id) (played (fadeIn 50 false false 1) plainNode 0)
        [(75,false)]).node.map (fun n => decide (Shows (plainKeyframe 50 1) n.toDrawn)) =
          some true := by decide +kernel
    have hlast : (run (Watched.update id) (played (fadeIn 50 false false 1) plainNode 0)
        [(75,false)]).node.map (fun n => n.activeAnimations.map fun inst =>
          decide (LastFrame inst 100)) = some [true] := by decide +kernel
    have hnode' : (run (Watched.update id) (played (fadeIn 50 false false 1) plainNode 0)
        [(75,false)]).node = some n := hnode
    rw [hnode',Option.map_some,Option.some_inj] at hshows hlast
    rw [hsingle,List.map_singleton,List.cons.injEq] at hlast
    refine ⟨fun hr => absurd hr Bool.false_ne_true,fun _ _ k hk => ?_,
      fun _ hon => absurd (of_decide_eq_true hlast.1) hon⟩
    cases hk
    exact of_decide_eq_true hshows

/-- Reversed, the fade is still playing long after its 200 milliseconds. With two passes it
is playing at 200. A plain fade stops half way, and a reversed one ends at the wrong keyframe
with reduced motion. -/
theorem lives_not_kept :
    (¬Always (Watched.update id) (LifeKept (fadeIn 100 false true 1) 0)
      (played (fadeIn 100 false true 1) plainNode 0) [(100,false),(200,false),(900,false)]) ∧
    (¬Always (Watched.update id) (LifeKept (fadeIn 100 true false 2) 0)
      (played (fadeIn 100 true false 2) plainNode 0) [(90,false),(150,false),(200,false)]) ∧
    (¬Always (Watched.update id) (LifeKept (fadeIn 100 false false 1) 0)
      (played (fadeIn 100 false false 1) plainNode 0) [(50,false),(100,false)]) ∧
    ¬Always (Watched.update id) (LifeKept (fadeIn 100 false true 1) 0)
      (played (fadeIn 100 false true 1) plainNode 0) [(10,true)] := by
  have hplays : ∀ {d : AnimationDef} {w : Watched} (k : AnimKeyframe) (shows : Bool),
      outcome k w = some ([true],shows) → totalTime d ≤ w.now-0 → ¬LifeKept d 0 w := by
    rintro d w k shows hout hdue ⟨n,inst,hnode,hsingle,hstops,_⟩
    rw [outcome,hnode,Option.map_some,Option.some_inj,Prod.mk.injEq,hsingle] at hout
    have hplaying : inst.playing = true := by simpa using hout.1
    rw [hstops (Or.inl hdue)] at hplaying
    exact Bool.false_ne_true hplaying
  have hmisses : ∀ {d : AnimationDef} {w : Watched} {k : AnimKeyframe},
      outcome k w = some ([false],false) → finalKeyframe d = some k → ¬LifeKept d 0 w := by
    rintro d w k hout hfinal ⟨n,inst,hnode,hsingle,_,hshown⟩
    rw [outcome,hnode,Option.map_some,Option.some_inj,Prod.mk.injEq,hsingle] at hout
    have hstopped : inst.playing = false := by simpa using hout.1
    exact of_decide_eq_false hout.2 (hshown hstopped k hfinal)
  refine ⟨fun h => ?_,fun h => ?_,fun h => ?_,fun h => ?_⟩
  · refine hplays (plainKeyframe 100 1) false ?_ ?_ h.finish
    all_goals decide +kernel
  · refine hplays (plainKeyframe 100 1) false ?_ ?_ h.finish
    all_goals decide +kernel
  · refine hmisses (k := plainKeyframe 100 1) ?_ rfl h.finish
    decide +kernel
  · refine hmisses (k := plainKeyframe 0 0) ?_ rfl h.finish
    decide +kernel

end Filly.Animation

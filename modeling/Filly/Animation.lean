import Filly.KeyedList
import Filly.StyleLerp

/-!
# Animations

An animation goes through its keyframes in a given time. `animation_update` is called with
the time of each frame and sets the rectangle and the style of the node. Times are integers
of milliseconds, and progress and easing are computed exactly. The elastic easing rests on
functions of the C library and is a parameter.
-/
namespace Filly.Animation
open CJson Numerals Rectangles Themes

/-! ## Easing -/

inductive EasingFunction where
  | linear | in | out | inOut | inCubic | outCubic | inOutCubic | bounce | elastic
  deriving DecidableEq

def easeBounce (t : ℚ) : ℚ :=
  if t < 4/11 then 121/16*t*t
  else if t < 8/11 then 121/16*(t-6/11)*(t-6/11)+3/4
  else if t < 10/11 then 121/16*(t-9/11)*(t-9/11)+15/16
  else 121/16*(t-21/22)*(t-21/22)+63/64

/-- At the ends the elastic easing is exact. -/
def easeElastic (elastic : ℚ → ℚ) (t : ℚ) : ℚ := if t = 0 ∨ t = 1 then t else elastic t

def easingApply (elastic : ℚ → ℚ) (fn : EasingFunction) (t : ℚ) : ℚ :=
  match fn with
  | .linear => t
  | .in => t*t
  | .out => t*(2-t)
  | .inOut => if t < 1/2 then 2*t*t else -1+(4-2*t)*t
  | .inCubic => t*t*t
  | .outCubic => (t-1)*(t-1)*(t-1)+1
  | .inOutCubic => if t < 1/2 then 4*t*t*t else (t-1)*(2*t-2)*(2*t-2)+1
  | .bounce => easeBounce t
  | .elastic => easeElastic elastic t

/-! ## Definitions and instances -/

/-- A property that is none is left alone by the keyframe. -/
structure AnimKeyframe where
  timeOffset : ℚ
  easing : EasingFunction
  fgColor : Option UInt32
  bgColor : Option UInt32
  borderColor : Option UInt32
  accentColor : Option UInt32
  borderWidth : Option ℤ
  borderRadius : Option ℤ
  fontSize : Option ℤ
  fontWeight : Option ℤ
  opacity : Option Amount
  scale : Option (Amount × Amount)
  rotation : Option Amount
  translate : Option (Amount × Amount)
  rect : Option Rect

inductive TuiAnimType where
  | none | slideIn | fade | typewriter
  deriving DecidableEq

structure AnimationDef where
  name : Bytes
  keyframes : List AnimKeyframe
  durationMs : ℤ
  loop : Bool
  repeatCount : ℤ
  autoReverse : Bool
  tuiType : TuiAnimType

structure AnimInstance where
  animationName : Bytes
  startTime : ℤ
  playing : Bool
  paused : Bool
  speed : ℚ
  currentKeyframe : ℕ
  nextKeyframe : ℕ
  segmentProgress : ℚ
  loopIteration : ℤ
  reversed : Bool
  definition : AnimationDef
  typewriterPos : ℤ
  typewriterLastMs : ℤ

/-- What an animation changes of a node. -/
structure Drawn where
  rect : Rect
  resolvedStyle : NodeStyle
  dirty : Bool

structure AnimatedNode extends Drawn where
  activeAnimations : List AnimInstance

/-- The change of the first animation with the name. -/
def changeAnimation (n : AnimatedNode) (name : Bytes) (f : AnimInstance → AnimInstance) :
    AnimatedNode :=
  { n with
    activeAnimations := KeyedList.modify AnimInstance.animationName name f n.activeAnimations }

/-- An animation that is there already begins again, with the definition it had. -/
def animationPlayCustom (n : AnimatedNode) (d : AnimationDef) (now : ℤ) : AnimatedNode :=
  let next := if 1 < d.keyframes.length then 1 else 0
  if n.activeAnimations.any (·.animationName = d.name) then
    changeAnimation n d.name fun inst =>
      { inst with
        startTime := now
        playing := true
        paused := false
        segmentProgress := 0
        currentKeyframe := 0
        nextKeyframe := next
        loopIteration := 0
        reversed := false
        typewriterPos := 0
        typewriterLastMs := now }
  else
    { n with
      activeAnimations := n.activeAnimations++[
        { animationName := d.name
          startTime := now
          playing := true
          paused := false
          speed := 1
          currentKeyframe := 0
          nextKeyframe := next
          segmentProgress := 0
          loopIteration := 0
          reversed := false
          definition := d
          typewriterPos := 0
          typewriterLastMs := now }] }

def animationStop (n : AnimatedNode) (name : Bytes) : AnimatedNode :=
  changeAnimation n name fun inst => { inst with playing := false }

def animationPause (n : AnimatedNode) (name : Bytes) : AnimatedNode :=
  changeAnimation n name fun inst => { inst with paused := true }

/-- The start that gives the progress within the segment as that of the whole. -/
def resumed (now : ℤ) (inst : AnimInstance) : AnimInstance :=
  { inst with
    paused := false
    startTime := now-toInt (some (inst.segmentProgress*inst.definition.durationMs)) }

def animationResume (n : AnimatedNode) (name : Bytes) (now : ℤ) : AnimatedNode :=
  changeAnimation n name (resumed now)

/-! ## Frames -/

/-- The style with the properties of a keyframe. -/
def withKeyframe (k : AnimKeyframe) (s : NodeStyle) : NodeStyle :=
  { s with
    fgColor := k.fgColor.getD s.fgColor
    bgColor := k.bgColor.getD s.bgColor
    borderColor := k.borderColor.getD s.borderColor
    accentColor := k.accentColor.getD s.accentColor
    borderWidth := k.borderWidth.getD s.borderWidth
    borderRadius := k.borderRadius.getD s.borderRadius
    fontSize := k.fontSize.getD s.fontSize
    fontWeight := k.fontWeight.getD s.fontWeight
    opacity := k.opacity.getD s.opacity
    scaleX := (k.scale.map Prod.fst).getD s.scaleX
    scaleY := (k.scale.map Prod.snd).getD s.scaleY
    rotation := k.rotation.getD s.rotation
    translateX := (k.translate.map Prod.fst).getD s.translateX
    translateY := (k.translate.map Prod.snd).getD s.translateY }

def totalProgress (inst : AnimInstance) (now : ℤ) : ℚ :=
  max 0 ((now-inst.startTime : ℤ)/inst.definition.durationMs*inst.speed)

/-- The progress of a frame, and none when the animation ends there. -/
def advance (inst : AnimInstance) (now : ℤ) : AnimInstance × Option ℚ :=
  let d := inst.definition
  let p := totalProgress inst now
  if d.autoReverse then
    -- A turn begins at the frame that notices the end of the one before.
    if 1 ≤ p then
      if ¬inst.reversed then ({ inst with reversed := true, startTime := now },some 0)
      else
        ({ inst with
          reversed := false
          startTime := now
          loopIteration := inst.loopIteration+1 },some 0)
    else (inst,some p)
  else if 1 ≤ p then
    if d.loop ∧ (d.repeatCount < 0 ∨ inst.loopIteration < d.repeatCount-1) then
      ({ inst with startTime := now, loopIteration := inst.loopIteration+1 },some 0)
    else ({ inst with playing := false },none)
  else (inst,some p)

/-- The place of a keyframe in the whole. -/
def keyframePlace (d : AnimationDef) (k : AnimKeyframe) : ℚ := k.timeOffset/d.durationMs

/-- The first two neighbours that the progress lies between, or the first keyframe and the
last. -/
def segment (d : AnimationDef) (p : ℚ) : ℕ × ℕ :=
  let holds (k : ℕ) : Bool :=
    match d.keyframes[k]?,d.keyframes[k+1]? with
    | some a,some b => keyframePlace d a ≤ p ∧ p ≤ keyframePlace d b
    | _,_ => false
  match (List.range (d.keyframes.length-1)).find? holds with
  | some k => (k,k+1)
  | none => (0,d.keyframes.length-1)

/-- The progress between two keyframes. -/
def segmentProgress (d : AnimationDef) (a b : AnimKeyframe) (p : ℚ) : ℚ :=
  if 0 < keyframePlace d b-keyframePlace d a then
    (p-keyframePlace d a)/(keyframePlace d b-keyframePlace d a)
  else 1

/-- What is drawn between two keyframes. -/
def between (a b : AnimKeyframe) (t : ℚ) (n : Drawn) : Option Drawn := do
  let rect ←
    match a.rect,b.rect with
    | none,none => some n.rect
    | _,_ => animLerpRect some (a.rect.getD n.rect) (b.rect.getD n.rect) t
  let style ←
    animLerpStyle some (withKeyframe a n.resolvedStyle) (withKeyframe b n.resolvedStyle) t
  return ⟨rect,style,true⟩

/-- The typewriter goes on by a character after 30 milliseconds. -/
def typed (inst : AnimInstance) (now : ℤ) : AnimInstance :=
  if inst.definition.tuiType = .typewriter ∧ 30 ≤ now-inst.typewriterLastMs then
    { inst with typewriterPos := inst.typewriterPos+1, typewriterLastMs := now }
  else inst

def updateInstance (elastic : ℚ → ℚ) (now : ℤ) (n : Drawn) (inst : AnimInstance) :
    Option (Drawn × AnimInstance) :=
  let d := inst.definition
  if ¬inst.playing ∨ inst.paused ∨ d.keyframes.length = 0 then some (n,inst)
  else
    match advance inst now with
    | (inst,none) => some ({ n with dirty := true },inst)
    | (inst,some p) => do
        let k := segment d p
        let a ← d.keyframes[k.1]?
        let b ← d.keyframes[k.2]?
        let t := segmentProgress d a b p
        let n ← between a b (easingApply elastic a.easing t) n
        return (n,typed { inst with
          currentKeyframe := k.1
          nextKeyframe := k.2
          segmentProgress := t } now)

/-- With reduced motion the last keyframe is drawn at once. -/
def settleInstance (n : Drawn) (inst : AnimInstance) : Drawn × AnimInstance :=
  match inst.definition.keyframes.getLast? with
  | none => (n,inst)
  | some last =>
      if inst.playing ∧ ¬inst.paused then
        (⟨last.rect.getD n.rect,withKeyframe last n.resolvedStyle,true⟩,{ inst with playing := false })
      else (n,inst)

/-- One animation after the other. -/
def updateAll (f : Drawn → AnimInstance → Option (Drawn × AnimInstance)) :
    Drawn → List AnimInstance → Option (Drawn × List AnimInstance)
  | n, [] => some (n,[])
  | n, inst::insts => do
      let first ← f n inst
      let rest ← updateAll f first.1 insts
      return (rest.1,first.2::rest.2)

def animationUpdate (elastic : ℚ → ℚ) (n : AnimatedNode) (now : ℤ) (prefersReducedMotion : Bool) :
    Option AnimatedNode := do
  let f := if prefersReducedMotion then fun n inst => some (settleInstance n inst)
    else updateInstance elastic now
  let r ← updateAll f n.toDrawn n.activeAnimations
  return ⟨r.1,r.2⟩

end Filly.Animation

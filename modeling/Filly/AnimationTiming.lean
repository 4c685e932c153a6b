import Filly.AnimationLifecycle
import Filly.Overlays

/-!
# Pauses and frame rates

Resuming takes the progress within the segment for that of the whole animation, and does not
know how long ago the last frame was. Two runs with the same last frame before the end leave
the same node when the keyframes around that frame have all the properties of the animation;
any other property keeps what an earlier frame has left.
-/
namespace Filly.Animation
open KeyedList Rectangles Runs Themes

variable {elastic : ℚ → ℚ} {d : AnimationDef} {inst : AnimInstance} {n : Drawn} {now start : ℤ}

/-! ## What an update leaves of an instance -/

theorem typed_eq (inst : AnimInstance) (now : ℤ) : ∃ pos last, typed inst now =
    { inst with typewriterPos := pos, typewriterLastMs := last } := by
  unfold typed
  split_ifs
  · exact ⟨_,_,rfl⟩
  · exact ⟨_,_,rfl⟩

theorem advance_eq (inst : AnimInstance) (now : ℤ) : ∃ startTime playing loopIteration reversed,
    (advance inst now).1 =
      { inst with
        startTime := startTime
        playing := playing
        loopIteration := loopIteration
        reversed := reversed } := by
  unfold advance
  dsimp only
  split_ifs
  all_goals exact ⟨_,_,_,_,rfl⟩

/-- What no update changes. -/
structure SameAnimation (inst inst' : AnimInstance) : Prop where
  name : inst'.animationName = inst.animationName
  definition : inst'.definition = inst.definition
  paused : inst'.paused = inst.paused
  speed : inst'.speed = inst.speed

theorem SameAnimation.trans {a b c : AnimInstance} (hab : SameAnimation a b)
    (hbc : SameAnimation b c) : SameAnimation a c :=
  ⟨hbc.name.trans hab.name,hbc.definition.trans hab.definition,hbc.paused.trans hab.paused,
    hbc.speed.trans hab.speed⟩

theorem updateInstance_same {r : Drawn × AnimInstance}
    (h : updateInstance elastic now n inst = some r) : SameAnimation inst r.2 := by
  unfold updateInstance at h
  dsimp only at h
  split_ifs at h
  · cases h
    exact ⟨rfl,rfl,rfl,rfl⟩
  obtain ⟨startTime,playing,loopIteration,reversed,hadvance⟩ := advance_eq inst now
  split at h
  · next inst' heq =>
      rw [heq] at hadvance
      cases h
      dsimp only at hadvance ⊢
      rw [hadvance]
      exact ⟨rfl,rfl,rfl,rfl⟩
  · next inst' p heq =>
      rw [heq] at hadvance
      simp only [Option.bind_eq_bind,Option.bind_eq_some_iff] at h
      obtain ⟨a,_,b,_,m,_,hr⟩ := h
      cases hr
      obtain ⟨pos,last,htyped⟩ := typed_eq { inst' with
        currentKeyframe := (segment inst.definition p).1
        nextKeyframe := (segment inst.definition p).2
        segmentProgress := segmentProgress inst.definition a b p } now
      dsimp only at hadvance ⊢
      rw [htyped,hadvance]
      exact ⟨rfl,rfl,rfl,rfl⟩

theorem settleInstance_same (n : Drawn) (inst : AnimInstance) :
    SameAnimation inst (settleInstance n inst).2 := by
  unfold settleInstance
  split
  · exact ⟨rfl,rfl,rfl,rfl⟩
  · split_ifs
    · exact ⟨rfl,rfl,rfl,rfl⟩
    · exact ⟨rfl,rfl,rfl,rfl⟩

theorem animationUpdate_same {n m : AnimatedNode} {reduced : Bool}
    (hsingle : n.activeAnimations = [inst]) (h : animationUpdate elastic n now reduced = some m) :
    ∃ inst', m.activeAnimations = [inst'] ∧ SameAnimation inst inst' := by
  cases reduced with
  | true =>
      rw [animationUpdate_reduced hsingle] at h
      cases h
      exact ⟨_,rfl,settleInstance_same n.toDrawn inst⟩
  | false =>
      rw [animationUpdate_single hsingle,Option.map_eq_some_iff] at h
      obtain ⟨r,hr,rfl⟩ := h
      exact ⟨r.2,rfl,updateInstance_same hr⟩

theorem run_same {w : Watched} {n m : AnimatedNode} (hnode : w.node = some n)
    (hsingle : n.activeAnimations = [inst]) (es : List (ℤ × Bool))
    (h : (run (Watched.update elastic) w es).node = some m) :
    ∃ inst', m.activeAnimations = [inst'] ∧ SameAnimation inst inst' := by
  induction es generalizing w n inst with
  | nil =>
      rw [show (run (Watched.update elastic) w []).node = w.node from rfl,hnode,
        Option.some_inj] at h
      exact ⟨inst,h ▸ hsingle,rfl,rfl,rfl,rfl⟩
  | cons e es ih =>
      have hupdate : (w.update elastic e).node = animationUpdate elastic n e.1 e.2 := by
        rw [Watched.update,hnode]
        rfl
      cases hm : animationUpdate elastic n e.1 e.2 with
      | none =>
          rw [hm] at hupdate
          have hnone : ∀ (es : List (ℤ × Bool)) (w : Watched), w.node = none →
              (run (Watched.update elastic) w es).node = none := by
            intro es
            induction es with
            | nil => exact fun w hw => hw
            | cons e es ih => exact fun w hw => ih _ (by rw [Watched.update,hw]; rfl)
          have := hnone es _ hupdate
          rw [run,List.foldl_cons,← run,this] at h
          cases h
      | some n' =>
          obtain ⟨inst',hsingle',hsame⟩ := animationUpdate_same hsingle hm
          obtain ⟨inst'',hsingle'',hsame'⟩ := ih (hupdate.trans hm) hsingle' h
          exact ⟨inst'',hsingle'',hsame.trans hsame'⟩

/-! ## Pauses -/

variable (elastic) in
/-- A pause at some moment, the updates meanwhile, and the resumption at a later time. -/
def pauseAndResume (n : AnimatedNode) (name : CJson.Bytes) (pausedAt : ℤ) (es : List (ℤ × Bool))
    (now : ℤ) : Option AnimatedNode :=
  (run (Watched.update elastic) ⟨some (animationPause n name),pausedAt,false⟩ es).node.map
    (animationResume · name now)

/-- An animation that is paused or has stopped stays as it is. -/
theorem run_idle {w : Watched} (hnode : w.node = some ⟨n,[inst]⟩)
    (h : inst.paused ∨ inst.playing = false) (es : List (ℤ × Bool)) :
    (run (Watched.update elastic) w es).node = some ⟨n,[inst]⟩ := by
  induction es generalizing w with
  | nil => exact hnode
  | cons e es ih =>
      refine ih ?_
      rw [Watched.update,hnode]
      change animationUpdate elastic ⟨n,[inst]⟩ e.1 e.2 = _
      cases e.2 with
      | true =>
          have hsettle : settleInstance n inst = (n,inst) := by
            unfold settleInstance
            split
            · rfl
            · refine if_neg ?_
              rcases h with h | h
              · simp [h]
              · simp [h]
          rw [animationUpdate_reduced rfl,hsettle]
      | false =>
          have hupdate : updateInstance elastic e.1 n inst = some (n,inst) := by
            refine if_pos ?_
            rcases h with h | h
            · exact Or.inr (Or.inl h)
            · exact Or.inl (by rw [h]; exact Bool.false_ne_true)
          rw [animationUpdate_single rfl,hupdate]
          rfl

theorem pauseAndResume_eq (hname : inst.animationName = d.name) (pausedAt : ℤ)
    (es : List (ℤ × Bool)) (now : ℤ) :
    pauseAndResume elastic ⟨n,[inst]⟩ d.name pausedAt es now =
      some ⟨n,[resumed now { inst with paused := true }]⟩ := by
  have hpause : animationPause ⟨n,[inst]⟩ d.name = ⟨n,[{ inst with paused := true }]⟩ := by
    rw [animationPause,changeAnimation]
    simp only [KeyedList.modify,if_pos hname]
  unfold pauseAndResume
  rw [hpause,run_idle rfl (Or.inl rfl),Option.map_some,animationResume,changeAnimation]
  simp only [KeyedList.modify,if_pos hname]

/-- The progress goes on as if there had been no pause exactly when the progress within the
segment gives the time since the start. -/
theorem resumed_continues_iff (hd : 0 < inst.definition.durationMs) (hspeed : inst.speed = 1)
    (pausedAt now : ℤ) :
    (∀ x, 0 ≤ x → totalProgress (resumed now { inst with paused := true }) (now+x) =
        totalProgress inst (pausedAt+x)) ↔
      toInt (some (inst.segmentProgress*inst.definition.durationMs)) = pausedAt-inst.startTime := by
  unfold totalProgress resumed
  dsimp only
  generalize toInt (some (inst.segmentProgress*inst.definition.durationMs)) = s
  rw [hspeed]
  have hd' : (0 : ℚ) < inst.definition.durationMs := by exact_mod_cast hd
  constructor
  · intro h
    -- Far enough behind the pause both are positive.
    have hx := h (|s|+|pausedAt-inst.startTime|) (by positivity)
    have hs : 0 ≤ now+(|s|+|pausedAt-inst.startTime|)-(now-s) := by
      have := neg_abs_le s
      have := abs_nonneg (pausedAt-inst.startTime)
      omega
    have hp : 0 ≤ pausedAt+(|s|+|pausedAt-inst.startTime|)-inst.startTime := by
      have := neg_abs_le (pausedAt-inst.startTime)
      have := abs_nonneg s
      omega
    have hs' : (0 : ℚ) ≤ ((now+(|s|+|pausedAt-inst.startTime|)-(now-s) : ℤ) : ℚ) := by
      exact_mod_cast hs
    have hp' : (0 : ℚ) ≤ ((pausedAt+(|s|+|pausedAt-inst.startTime|)-inst.startTime : ℤ) : ℚ) := by
      exact_mod_cast hp
    rw [mul_one,mul_one,max_eq_right (by positivity),max_eq_right (by positivity),
      div_left_inj' hd'.ne',Int.cast_inj] at hx
    omega
  · intro h x _
    rw [show now+x-(now-s) = pausedAt+x-inst.startTime by omega]

/-! ## Frame rates -/

/-- The updates before the end of the first pass. -/
def beforeEnd (d : AnimationDef) (start : ℤ) (ts : List ℤ) : List ℤ :=
  ts.takeWhile (· < start+d.durationMs)

/-- The total progress at a time. -/
def progressAt (d : AnimationDef) (start now : ℤ) : ℚ :=
  max 0 ((now-start : ℤ)/d.durationMs)

/-- What the frame at a progress draws. -/
def FrameOf (elastic : ℚ → ℚ) (d : AnimationDef) (p : ℚ) (n m : Drawn) : Prop :=
  ∃ a b, d.keyframes[(segment d p).1]? = some a ∧ d.keyframes[(segment d p).2]? = some b ∧
    between a b (easingApply elastic a.easing (segmentProgress d a b p)) n = some m

/-- No integer overflows at the frame of an update. -/
def NoOverflow (elastic : ℚ → ℚ) (d : AnimationDef) (w : Watched) (e : ℤ × Bool) : Prop :=
  ∀ n inst, w.node = some n → n.activeAnimations = [inst] → inst.playing →
    ∀ p, (advance inst e.1).2 = some p → SegmentFits elastic d p n.toDrawn

/-- The updates of a run, without reduced motion. -/
def frames (ts : List ℤ) : List (ℤ × Bool) := ts.map fun t => (t,false)

theorem progressAt_lt_one_iff (hd : 0 < d.durationMs) : progressAt d start now < 1 ↔
    now < start+d.durationMs := by
  have hd' : (0 : ℚ) < d.durationMs := by exact_mod_cast hd
  unfold progressAt
  rw [max_lt_iff,div_lt_one hd',Int.cast_lt]
  constructor
  · rintro ⟨_,hlt⟩
    omega
  · intro hlt
    exact ⟨one_pos,by omega⟩

/-- The first pass is going on. -/
structure Underway (d : AnimationDef) (start : ℤ) (origin : Drawn) (w : Watched)
    (n : AnimatedNode) (inst : AnimInstance) : Prop where
  node : w.node = some n
  single : n.activeAnimations = [inst]
  definition : inst.definition = d
  playing : inst.playing
  paused : inst.paused = false
  startTime : inst.startTime = start
  speed : inst.speed = 1
  holds : DrawnHolds n.toDrawn
  exact : Exact n.resolvedStyle
  agree : Agree d.keyframes n.toDrawn origin

section
variable {origin : Drawn} {w : Watched} {n : AnimatedNode} (h : Underway d start origin w n inst)
include h

theorem Underway.progress (now : ℤ) : totalProgress inst now = progressAt d start now := by
  rw [totalProgress,h.startTime,h.speed,mul_one,h.definition]
  rfl

theorem Underway.advance_before (hbefore : progressAt d start now < 1) :
    advance inst now = (inst,some (progressAt d start now)) := by
  unfold advance
  rw [h.progress]
  dsimp only
  rw [if_neg (not_le.2 hbefore),if_neg (not_le.2 hbefore),ite_self]

variable (hne : d.keyframes ≠ []) (hkeyframes : ∀ k ∈ d.keyframes, KeyframeHolds k ∧ KeyframeExact k)
include hne hkeyframes

/-- A frame before the end is drawn. -/
theorem Underway.update (hbefore : progressAt d start now < 1)
    (hfits : NoOverflow elastic d w (now,false)) : ∃ m inst',
      Underway d start origin (w.update elastic (now,false)) m inst' ∧
      FrameOf elastic d (progressAt d start now) n.toDrawn m.toDrawn := by
  have hadvance := h.advance_before hbefore
  have hdef := h.definition
  subst hdef
  obtain ⟨a,b,ha,hb⟩ := exists_segment hne (progressAt inst.definition start now)
  have hka := hkeyframes a (List.mem_of_getElem? ha)
  have hkb := hkeyframes b (List.mem_of_getElem? hb)
  obtain ⟨m,hm⟩ := (between_isSome_iff hka.1 hkb.1 h.holds).2
    (hfits n inst h.node h.single h.playing _ (by rw [hadvance]) a b ha hb)
  obtain ⟨pos,last,htyped⟩ := typed_eq { inst with
    currentKeyframe := (segment inst.definition (progressAt inst.definition start now)).1
    nextKeyframe := (segment inst.definition (progressAt inst.definition start now)).2
    segmentProgress :=
      segmentProgress inst.definition a b (progressAt inst.definition start now) } now
  have hupdate : (w.update elastic (now,false)).node = some ⟨m,[typed { inst with
      currentKeyframe := (segment inst.definition (progressAt inst.definition start now)).1
      nextKeyframe := (segment inst.definition (progressAt inst.definition start now)).2
      segmentProgress :=
        segmentProgress inst.definition a b (progressAt inst.definition start now) } now]⟩ := by
    rw [Watched.update,h.node]
    change animationUpdate elastic n now false = _
    rw [animationUpdate_single h.single]
    unfold updateInstance
    rw [if_neg (by simp [h.playing,h.paused,hne]),hadvance]
    simp only [ha,hb,hm,Option.bind_eq_bind,Option.bind_some]
    rfl
  have hmem := List.mem_of_getElem? ha
  have hmem' := List.mem_of_getElem? hb
  have hagree := agree_between hmem hmem' h.exact hm
  refine ⟨_,_,⟨hupdate,rfl,?_,?_,?_,?_,?_,between_holds hka.1 hkb.1 h.holds hm,
    exact_between hka.2 hkb.2 h.exact hm,
    ⟨hagree.style.trans h.agree.style,hagree.rect.trans h.agree.rect⟩⟩,a,b,ha,hb,hm⟩
  all_goals rw [htyped]
  · exact h.playing
  · exact h.paused
  · exact h.startTime
  · exact h.speed

omit hkeyframes in
/-- From the end on nothing is drawn. -/
theorem Underway.run_after (hloop : d.loop = false) (hreverse : d.autoReverse = false) (t : ℤ)
    (ts : List ℤ) (hafter : ¬progressAt d start t < 1) :
    ∃ m, (run (Watched.update elastic) w (frames (t::ts))).node = some m ∧ m.rect = n.rect ∧
      m.resolvedStyle = n.resolvedStyle := by
  have hlast : LastFrame inst t := by
    refine ⟨h.definition ▸ hreverse,?_,?_⟩
    · rw [h.progress]
      exact not_lt.1 hafter
    · rw [h.definition,hloop]
      exact fun hl => Bool.false_ne_true hl.1
  have hnode : (w.update elastic (t,false)).node =
      some ⟨{ n.toDrawn with dirty := true },[{ inst with playing := false }]⟩ := by
    rw [Watched.update,h.node]
    change animationUpdate elastic n t false = _
    rw [animationUpdate_single h.single,
      updateInstance_last h.playing h.paused (h.definition ▸ hne) hlast]
    rfl
  exact ⟨_,run_idle hnode (Or.inr rfl) (frames ts),rfl,rfl⟩

/-- A run leaves what its last frame before the end has drawn, over a node that agrees with
the one it began with. -/
theorem Underway.run_frames (hd : 0 < d.durationMs) (hloop : d.loop = false) (ts : List ℤ)
    (hreverse : d.autoReverse → beforeEnd d start ts = ts)
    (hfits : Guarded (Watched.update elastic) (NoOverflow elastic d) w (frames ts)) :
    ∃ m, (run (Watched.update elastic) w (frames ts)).node = some m ∧
      (((beforeEnd d start ts).getLast? = none ∧ m.rect = n.rect ∧
          m.resolvedStyle = n.resolvedStyle) ∨
        ∃ t prev m', (beforeEnd d start ts).getLast? = some t ∧ Agree d.keyframes prev origin ∧
          FrameOf elastic d (progressAt d start t) prev m' ∧ m.rect = m'.rect ∧
          m.resolvedStyle = m'.resolvedStyle) := by
  induction ts generalizing w n inst with
  | nil => exact ⟨n,h.node,Or.inl ⟨rfl,rfl,rfl⟩⟩
  | cons t ts ih =>
      by_cases hbefore : progressAt d start t < 1
      · obtain ⟨m₁,inst₁,h₁,hframe⟩ := h.update hne hkeyframes hbefore hfits.1
        have htake : beforeEnd d start (t::ts) = t::beforeEnd d start ts :=
          List.takeWhile_cons_of_pos (decide_eq_true ((progressAt_lt_one_iff hd).1 hbefore))
        obtain ⟨m,hm,hlast⟩ := ih h₁
          (fun hr => List.tail_eq_of_cons_eq (htake.symm.trans (hreverse hr))) hfits.2
        refine ⟨m,hm,Or.inr ?_⟩
        rw [htake]
        rcases hlast with ⟨hnone,hrect,hstyle⟩ | ⟨t',prev,m',hlast,hagree,hframe',hrect,hstyle⟩
        · rw [List.getLast?_eq_none_iff] at hnone
          rw [hnone]
          exact ⟨t,n.toDrawn,m₁.toDrawn,rfl,h.agree,hframe,hrect,hstyle⟩
        · refine ⟨t',prev,m',?_,hagree,hframe',hrect,hstyle⟩
          rw [List.getLast?_cons,hlast]
          rfl
      · have htake : beforeEnd d start (t::ts) = [] :=
          List.takeWhile_cons_of_neg
            (by rw [decide_eq_true_eq]; exact fun hlt => hbefore ((progressAt_lt_one_iff hd).2 hlt))
        have hforward : d.autoReverse = false := by
          rw [← Bool.not_eq_true]
          intro hr
          have hnil := hreverse hr
          rw [htake] at hnil
          cases hnil
        obtain ⟨m,hm,hrect,hstyle⟩ := h.run_after hne hloop hforward t ts hbefore
        exact ⟨m,hm,Or.inl ⟨by rw [htake]; rfl,hrect,hstyle⟩⟩

end

/-- The last frames before the end are at the same time, a reversed animation does not get to
the end, and the keyframes around that time have every property of the animation. -/
structure FramesMatch (d : AnimationDef) (start : ℤ) (ts ts' : List ℤ) : Prop where
  last : (beforeEnd d start ts).getLast? = (beforeEnd d start ts').getLast?
  forward : d.autoReverse → beforeEnd d start ts = ts ∧ beforeEnd d start ts' = ts'
  covers : ∀ t, (beforeEnd d start ts).getLast? = some t → ∀ a b,
    d.keyframes[(segment d (progressAt d start t)).1]? = some a →
    d.keyframes[(segment d (progressAt d start t)).2]? = some b →
    ∀ k ∈ d.keyframes, Covers a k ∧ Covers b k

/-- The progress within the segment gives the time from the start to the pause. -/
def SegmentGivesTime (inst : AnimInstance) (pausedAt : ℤ) : Prop :=
  toInt (some (inst.segmentProgress*inst.definition.durationMs)) = pausedAt-inst.startTime

instance (inst : AnimInstance) (pausedAt : ℤ) : Decidable (SegmentGivesTime inst pausedAt) :=
  inferInstanceAs (Decidable (_ = _))

/-- At whatever moment it is paused and resumed, an animation continues from its progress
exactly when the progress within the segment gives the time, and runs whose frames match leave
the same node. -/
theorem timing_kept (hd : 0 < d.durationMs) (hloop : d.loop = false) (hne : d.keyframes ≠ [])
    (hkeyframes : ∀ k ∈ d.keyframes, KeyframeHolds k ∧ KeyframeExact k) (hn : DrawnHolds n)
    (hexact : Exact n.resolvedStyle) (start : ℤ) :
    (∀ es m inst, (run (Watched.update elastic) (played d n start) es).node = some m →
      m.activeAnimations = [inst] → ∀ pausedAt us now, ∃ m' inst',
        pauseAndResume elastic m d.name pausedAt us now = some m' ∧
        m'.activeAnimations = [inst'] ∧ m'.toDrawn = m.toDrawn ∧
        ((∀ x, 0 ≤ x → totalProgress inst' (now+x) = totalProgress inst (pausedAt+x)) ↔
          SegmentGivesTime inst pausedAt)) ∧
    ∀ ts ts', FramesMatch d start ts ts' →
      Guarded (Watched.update elastic) (NoOverflow elastic d) (played d n start) (frames ts) →
      Guarded (Watched.update elastic) (NoOverflow elastic d) (played d n start) (frames ts') →
      ∃ m m', (run (Watched.update elastic) (played d n start) (frames ts)).node = some m ∧
        (run (Watched.update elastic) (played d n start) (frames ts')).node = some m' ∧
        m.rect = m'.rect ∧ m.resolvedStyle = m'.resolvedStyle := by
  constructor
  · intro es m inst hm hsingle pausedAt us now
    obtain ⟨inst₁,hsingle₁,hsame⟩ := run_same rfl rfl es hm
    rw [hsingle,List.cons.injEq] at hsingle₁
    rw [← hsingle₁.1] at hsame
    have hdef : inst.definition = d := hsame.definition
    obtain ⟨drawn,insts⟩ := m
    cases hsingle
    refine ⟨_,_,pauseAndResume_eq hsame.name pausedAt us now,rfl,rfl,?_⟩
    exact resumed_continues_iff (hdef ▸ hd) hsame.speed pausedAt now
  · intro ts ts' hmatch hfits hfits'
    have hstart : Underway d start n (played d n start) (animationPlayCustom ⟨n,[]⟩ d start) _ :=
      ⟨rfl,rfl,rfl,rfl,rfl,rfl,rfl,hn,hexact,⟨rfl,rfl⟩⟩
    obtain ⟨m,hm,hlast⟩ := hstart.run_frames hne hkeyframes hd hloop ts
      (fun hr => (hmatch.forward hr).1) hfits
    obtain ⟨m',hm',hlast'⟩ := hstart.run_frames hne hkeyframes hd hloop ts'
      (fun hr => (hmatch.forward hr).2) hfits'
    refine ⟨m,m',hm,hm',?_⟩
    rw [← hmatch.last] at hlast'
    rcases hlast with ⟨hnone,hrect,hstyle⟩ |
      ⟨t,prev,f,hsome,hagree,⟨a,b,ha,hb,hf⟩,hrect,hstyle⟩
    · rcases hlast' with ⟨_,hrect',hstyle'⟩ | ⟨t',_,_,hsome',_⟩
      · exact ⟨hrect.trans hrect'.symm,hstyle.trans hstyle'.symm⟩
      · rw [hnone] at hsome'
        cases hsome'
    · rcases hlast' with ⟨hnone',_⟩ | ⟨t',prev',f',hsome',hagree',⟨a',b',ha',hb',hf'⟩,hrect',hstyle'⟩
      · rw [hnone'] at hsome
        cases hsome
      · rw [hsome,Option.some_inj] at hsome'
        subst hsome'
        rw [ha,Option.some_inj] at ha'
        rw [hb,Option.some_inj] at hb'
        subst ha' hb'
        have hcovers := hmatch.covers t hsome a b ha hb
        have hsame : Agree d.keyframes prev prev' :=
          ⟨hagree.style.trans hagree'.style.symm,hagree.rect.trans hagree'.rect.symm⟩
        rw [between_eq_of_agree (fun k hk => (hcovers k hk).1) (fun k hk => (hcovers k hk).2) hsame,
          hf',Option.some_inj] at hf
        rw [hrect,hrect',hstyle,hstyle',hf]
        exact ⟨rfl,rfl⟩

/-! ## Fades -/

theorem fadeIn_plain {rise : ℚ} {loop autoReverse : Bool} {repeatCount : ℤ} {k : AnimKeyframe}
    (hk : k ∈ (fadeIn rise loop autoReverse repeatCount).keyframes) :
    ∃ timeOffset opacity, k = plainKeyframe timeOffset opacity := by
  rcases List.mem_pair.1 hk with rfl | rfl
  · exact ⟨_,_,rfl⟩
  · exact ⟨_,_,rfl⟩

/-- Without integers nothing overflows. -/
theorem fadeIn_noOverflow (rise : ℚ) (loop autoReverse : Bool) (repeatCount : ℤ) (w : Watched)
    (e : ℤ × Bool) : NoOverflow elastic (fadeIn rise loop autoReverse repeatCount) w e := by
  have hself : ∀ v : ℤ, Fits v v := by
    intro v
    rw [Fits,sub_self]
    decide
  intro n inst _ _ _ p _ a b ha hb _ _
  obtain ⟨_,_,rfl⟩ := fadeIn_plain (List.mem_of_getElem? ha)
  obtain ⟨_,_,rfl⟩ := fadeIn_plain (List.mem_of_getElem? hb)
  refine ⟨fun hset => hset.elim (fun h => absurd h Bool.false_ne_true) fun h =>
      absurd h Bool.false_ne_true,hself _,hself _,hself _,hself _,hself _,
    ⟨hself _,hself _,hself _,hself _⟩,⟨hself _,hself _,hself _,hself _⟩,
    ⟨Iff.rfl,fun i _ x y hx hy => ?_⟩,fun _ _ => Iff.rfl⟩
  have hsame := Option.some.inj (hx.symm.trans hy)
  subst hsame
  exact ⟨hself _,hself _,hself _,hself _⟩

theorem plainKeyframe_covers (timeOffset opacity timeOffset' opacity' : ℚ) :
    Covers (plainKeyframe timeOffset opacity) (plainKeyframe timeOffset' opacity') := by
  constructor
  all_goals exact id

theorem plainKeyframe_exact (timeOffset opacity : ℚ) :
    KeyframeExact (plainKeyframe timeOffset opacity) := by
  refine ⟨?_,?_,?_,?_⟩
  · rintro v ⟨⟩
    exact ⟨opacity,rfl⟩
  all_goals rintro v ⟨⟩

/-- A fade through its whole time, paused at the frame at 50 milliseconds and resumed at 500,
and two of its runs up to 60. -/
theorem fade_timing :
    (∀ m inst, (run (Watched.update id) (played (fadeIn 100 false false 1) plainNode 0)
        [(50,false)]).node = some m → m.activeAnimations = [inst] →
      ∃ m' inst', pauseAndResume id m (CJson.bytes "fade-in") 50 [(200,false)] 500 = some m' ∧
        m'.activeAnimations = [inst'] ∧
        ∀ x, 0 ≤ x → totalProgress inst' (500+x) = totalProgress inst (50+x)) ∧
    ∃ m m', (run (Watched.update id) (played (fadeIn 100 false false 1) plainNode 0)
        (frames [10,60])).node = some m ∧
      (run (Watched.update id) (played (fadeIn 100 false false 1) plainNode 0)
        (frames [30,50,60])).node = some m' ∧ m.rect = m'.rect ∧
      m.resolvedStyle = m'.resolvedStyle := by
  have hkeyframes : ∀ k ∈ (fadeIn 100 false false 1).keyframes,
      KeyframeHolds k ∧ KeyframeExact k := by
    intro k hk
    refine ⟨fadeIn_holds 100 false false 1 k hk,?_⟩
    rcases List.mem_pair.1 hk with rfl | rfl
    · exact plainKeyframe_exact 0 0
    · exact plainKeyframe_exact 100 1
  have hone : IsFinite (float 1) := ⟨1,by decide +kernel⟩
  have hzero : IsFinite (float 0) := ⟨0,by decide +kernel⟩
  have hexact : Exact plainNode.resolvedStyle :=
    ⟨hone,hone,hone,hzero,hzero,hzero,hzero,hzero,hzero,fun _ h => absurd h List.not_mem_nil⟩
  obtain ⟨hpause,hframes⟩ := @timing_kept id _ _ (by decide) rfl (by decide) hkeyframes
    plainNode_holds hexact 0
  refine ⟨fun m inst hm hsingle => ?_,hframes [10,60] [30,50,60] ?_ ?_ ?_⟩
  · obtain ⟨m',inst',hm',hsingle',_,hiff⟩ := hpause _ m inst hm hsingle 50 [(200,false)] 500
    have hgives : (run (Watched.update id) (played (fadeIn 100 false false 1) plainNode 0)
        [(50,false)]).node.map (fun n => n.activeAnimations.map fun inst =>
          decide (SegmentGivesTime inst 50)) = some [true] := by decide +kernel
    rw [hm,Option.map_some,Option.some_inj,hsingle,List.map_singleton,List.cons.injEq] at hgives
    exact ⟨m',inst',hm',hsingle',hiff.2 (of_decide_eq_true hgives.1)⟩
  · refine ⟨by decide +kernel,fun hr => absurd hr (by decide),fun t _ a b ha hb k hk => ?_⟩
    obtain ⟨_,_,rfl⟩ := fadeIn_plain hk
    obtain ⟨_,_,rfl⟩ := fadeIn_plain (List.mem_of_getElem? ha)
    obtain ⟨_,_,rfl⟩ := fadeIn_plain (List.mem_of_getElem? hb)
    exact ⟨plainKeyframe_covers _ _ _ _,plainKeyframe_covers _ _ _ _⟩
  · exact Guarded.of_forall (fadeIn_noOverflow 100 false false 1) _ _
  · exact Guarded.of_forall (fadeIn_noOverflow 100 false false 1) _ _

/-- A fade that is over at 50 milliseconds and goes back, and one that begins with whatever
opacity the node has. -/
def fadeAndBack : AnimationDef :=
  { fadeIn 100 false false 1 with
    keyframes := [plainKeyframe 0 0,plainKeyframe 50 1,plainKeyframe 100 0] }

def fadeOut : AnimationDef :=
  { fadeIn 100 false false 1 with
    keyframes := [{ plainKeyframe 0 0 with opacity := none },plainKeyframe 100 0] }

/-- What a run of frames leaves of the opacity. -/
def opacityAfter (d : AnimationDef) (ts : List ℤ) : Option Amount :=
  (run (Watched.update id) (played d plainNode 0) (frames ts)).node.map (·.resolvedStyle.opacity)

/-- Paused at 75 milliseconds, the fade and back resumes at 50. A fade out from the opacity of
the node depends on the frames before, and so does a plain one at its end. -/
theorem timing_lost :
    ((run (Watched.update id) (played fadeAndBack plainNode 0) (frames [75])).node.bind fun m =>
        pauseAndResume id m fadeAndBack.name 75 [] 500).map
          (fun m => m.activeAnimations.map (totalProgress · 500)) ≠
      (run (Watched.update id) (played fadeAndBack plainNode 0) (frames [75])).node.map
        (fun m => m.activeAnimations.map (totalProgress · 75)) ∧
    opacityAfter fadeOut [50] ≠ opacityAfter fadeOut [25,50] ∧
    opacityAfter (fadeIn 100 false false 1) [100] ≠
      opacityAfter (fadeIn 100 false false 1) [50,100] :=
  ⟨by decide +kernel,by decide +kernel,by decide +kernel⟩

end Filly.Animation

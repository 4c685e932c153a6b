import Filly.Requests
import Filly.SessionTable

/-!
# Pending positions

A `position` message leaves its fields in the session, and the next widget
request that is dispatched takes them. Whether a field is pending is read off
its value: a negative coordinate, a zero index and an empty text mean none. A
request that reaches `handle_client` with a session id takes nothing.
-/
namespace Filly.Daemon
open CJson SessionStore Protocol Runs

/-! ## Character arrays -/

/-- `strncpy(a, src, sizeof(a)-1)`; the last character stays. -/
def CharArray.strncpy {n : ℕ} (a : CharArray n) (src : Bytes) : CharArray n :=
  ⟨(src++List.replicate n 0).take (n-1)++a.1.drop (n-1),by
    have := a.2
    simp only [List.length_append,List.length_take,List.length_replicate,List.length_drop]
    omega⟩

/-- The C string in an array; absent when it runs on past the end. -/
def CharArray.text {n : ℕ} (a : CharArray n) : Option Bytes :=
  if 0 ∈ a.1 then some (a.1.takeWhile (· ≠ 0)) else none

/-- `!a[0]`. -/
def CharArray.isEmpty {n : ℕ} (a : CharArray n) : Bool := a.1.head? = some 0

/-! ## Messages -/

/-- The fields a `position` message supplies; a text ends at its first NUL. -/
structure Pending where
  x : Option ℤ
  y : Option ℤ
  anchor : Option Bytes
  relativeTo : Option Bytes
  zIndex : Option ℤ
  deriving DecidableEq, Repr

def supplied (json : Json) : Pending where
  x := numberField json (bytes "x")
  y := numberField json (bytes "y")
  anchor := (stringField json (bytes "anchor")).map (List.takeWhile (· ≠ 0))
  relativeTo := (stringField json (bytes "relative_to")).map (List.takeWhile (· ≠ 0))
  zIndex := numberField json (bytes "z_index")

def handlePosition (json : Json) (s : Session) : Session :=
  let p := supplied json
  { s with widgetPositionX := p.x.getD s.widgetPositionX
           widgetPositionY := p.y.getD s.widgetPositionY
           widgetAnchor := p.anchor.elim s.widgetAnchor s.widgetAnchor.strncpy
           widgetRelativeTo := p.relativeTo.elim s.widgetRelativeTo s.widgetRelativeTo.strncpy
           widgetZIndex := p.zIndex.getD s.widgetZIndex }

/-- `if (a[0]) own = strdup(a)`; absent when the text runs past its array. -/
def takeText {n : ℕ} (a : CharArray n) (own : Option Bytes) : Option (Option Bytes) :=
  if a.isEmpty then some own else a.text.map some

/-- A dispatched widget request takes what is pending. -/
def takePosition (s : Session) (req : WidgetRequest) : Option WidgetRequest :=
  (takeText s.widgetAnchor req.anchor).bind fun anchor =>
    (takeText s.widgetRelativeTo req.relativeTo).map fun relativeTo =>
      { req with x := if 0 ≤ s.widgetPositionX then s.widgetPositionX else req.x
                 y := if 0 ≤ s.widgetPositionY then s.widgetPositionY else req.y
                 anchor := anchor
                 relativeTo := relativeTo
                 zIndex := if s.widgetZIndex ≠ 0 then s.widgetZIndex else req.zIndex }

def clearPosition (s : Session) : Session :=
  { s with widgetPositionX := if 0 ≤ s.widgetPositionX then -1 else s.widgetPositionX
           widgetPositionY := if 0 ≤ s.widgetPositionY then -1 else s.widgetPositionY
           widgetAnchor := s.widgetAnchor.cut
           widgetRelativeTo := s.widgetRelativeTo.cut
           widgetZIndex := 0 }

/-! ## What positions are for -/

def Pending.none : Pending := ⟨Option.none,Option.none,Option.none,Option.none,Option.none⟩

/-- The last value supplied for a field wins. -/
def Pending.add (p q : Pending) : Pending where
  x := q.x.or p.x
  y := q.y.or p.y
  anchor := q.anchor.or p.anchor
  relativeTo := q.relativeTo.or p.relativeTo
  zIndex := q.zIndex.or p.zIndex

def Pending.override (p : Pending) (req : WidgetRequest) : WidgetRequest :=
  { req with x := p.x.getD req.x
             y := p.y.getD req.y
             anchor := p.anchor.or req.anchor
             relativeTo := p.relativeTo.or req.relativeTo
             zIndex := p.zIndex.getD req.zIndex }

/-! ## Messages of one session -/

inductive SessionMessage where
  | position (json : Json)
  /-- A widget request that `dispatch_message` handles. -/
  | dispatched (req : WidgetRequest)
  /-- A widget request that names the session in the first line of a connection. -/
  | direct (req : WidgetRequest)

/-- The session, what has been supplied since the last widget request, and for
each request so far what it became and what it should have become. -/
structure PositionState where
  session : Session
  pending : Pending
  answers : List (Option WidgetRequest × WidgetRequest)

def positionStep (s : PositionState) : SessionMessage → PositionState
  | .position json =>
      { s with session := handlePosition json s.session, pending := s.pending.add (supplied json) }
  | .dispatched req =>
      ⟨clearPosition s.session,Pending.none,
        s.answers++[(takePosition s.session req,s.pending.override req)]⟩
  | .direct req => ⟨s.session,Pending.none,s.answers++[(some req,s.pending.override req)]⟩

def positionStart (session : Session) : PositionState := ⟨session,Pending.none,[]⟩

/-- Every request so far became what it should. -/
def Overridden (s : PositionState) : Prop := ∀ a ∈ s.answers, a.1 = some a.2

/-! ## When a field is taken -/

/-- An integer field, with the values that stand for none. -/
def IntTaken (unset : ℤ → Prop) (pending : Option ℤ) (stored own : ℤ) : Prop :=
  match pending with
  | some v => ¬unset v ∨ own = v
  | none => unset stored ∨ stored = own

/-- A text field. A text that fills its array needs the NUL that was there. -/
def TextTaken {n : ℕ} (pending : Option Bytes) (stored : CharArray n) (own : Option Bytes) : Prop :=
  match pending with
  | some [] => own = some []
  | some t => t.length+1 < n ∨ t.length+1 = n ∧ stored.1.getLast? = some 0
  | none => stored.isEmpty ∨ ∃ t, stored.text = some t ∧ own = some t

structure Taken (s : PositionState) (req : WidgetRequest) : Prop where
  x : IntTaken (· < 0) s.pending.x s.session.widgetPositionX req.x
  y : IntTaken (· < 0) s.pending.y s.session.widgetPositionY req.y
  anchor : TextTaken s.pending.anchor s.session.widgetAnchor req.anchor
  relativeTo : TextTaken s.pending.relativeTo s.session.widgetRelativeTo req.relativeTo
  zIndex : IntTaken (· = 0) s.pending.zIndex s.session.widgetZIndex req.zIndex

/-- A request that takes nothing has to have the pending values of itself. -/
structure Holds (p : Pending) (req : WidgetRequest) : Prop where
  x : ∀ v ∈ p.x, req.x = v
  y : ∀ v ∈ p.y, req.y = v
  anchor : ∀ t ∈ p.anchor, req.anchor = some t
  relativeTo : ∀ t ∈ p.relativeTo, req.relativeTo = some t
  zIndex : ∀ v ∈ p.zIndex, req.zIndex = v

def Applies (s : PositionState) : SessionMessage → Prop
  | .position _ => True
  | .dispatched req => Taken s req
  | .direct req => Holds s.pending req

/-! ## Texts in arrays -/

section
variable {n : ℕ}

theorem text_of_append {a : CharArray n} {t r : Bytes} (ht : 0 ∉ t) (ha : a.1 = t++0::r) :
    a.text = some t := by
  have hm : 0 ∈ a.1 := by simp [ha]
  rw [CharArray.text,if_pos hm,ha,takeWhile_ne_append_cons ht]

theorem text_of_notMem {a : CharArray n} (h : 0 ∉ a.1) : a.text = none := if_neg h

theorem drop_last (a : CharArray (n+1)) : ∃ b, a.1.drop n = [b] ∧ a.1.getLast? = some b := by
  have hlen : (a.1.drop n).length = 1 := by
    rw [List.length_drop,a.2]
    omega
  obtain ⟨b,hb⟩ := List.length_eq_one_iff.mp hlen
  refine ⟨b,hb,?_⟩
  have hsplit := List.take_append_drop n a.1
  rw [hb] at hsplit
  rw [← hsplit]
  simp

theorem strncpy_eq (a : CharArray (n+1)) (t : Bytes) : ∃ b, a.1.getLast? = some b ∧
    (a.strncpy t).1 = (t++List.replicate (n+1) 0).take n++[b] := by
  obtain ⟨b,hb,hlast⟩ := drop_last a
  refine ⟨b,hlast,?_⟩
  change (t++List.replicate (n+1) 0).take n++a.1.drop n = _
  rw [hb]

theorem getLast_strncpy (a : CharArray (n+1)) (t : Bytes) :
    (a.strncpy t).1.getLast? = a.1.getLast? := by
  obtain ⟨b,hb,ha⟩ := strncpy_eq a t
  rw [ha,hb]
  simp

theorem isEmpty_strncpy (a : CharArray (n+2)) {t : Bytes} (ht : 0 ∉ t) :
    (a.strncpy t).isEmpty = true ↔ t = [] := by
  obtain ⟨b,-,ha⟩ := strncpy_eq a t
  unfold CharArray.isEmpty
  rw [ha]
  cases t with
  | nil => simp [List.replicate_succ]
  | cons c t =>
      have hc : c ≠ 0 := fun h => ht (by simp [h])
      simp [hc]

/-- The text that was copied is the one that is read, if it leaves room for its
NUL. -/
theorem text_strncpy_iff (a : CharArray (n+1)) {t : Bytes} (ht : 0 ∉ t) :
    (a.strncpy t).text = some t ↔
      t.length+1 < n+1 ∨ t.length+1 = n+1 ∧ a.1.getLast? = some 0 := by
  obtain ⟨b,hb,ha⟩ := strncpy_eq a t
  rcases Nat.lt_trichotomy t.length n with hlt | heq | hgt
  · have hroom : (a.strncpy t).1 = t++0::(List.replicate (n-t.length-1) 0++[b]) := by
      have hz : n-t.length = (n-t.length-1)+1 := by omega
      rw [ha,List.take_append,List.take_of_length_le hlt.le,List.take_replicate,
        Nat.min_eq_left (by omega),hz,List.replicate_succ]
      simp
    exact iff_of_true (text_of_append ht hroom) (Or.inl (by omega))
  · have hfull : (a.strncpy t).1 = t++[b] := by
      rw [ha,List.take_append_of_le_length (Nat.le_of_eq heq.symm),List.take_of_length_le heq.le]
    rw [hb]
    by_cases h0 : b = 0
    · subst h0
      exact iff_of_true (text_of_append ht hfull) (Or.inr ⟨by omega,rfl⟩)
    · have hn : 0 ∉ (a.strncpy t).1 := by
        rw [hfull,List.mem_append,not_or]
        exact ⟨ht,by simpa using Ne.symm h0⟩
      rw [text_of_notMem hn]
      apply iff_of_false
      · simp
      · simp [h0,heq]
  · apply iff_of_false
    · intro htext
      have hcut : (a.strncpy t).1 = t.take n++[b] := by
        rw [ha,List.take_append_of_le_length hgt.le]
      unfold CharArray.text at htext
      split_ifs at htext with hm
      have hlen := congrArg List.length (Option.some_inj.mp htext)
      have hle := (takeWhile_nul_length (a.strncpy t).1).2 hm
      rw [hcut,List.length_append,List.length_take,List.length_singleton] at hle
      rw [hcut] at hlen
      omega
    · omega

end

/-! ## One request -/

theorem intTaken_iff {unset : ℤ → Prop} [DecidablePred unset] {pending : Option ℤ} {stored own : ℤ}
    (h : ∀ v ∈ pending, stored = v) :
    (if unset stored then own else stored) = pending.getD own ↔ IntTaken unset pending stored own := by
  cases pending with
  | none =>
      rw [Option.getD_none,IntTaken]
      split_ifs with hu <;> simp [hu]
  | some v =>
      obtain rfl := h v rfl
      rw [Option.getD_some,IntTaken]
      split_ifs with hu <;> simp [hu]

theorem textTaken_iff {n : ℕ} {pending own : Option Bytes} {stored : CharArray (n+2)}
    (h : ∀ t ∈ pending, 0 ∉ t ∧ ∃ a : CharArray (n+2), stored = a.strncpy t) :
    takeText stored own = some (pending.or own) ↔ TextTaken pending stored own := by
  unfold takeText
  cases pending with
  | none =>
      rw [Option.none_or,TextTaken]
      by_cases he : stored.isEmpty = true
      · simp [he]
      · rw [if_neg he]
        simp only [he,Bool.false_eq_true,false_or]
        constructor
        · intro ht
          obtain ⟨t,ht,hown⟩ := Option.map_eq_some_iff.mp ht
          exact ⟨t,ht,hown.symm⟩
        · rintro ⟨t,ht,rfl⟩
          rw [ht]
          rfl
  | some t =>
      obtain ⟨ht,a,rfl⟩ := h t rfl
      rw [Option.some_or]
      cases t with
      | nil =>
          rw [if_pos ((isEmpty_strncpy a ht).mpr rfl),TextTaken,Option.some_inj]
      | cons b t =>
          have hne : ¬(a.strncpy (b::t)).isEmpty = true := fun he => by
            cases (isEmpty_strncpy a ht).mp he
          have hmap : (a.strncpy (b::t)).text.map some = some (some (b::t)) ↔
              (a.strncpy (b::t)).text = some (b::t) := by
            simp
          rw [if_neg hne,hmap,text_strncpy_iff a ht,TextTaken,getLast_strncpy]
          simp

/-- Whatever is pending is in the session. -/
structure Tracks (p : Pending) (s : Session) : Prop where
  x : ∀ v ∈ p.x, s.widgetPositionX = v
  y : ∀ v ∈ p.y, s.widgetPositionY = v
  anchor : ∀ t ∈ p.anchor, 0 ∉ t ∧ ∃ a : CharArray 32, s.widgetAnchor = a.strncpy t
  relativeTo : ∀ t ∈ p.relativeTo, 0 ∉ t ∧ ∃ a : CharArray 64, s.widgetRelativeTo = a.strncpy t
  zIndex : ∀ v ∈ p.zIndex, s.widgetZIndex = v

theorem tracks_none (s : Session) : Tracks Pending.none s :=
  ⟨nofun,nofun,nofun,nofun,nofun⟩

theorem tracks_int {p q : Option ℤ} {stored : ℤ} (h : ∀ v ∈ p, stored = v) :
    ∀ v ∈ q.or p, q.getD stored = v := by
  cases q with
  | none => exact h
  | some w => exact fun v hv => Option.some_inj.mp hv

theorem tracks_text {n : ℕ} {p q : Option Bytes} {stored : CharArray n}
    (h : ∀ t ∈ p, 0 ∉ t ∧ ∃ a : CharArray n, stored = a.strncpy t) (hq : ∀ t ∈ q, 0 ∉ t) :
    ∀ t ∈ q.or p, 0 ∉ t ∧ ∃ a : CharArray n, q.elim stored stored.strncpy = a.strncpy t := by
  cases q with
  | none => exact h
  | some u =>
      intro t ht
      obtain rfl := Option.some_inj.mp ht
      exact ⟨hq u rfl,stored,rfl⟩

theorem supplied_nul (o : Option Bytes) : ∀ t ∈ o.map (List.takeWhile (· ≠ 0)), 0 ∉ t := by
  intro t ht
  obtain ⟨u,-,rfl⟩ := Option.map_eq_some_iff.mp ht
  exact nul_notMem_takeWhile u

theorem tracks_position {p : Pending} {s : Session} (h : Tracks p s) (json : Json) :
    Tracks (p.add (supplied json)) (handlePosition json s) where
  x := tracks_int h.x
  y := tracks_int h.y
  anchor := tracks_text h.anchor (supplied_nul _)
  relativeTo := tracks_text h.relativeTo (supplied_nul _)
  zIndex := tracks_int h.zIndex

theorem ite_nonneg (v own : ℤ) : (if 0 ≤ v then v else own) = if v < 0 then own else v := by
  split_ifs <;> omega

theorem takePosition_iff {s : PositionState} (h : Tracks s.pending s.session) (req : WidgetRequest) :
    takePosition s.session req = some (s.pending.override req) ↔ Taken s req := by
  unfold takePosition
  simp only [ite_nonneg,ite_not]
  constructor
  · intro ht
    obtain ⟨anchor,hanchor,ht⟩ := Option.bind_eq_some_iff.mp ht
    obtain ⟨relativeTo,hrelative,ht⟩ := Option.map_eq_some_iff.mp ht
    have h₁ : anchor = s.pending.anchor.or req.anchor := congrArg WidgetRequest.anchor ht
    have h₂ : relativeTo = s.pending.relativeTo.or req.relativeTo :=
      congrArg WidgetRequest.relativeTo ht
    constructor
    · exact (intTaken_iff h.x).mp (congrArg WidgetRequest.x ht)
    · exact (intTaken_iff h.y).mp (congrArg WidgetRequest.y ht)
    · exact (textTaken_iff h.anchor).mp (h₁ ▸ hanchor)
    · exact (textTaken_iff h.relativeTo).mp (h₂ ▸ hrelative)
    · exact (intTaken_iff h.zIndex).mp (congrArg WidgetRequest.zIndex ht)
  · intro ht
    rw [(textTaken_iff h.anchor).mpr ht.anchor,(textTaken_iff h.relativeTo).mpr ht.relativeTo,
      Option.bind_some,Option.map_some,(intTaken_iff h.x).mpr ht.x,(intTaken_iff h.y).mpr ht.y,
      (intTaken_iff h.zIndex).mpr ht.zIndex]
    rfl

theorem getD_eq_iff (p : Option ℤ) (own : ℤ) : own = p.getD own ↔ ∀ v ∈ p, own = v := by
  cases p <;> simp

theorem or_eq_iff (p own : Option Bytes) : own = p.or own ↔ ∀ t ∈ p, own = some t := by
  cases p <;> simp

theorem override_eq_iff (p : Pending) (req : WidgetRequest) :
    req = p.override req ↔ Holds p req := by
  constructor
  · intro h
    constructor
    · exact (getD_eq_iff _ _).mp (congrArg WidgetRequest.x h)
    · exact (getD_eq_iff _ _).mp (congrArg WidgetRequest.y h)
    · exact (or_eq_iff _ _).mp (congrArg WidgetRequest.anchor h)
    · exact (or_eq_iff _ _).mp (congrArg WidgetRequest.relativeTo h)
    · exact (getD_eq_iff _ _).mp (congrArg WidgetRequest.zIndex h)
  · intro h
    rw [Pending.override,← (getD_eq_iff _ _).mpr h.x,← (getD_eq_iff _ _).mpr h.y,
      ← (or_eq_iff _ _).mpr h.anchor,← (or_eq_iff _ _).mpr h.relativeTo,
      ← (getD_eq_iff _ _).mpr h.zIndex]

/-! ## Runs -/

theorem overridden_snoc (answers : List (Option WidgetRequest × WidgetRequest))
    (a : Option WidgetRequest × WidgetRequest) :
    (∀ b ∈ answers++[a], b.1 = some b.2) ↔ (∀ b ∈ answers, b.1 = some b.2) ∧ a.1 = some a.2 := by
  simp [or_imp,forall_and]

theorem overridden_start (session : Session) : Overridden (positionStart session) := by
  intro a ha
  cases ha

theorem tracks_step {s : PositionState} (h : Tracks s.pending s.session) (m : SessionMessage) :
    Tracks (positionStep s m).pending (positionStep s m).session := by
  cases m with
  | position json => exact tracks_position h json
  | dispatched req => exact tracks_none _
  | direct req => exact tracks_none _

theorem overridden_step_iff {s : PositionState} (ho : Overridden s)
    (h : Tracks s.pending s.session) (m : SessionMessage) :
    Overridden (positionStep s m) ↔ Applies s m := by
  cases m with
  | position json => exact iff_of_true ho trivial
  | dispatched req =>
      exact (overridden_snoc _ _).trans ((and_iff_right ho).trans (takePosition_iff h req))
  | direct req =>
      exact (overridden_snoc _ _).trans ((and_iff_right ho).trans
        (Option.some_inj.trans (override_eq_iff s.pending req)))

/-- Along the messages of a session, whatever it held at first, every request is
overridden by what was supplied exactly when every field meets its condition. -/
theorem overridden_iff_applies (session : Session) (ms : List SessionMessage) :
    Always positionStep Overridden (positionStart session) ms ↔
      Guarded positionStep Applies (positionStart session) ms := by
  have htracks := always_of_invariant (I := fun s => Tracks s.pending s.session)
    (fun _ m h => tracks_step h m) (positionStart session) ms (tracks_none session)
  constructor
  · intro h
    apply (h.and htracks).guarded
    exact fun s m hs hs' => (overridden_step_iff hs.1 hs.2 m).mp hs'.1
  · intro h
    have hkept := h.always (I := fun s => Overridden s ∧ Tracks s.pending s.session)
      (fun s m hs hm => ⟨(overridden_step_iff hs.1 hs.2 m).mpr hm,tracks_step hs.2 m⟩)
      ⟨overridden_start session,tracks_none session⟩
    exact hkept.imp fun _ hs => hs.1

/-- `{"widget":"menu","x":7}`. -/
def menuRequest : WidgetRequest :=
  widgetRequest (.object [(bytes "widget",.string (bytes "menu")),(bytes "x",.number ⟨false,7,0⟩)])

/-- `{"type":"position","x":-5}`. -/
def positionLeft : Json :=
  .object [(bytes "type",.string (bytes "position")),(bytes "x",.number ⟨true,5,0⟩)]

/-- A restored session moves the first request to the origin although nothing was
supplied, and a new session forgets a negative coordinate. -/
theorem position_sentinels :
    ¬Always positionStep Overridden (positionStart (restoredSession (bytes "65f0a1") storeNew))
        [.dispatched menuRequest] ∧
      (takePosition (restoredSession (bytes "65f0a1") storeNew) menuRequest).map WidgetRequest.x =
        some 0 ∧
      ¬Always positionStep Overridden
        (positionStart (newSession 1700000000 140245718640320 (.zeros 32)
          (.zeros 64))) [.position positionLeft,.dispatched menuRequest] := by
  have hrestored : (takePosition (restoredSession (bytes "65f0a1") storeNew) menuRequest).map
      WidgetRequest.x = some 0 := by decide +kernel
  refine ⟨fun h => ?_,hrestored,fun h => ?_⟩
  · have hanswer := h.finish _ (List.mem_singleton_self _)
    have hx := congrArg (Option.map WidgetRequest.x) hanswer
    exact absurd (hrestored.symm.trans hx) (by decide +kernel)
  · have hanswer := h.finish _ (List.mem_singleton_self _)
    have hx := congrArg (Option.map WidgetRequest.x) hanswer
    exact absurd hx (by decide +kernel)

end Filly.Daemon

import Filly.EventRecords
import Filly.RingBuffer
import Filly.Runs

/-!
# The event queue of the headless backend

Tests put events into a ring of 128 slots and the session takes them out. Each of the three
writers sets the fields of its kind only, so a slot that has been used before keeps the
others. A queue that is found empty after an event ends the session with one Escape.

The picture of the backend is left out.
-/
namespace Filly.HeadlessQueue
open EventRecords RingBuffer Runs
open Keys (KeyCode MouseState)

structure HeadlessBackend where
  termW : Int32
  termH : Int32
  eventQueue : Ring Event 128
  eventsInjected : Bool
  autoEofSent : Bool

def headlessBackendInit (w height : Int32) : HeadlessBackend where
  termW := w
  termH := height
  eventQueue := ⟨fun _ => {},0,0⟩
  eventsInjected := false
  autoEofSent := false

/-- What an injection writes into a slot. -/
def writeKey (code : KeyCode) (ch : Int8) (slot : Event) : Event :=
  { slot with type := .key, code := keyNumber code, ch := ch }

def writeMouse (type : EventType) (x y button : Int32) (slot : Event) : Event :=
  let slot := { slot with type := type, x := x, y := y, button := button }
  if type = .mouseButton then { slot with mouseState := .press }
  else if type = .mouseMotion then { slot with mouseState := .motion }
  else if type = .mouseDragStart ∨ type = .mouseDragMove then
    { slot with mouseState := .motion, dragDx := x, dragDy := y }
  else slot

def writeResize (w height : Int32) (slot : Event) : Event :=
  { slot with type := .resize, w := w, h := height }

/-- A full queue drops the event. -/
def inject (hl : HeadlessBackend) (write : Event → Event) : HeadlessBackend :=
  if hl.eventQueue.isFull then hl else { hl with eventQueue := hl.eventQueue.push write }

def headlessInjectKey (hl : HeadlessBackend) (code : KeyCode) (ch : Int8) : HeadlessBackend :=
  inject hl (writeKey code ch)

def headlessInjectMouse (hl : HeadlessBackend) (type : EventType) (x y button : Int32) :
    HeadlessBackend :=
  inject hl (writeMouse type x y button)

def headlessInjectResize (hl : HeadlessBackend) (w height : Int32) : HeadlessBackend :=
  inject { hl with termW := w, termH := height } (writeResize w height)

def hlNextEvent (hl : HeadlessBackend) : Event × HeadlessBackend :=
  if hl.eventQueue.isEmpty then
    if hl.eventsInjected ∧ ¬hl.autoEofSent then
      ({ type := .key, code := keyNumber .keyEsc },{ hl with autoEofSent := true })
    else ({},hl)
  else
    (hl.eventQueue.slots hl.eventQueue.head,
      { hl with eventsInjected := true, eventQueue := hl.eventQueue.pop })

/-! ## Runs -/

inductive Injection where
  | key (code : KeyCode) (ch : Int8)
  | mouse (type : EventType) (x y button : Int32)
  | resize (w height : Int32)

inductive Op where
  | inject (i : Injection)
  | nextEvent

def Injection.perform (hl : HeadlessBackend) : Injection → HeadlessBackend
  | .key code ch => headlessInjectKey hl code ch
  | .mouse type x y button => headlessInjectMouse hl type x y button
  | .resize w height => headlessInjectResize hl w height

def Injection.write : Injection → Event → Event
  | .key code ch => writeKey code ch
  | .mouse type x y button => writeMouse type x y button
  | .resize w height => writeResize w height

/-- The backend, and the events that it has returned. -/
structure Play where
  hl : HeadlessBackend
  events : List Event

def Play.step (p : Play) : Op → Play
  | .inject i => { p with hl := i.perform p.hl }
  | .nextEvent => ⟨(hlNextEvent p.hl).2,p.events++[(hlNextEvent p.hl).1]⟩

def playStart (w height : Int32) : Play := ⟨headlessBackendInit w height,[]⟩

/-! ## A queue as it is meant -/

/-- The fields of the kind of the event, and zeros. -/
def Injection.event : Injection → Event
  | .key code ch => { type := .key, code := keyNumber code, ch := ch }
  | .mouse type x y button =>
      { type := type
        x := x
        y := y
        button := button
        mouseState := if type ∈ [.mouseMotion,.mouseDragStart,.mouseDragMove] then .motion
          else .press
        dragDx := if type ∈ [.mouseDragStart,.mouseDragMove] then x else 0
        dragDy := if type ∈ [.mouseDragStart,.mouseDragMove] then y else 0 }
  | .resize w height => { type := .resize, w := w, h := height }

inductive Delivery where
  | event (e : Event)
  | escape
  | nothing
  deriving DecidableEq

def Delivery.read : Delivery → Event
  | .event e => e
  | .escape => { type := .key, code := keyNumber .keyEsc }
  | .nothing => {}

def Delivery.event? : Delivery → Option Event
  | .event e => some e
  | .escape | .nothing => none

/-- The events that wait, those that have been accepted, and what has been delivered. -/
structure Feed where
  pending : List Event := []
  accepted : List Event := []
  deliveries : List Delivery := []

/-- With 127 events waiting another one is dropped. -/
def Feed.inject (f : Feed) (e : Event) : Feed :=
  if f.pending.length = 127 then f
  else { f with pending := f.pending++[e], accepted := f.accepted++[e] }

/-- The first time that nothing waits after an event has been delivered, it is an Escape. -/
def Feed.next (f : Feed) : Feed :=
  match f.pending with
  | e::rest => { f with pending := rest, deliveries := f.deliveries++[.event e] }
  | [] =>
      if f.deliveries.filterMap Delivery.event? ≠ [] ∧ .escape ∉ f.deliveries then
        { f with deliveries := f.deliveries++[.escape] }
      else { f with deliveries := f.deliveries++[.nothing] }

def Feed.step (f : Feed) : Op → Feed
  | .inject i => f.inject i.event
  | .nextEvent => f.next

/-- The events are delivered in the order in which they have been accepted. An Escape is
what is found first where nothing waits after an event. -/
structure Orderly (f : Feed) : Prop where
  fifo : f.accepted = f.deliveries.filterMap Delivery.event?++f.pending
  escape : ∀ before d behind, f.deliveries = before++d::behind → d.event? = none →
    (d = .escape ↔ before.filterMap Delivery.event? ≠ [] ∧ .escape ∉ before)

theorem escape_append {ds : List Delivery} {d : Delivery}
    (h : ∀ before d behind, ds = before++d::behind → d.event? = none →
      (d = .escape ↔ before.filterMap Delivery.event? ≠ [] ∧ .escape ∉ before))
    (hd : d.event? = none → (d = .escape ↔ ds.filterMap Delivery.event? ≠ [] ∧ .escape ∉ ds)) :
    ∀ before e behind, ds++[d] = before++e::behind → e.event? = none →
      (e = .escape ↔ before.filterMap Delivery.event? ≠ [] ∧ .escape ∉ before) := by
  intro before e behind heq he
  rcases List.eq_nil_or_concat behind with rfl | ⟨behind,e',rfl⟩
  · obtain ⟨rfl,hde⟩ := List.append_inj' heq rfl
    obtain rfl := List.singleton_inj.1 hde
    exact hd he
  · rw [List.concat_eq_append,← List.cons_append,← List.append_assoc] at heq
    exact h before e behind (List.append_inj' heq rfl).1 he

theorem Orderly.step {f : Feed} (h : Orderly f) (op : Op) : Orderly (f.step op) := by
  cases op with
  | inject i =>
      rw [Feed.step,Feed.inject]
      split_ifs
      · exact h
      · exact ⟨by rw [h.fifo,List.append_assoc],h.escape⟩
  | nextEvent =>
      rw [Feed.step,Feed.next]
      split
      · next e rest hpending =>
          refine ⟨?_,escape_append h.escape fun he => absurd he (by simp [Delivery.event?])⟩
          rw [h.fifo,hpending,List.filterMap_append]
          simp [Delivery.event?]
      · next hpending =>
          split_ifs with hdue
          · refine ⟨?_,escape_append h.escape fun _ => iff_of_true rfl hdue⟩
            rw [h.fifo,List.filterMap_append]
            simp [Delivery.event?]
          · refine ⟨?_,escape_append h.escape fun _ => iff_of_false (by simp) hdue⟩
            rw [h.fifo,List.filterMap_append]
            simp [Delivery.event?]

/-! ## Slots that have been used -/

/-- What an injection leaves of a slot: the fields that it sets are zeroed. -/
def Injection.leaves (slot : Event) : Injection → Event
  | .key _ _ => { slot with type := .none, code := 0, ch := 0 }
  | .mouse type _ _ _ =>
      { slot with
        type := .none
        x := 0
        y := 0
        button := 0
        mouseState := if type ∈ [.mouseButton,.mouseMotion,.mouseDragStart,.mouseDragMove] then
          .press else slot.mouseState
        dragDx := if type ∈ [.mouseDragStart,.mouseDragMove] then 0 else slot.dragDx
        dragDy := if type ∈ [.mouseDragStart,.mouseDragMove] then 0 else slot.dragDy }
  | .resize _ _ => { slot with type := .none, w := 0, h := 0 }

/-- An accepted injection finds nothing in its slot but what it sets. -/
def FindsBlank (p : Play) : Op → Prop
  | .inject i => ¬p.hl.eventQueue.isFull →
      i.leaves (p.hl.eventQueue.slots p.hl.eventQueue.tail) = {}
  | .nextEvent => True

theorem write_eq_event_iff (i : Injection) (slot : Event) :
    i.write slot = i.event ↔ i.leaves slot = {} := by
  cases i with
  | key code ch => simp [Injection.write,writeKey,Injection.event,Injection.leaves,Event.ext_iff]
  | resize w height =>
      simp [Injection.write,writeResize,Injection.event,Injection.leaves,Event.ext_iff]
  | mouse type x y button =>
      cases type <;>
        simp [Injection.write,writeMouse,Injection.event,Injection.leaves,Event.ext_iff]

/-- The ring holds what waits, and the flags tell what has been delivered. -/
structure Agrees (p : Play) (f : Feed) : Prop where
  events : p.events = f.deliveries.map Delivery.read
  waiting : p.hl.eventQueue.contents = f.pending
  injected : p.hl.eventsInjected = true ↔ f.deliveries.filterMap Delivery.event? ≠ []
  escaped : p.hl.autoEofSent = true ↔ .escape ∈ f.deliveries

theorem agrees_start (w height : Int32) : Agrees (playStart w height) {} :=
  ⟨rfl,(contents_eq_nil_iff _).2 rfl,by simp [playStart,headlessBackendInit],
    by simp [playStart,headlessBackendInit]⟩

theorem perform_eq (i : Injection) (hl : HeadlessBackend) :
    ∃ w height, i.perform hl = inject { hl with termW := w, termH := height } i.write := by
  cases i with
  | key code ch => exact ⟨_,_,rfl⟩
  | mouse type x y button => exact ⟨_,_,rfl⟩
  | resize w height => exact ⟨_,_,rfl⟩

theorem Agrees.inject {p : Play} {f : Feed} (h : Agrees p f) {i : Injection}
    (hi : FindsBlank p (.inject i)) : Agrees (p.step (.inject i)) (f.step (.inject i)) := by
  obtain ⟨w,height,hperform⟩ := perform_eq i p.hl
  have hfull : p.hl.eventQueue.isFull ↔ f.pending.length = 127 := by
    rw [isFull_iff,← h.waiting,length_contents]
    omega
  rw [Play.step,hperform,HeadlessQueue.inject,Feed.step,Feed.inject]
  by_cases hroom : p.hl.eventQueue.isFull
  · rw [if_pos hroom,if_pos (hfull.1 hroom)]
    exact ⟨h.events,h.waiting,h.injected,h.escaped⟩
  · rw [if_neg hroom,if_neg (mt hfull.2 hroom)]
    refine ⟨h.events,?_,h.injected,h.escaped⟩
    rw [contents_push hroom,h.waiting,(write_eq_event_iff _ _).2 (hi hroom)]

theorem Agrees.next {p : Play} {f : Feed} (h : Agrees p f) :
    Agrees (p.step .nextEvent) (f.step .nextEvent) := by
  rw [Play.step,hlNextEvent,Feed.step,Feed.next]
  by_cases hempty : p.hl.eventQueue.isEmpty
  · have hpending : f.pending = [] := by rw [← h.waiting,contents_eq_nil_iff]; exact hempty
    have hdue : p.hl.eventsInjected ∧ ¬p.hl.autoEofSent ↔
        f.deliveries.filterMap Delivery.event? ≠ [] ∧ .escape ∉ f.deliveries :=
      and_congr h.injected (not_congr h.escaped)
    rw [if_pos hempty,hpending]
    by_cases hnow : p.hl.eventsInjected ∧ ¬p.hl.autoEofSent
    · rw [if_pos hnow]
      dsimp only
      rw [if_pos (hdue.1 hnow)]
      refine ⟨by simp [h.events,Delivery.read],h.waiting.trans hpending,?_,by simp⟩
      simpa [List.filterMap_append,Delivery.event?] using h.injected
    · rw [if_neg hnow]
      dsimp only
      rw [if_neg (mt hdue.2 hnow)]
      refine ⟨by simp [h.events,Delivery.read],h.waiting.trans hpending,?_,?_⟩
      · simpa [List.filterMap_append,Delivery.event?] using h.injected
      · simpa using h.escaped
  · have hpending := h.waiting.symm.trans (contents_pop hempty)
    rw [if_neg hempty,hpending]
    dsimp only
    refine ⟨by simp [h.events,Delivery.read],rfl,?_,?_⟩
    · simp [List.filterMap_append,Delivery.event?]
    · simpa using h.escaped

/-- In a run whose injections find blank slots the events come out as from a queue. -/
theorem queue_delivers (w height : Int32) (ops : List Op)
    (h : Guarded Play.step FindsBlank (playStart w height) ops) :
    (run Play.step (playStart w height) ops).events =
        (run Feed.step {} ops).deliveries.map Delivery.read ∧
      Orderly (run Feed.step {} ops) := by
  have key : ∀ ops p f, Agrees p f → Orderly f → Guarded Play.step FindsBlank p ops →
      Agrees (run Play.step p ops) (run Feed.step f ops) ∧ Orderly (run Feed.step f ops) := by
    intro ops
    induction ops with
    | nil => exact fun p f hagrees horderly _ => ⟨hagrees,horderly⟩
    | cons op ops ih =>
        intro p f hagrees horderly hguard
        refine ih _ _ ?_ (horderly.step op) hguard.2
        cases op with
        | inject i => exact hagrees.inject hguard.1
        | nextEvent => exact hagrees.next
  have hstart : Orderly {} := ⟨rfl,fun before d behind heq => absurd heq (by simp)⟩
  obtain ⟨hagrees,horderly⟩ := key ops _ _ (agrees_start w height) hstart h
  exact ⟨hagrees.events,horderly⟩

/-- A press, a key and a resize, all taken out again, and one read more. -/
def shortPlay : List Op :=
  [.inject (.mouse .mouseButton 3 4 1),.inject (.key .keyEnter 0),.nextEvent,
    .inject (.resize 100 40),.nextEvent,.nextEvent,.nextEvent]

theorem short_play_delivers :
    (run Play.step (playStart 80 24) shortPlay).events =
        (run Feed.step {} shortPlay).deliveries.map Delivery.read ∧
      Orderly (run Feed.step {} shortPlay) :=
  queue_delivers 80 24 shortPlay ⟨fun _ => by decide +kernel,fun _ => by decide +kernel,trivial,
    fun _ => by decide +kernel,trivial,trivial,trivial,trivial⟩

/-- A press is followed by 128 keys, and each event is taken out before the next one. -/
def longPlay : List Op :=
  [.inject (.mouse .mouseButton 3 4 1),.nextEvent]++
    (List.replicate 128 [.inject (.key .keyEnter 0),.nextEvent]).flatten

/-- The last key is delivered with the place of the press. -/
theorem stale_place_is_delivered :
    (run Play.step (playStart 80 24) longPlay).events ≠
      (run Feed.step {} longPlay).deliveries.map Delivery.read := by
  have hlast : (run Play.step (playStart 80 24) longPlay).events.getLast? =
      some { type := .key, code := keyNumber .keyEnter, x := 3, y := 4, button := 1 } := by
    decide +kernel
  have hmeant : ((run Feed.step {} longPlay).deliveries.map Delivery.read).getLast? =
      some { type := .key, code := keyNumber .keyEnter } := by
    decide +kernel
  intro h
  rw [h,hmeant] at hlast
  exact absurd hlast (by decide)

end Filly.HeadlessQueue

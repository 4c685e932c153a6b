import Filly.EventRecords
import Filly.Response
import Filly.UntrustedFiles

/-!
# The recorder

`core/recorder.c` keeps the frames and events of a session in two arrays, writes them to a
JSON file and reads such a file for a replay. Of an event only three fields are written. The
counters of a replay are the sizes of the arrays in the file, while the arrays of the
recorder are filled up to their own sizes. What indexes outside of an array, or reads a
member that is not there, has no outcome.
-/
namespace Filly.Recordings
open CJson Protocol EventRecords
open Builder (LoadFailure HasMembers number textMember valueintOf valuestringOf parsedFile
  mapM_map_ok mapM_eq_some_iff mapM_eq_ok_iff exists_forall₂_iff load_bind_iff load_pure_iff
  exists_load_bind_iff exists_load_pure valueintOf_loads_iff valueintOf_number readBack_number
  fixed_number fixed_array forall_strings_textMember)

def maxSnapshots : ℕ := 1024

def maxEvents : ℕ := 65536

/-- Of the response only these two are used. -/
structure RecordedFrame where
  widgetType : Option Bytes := none
  jsonParams : Option Bytes := none
  result : Option Json := none
  cancelled : Bool := false
  timestampMs : ℤ := 0
  ansiBuffer : Bytes := []

structure Recorder where
  frames : Fin maxSnapshots → RecordedFrame := fun _ => {}
  frameCount : ℕ := 0
  events : Fin maxEvents → Event := fun _ => {}
  eventCount : ℕ := 0
  recording : Bool := false
  replaying : Bool := false
  replayPos : ℕ := 0
  startTime : ℤ := 0

/-- `a[i]` -/
def readArray {α : Type} {n : ℕ} (a : Fin n → α) (i : ℕ) : Option α :=
  if h : i < n then some (a ⟨i,h⟩) else none

def writeArray {α : Type} {n : ℕ} (a : Fin n → α) (i : ℕ) (x : α) : Option (Fin n → α) :=
  if h : i < n then some (Function.update a ⟨i,h⟩ x) else none

/-- The first elements of an array. -/
def readFirst {α : Type} {n : ℕ} (a : Fin n → α) (count : ℕ) : Option (List α) :=
  (List.range count).mapM (readArray a)

/-- All frames that are counted are freed. -/
def recorderReset (r : Recorder) : Option Recorder :=
  (readFirst r.frames r.frameCount).map fun _ => {}

def recorderStart (now : ℤ) (r : Recorder) : Option Recorder :=
  (recorderReset r).map fun r => { r with recording := true, startTime := now*1000 }

def recorderStop (r : Recorder) : Recorder := { r with recording := false }

def recorderRecordFrame (now : ℤ) (widgetType jsonParams : Option Bytes) (resp : WidgetResponse)
    (ansiBuf : Bytes) (r : Recorder) : Option Recorder :=
  if r.recording = false ∨ maxSnapshots ≤ r.frameCount then some r
  else do
    let frames ← writeArray r.frames r.frameCount
      { widgetType := widgetType
        jsonParams := jsonParams
        result := resp.result
        cancelled := resp.cancelled
        timestampMs := now*1000-r.startTime
        ansiBuffer := ansiBuf }
    some { r with frames := frames, frameCount := r.frameCount+1 }

def recorderRecordEvent (ev : Event) (r : Recorder) : Option Recorder :=
  if r.recording = false ∨ maxEvents ≤ r.eventCount then some r
  else do
    let events ← writeArray r.events r.eventCount ev
    some { r with events := events, eventCount := r.eventCount+1 }

/-! ## The file -/

def frameTree (f : RecordedFrame) : Json :=
  .object (textMember "widget_type" f.widgetType++textMember "params" f.jsonParams++
    [(bytes "timestamp",.ofInt f.timestampMs)]++
    textMember "response" (f.result.bind cJSONPrintUnformatted)++
    [(bytes "cancelled",.bool f.cancelled)])

def eventTree (e : Event) : Json :=
  .object [(bytes "type",number e.type.code),(bytes "code",number e.code),
    (bytes "ch",number e.ch.toInt32)]

def recordingTree (frames : List RecordedFrame) (events : List Event) : Json :=
  .object [(bytes "version",.ofInt 1),(bytes "frame_count",.ofInt frames.length),
    (bytes "event_count",.ofInt events.length),(bytes "frames",.array (frames.map frameTree)),
    (bytes "events",.array (events.map eventTree))]

/-- A text that cannot be printed is a null pointer to `fprintf`. -/
def recordingText (frames : List RecordedFrame) (events : List Event) : Bytes :=
  (cJSONPrintUnformatted (recordingTree frames events)).getD (bytes "(null)")++[10]

/-- The file that is written, if there is a frame. -/
def recorderSave (r : Recorder) : Option (Option Bytes) :=
  if r.frameCount = 0 then some none
  else do
    let frames ← readFirst r.frames r.frameCount
    let events ← readFirst r.events r.eventCount
    some (some (recordingText frames events))

/-- The members are tested before they are used. -/
def loadFrame (f : Json) : RecordedFrame where
  widgetType := valuestringOf f "widget_type"
  jsonParams := valuestringOf f "params"
  result := (valuestringOf f "response").bind cJSONParse
  cancelled := ((f.getObjectItem (bytes "cancelled")).map Json.valueint).getD 0 ≠ 0

def loadEvent (e : Json) : Except LoadFailure Event := do
  let type ← valueintOf e "type"
  let code ← valueintOf e "code"
  let ch ← valueintOf e "ch"
  return { type := .ofCode type, code := code, ch := ch.toInt8 }

def loadFrames (root : Json) (r : Recorder) : Recorder :=
  match root.getObjectItem (bytes "frames") with
  | none => r
  | some frames =>
      let loaded := (frames.children.take maxSnapshots).map loadFrame
      { r with frameCount := frames.children.length, frames := fun i => loaded.getD i (r.frames i) }

def loadEvents (root : Json) (r : Recorder) : Except LoadFailure Recorder :=
  match root.getObjectItem (bytes "events") with
  | none => .ok r
  | some events => do
      let loaded ← (events.children.take maxEvents).mapM loadEvent
      return { r with eventCount := events.children.length, events := fun i => loaded.getD i (r.events i) }

/-- A file that cannot be opened is absent. -/
def recorderLoad (file : Option Bytes) (r : Recorder) : Option (Bool × Recorder) := do
  let r ← recorderReset r
  match file with
  | none => some (false,r)
  | some text =>
      match parsedFile text with
      | none => some (false,r)
      | some root =>
          match loadEvents root (loadFrames root r) with
          | .error _ => none
          | .ok r => some (true,{ r with replaying := true, replayPos := 0 })

/-! ## The replay -/

def recorderNextEvent (r : Recorder) : Option (Event × Recorder) :=
  if r.replaying = false ∨ r.eventCount ≤ r.replayPos then some ({},r)
  else do
    let ev ← readArray r.events r.replayPos
    some (ev,{ r with replayPos := r.replayPos+1 })

def recorderHasEvents (r : Recorder) : Bool := r.replaying && r.replayPos < r.eventCount

/-- The events of that many calls. -/
def nextEvents : ℕ → Recorder → Option (List Event × Recorder)
  | 0, r => some ([],r)
  | n+1, r => do
      let next ← recorderNextEvent r
      let rest ← nextEvents n next.2
      some (next.1::rest.1,rest.2)

/-! ## Arrays -/

section
variable {α : Type} {n : ℕ}

/-- The array begins with the elements of a list. -/
def Stores (a : Fin n → α) (l : List α) : Prop :=
  l.length ≤ n ∧ ∀ i x, l[i]? = some x → readArray a i = some x

theorem Stores.readFirst {a : Fin n → α} {l : List α} (h : Stores a l) :
    readFirst a l.length = some l := by
  rw [Recordings.readFirst,mapM_eq_some_iff,List.forall₂_iff_get]
  refine ⟨List.length_range,fun i _ hi => ?_⟩
  rw [List.get_eq_getElem,List.get_eq_getElem,List.getElem_range]
  exact h.2 i _ (List.getElem?_eq_getElem hi)

theorem readFirst_isSome_iff (a : Fin n → α) (count : ℕ) :
    (readFirst a count).isSome ↔ count ≤ n := by
  constructor
  · intro h
    obtain ⟨l,hl⟩ := Option.isSome_iff_exists.1 h
    rw [readFirst,mapM_eq_some_iff] at hl
    by_contra hlt
    have hread := (List.forall₂_iff_get.1 hl).2 n (by simpa using hlt)
      (by rw [← hl.length_eq]; simpa using hlt)
    rw [List.get_eq_getElem,List.getElem_range,readArray,dif_neg (lt_irrefl n)] at hread
    cases hread
  · intro h
    have hstores : Stores a ((List.ofFn a).take count) := by
      refine ⟨(List.length_take_le' _ _).trans_eq List.length_ofFn,fun i x hi => ?_⟩
      rw [List.getElem?_take] at hi
      split_ifs at hi
      rwa [List.getElem?_ofFn] at hi
    have hread := hstores.readFirst
    rw [List.length_take,List.length_ofFn,min_eq_left h] at hread
    exact Option.isSome_of_eq_some hread

theorem Stores.write {a : Fin n → α} {l : List α} (h : Stores a l) (hl : l.length < n) (x : α) :
    ∃ a', writeArray a l.length x = some a' ∧ Stores a' (l++[x]) := by
  refine ⟨_,dif_pos hl,by simpa using hl,fun i y hi => ?_⟩
  rcases lt_trichotomy i l.length with hlt | rfl | hgt
  · rw [List.getElem?_append_left hlt] at hi
    rw [← h.2 i y hi,readArray,readArray,dif_pos (hlt.trans hl),dif_pos (hlt.trans hl)]
    refine congrArg some (Function.update_of_ne ?_ _ _)
    simpa [Fin.ext_iff] using hlt.ne
  · rw [readArray,dif_pos hl,Function.update_self,← hi]
    simp
  · rw [List.getElem?_eq_none (by simpa using hgt)] at hi
    cases hi

theorem stores_getD {l : List α} (h : l.length ≤ n) (d : Fin n → α) :
    Stores (fun i => l.getD i (d i)) l := by
  refine ⟨h,fun i x hi => ?_⟩
  have hlt : i < n := (List.getElem?_eq_some_iff.1 hi).1.trans_le h
  rw [readArray,dif_pos hlt,List.getD_eq_getElem?_getD,hi]
  rfl

end

/-! ## A session -/

inductive Step where
  | frame (now : ℤ) (widgetType jsonParams : Option Bytes) (resp : WidgetResponse)
      (ansiBuf : Bytes)
  | event (ev : Event)

def Step.perform (r : Recorder) : Step → Option Recorder
  | .frame now widgetType jsonParams resp ansiBuf =>
      recorderRecordFrame now widgetType jsonParams resp ansiBuf r
  | .event ev => recorderRecordEvent ev r

/-- The recorder after a start, the steps and a stop. -/
def recorded (now : ℤ) (r : Recorder) (steps : List Step) : Option Recorder := do
  let r ← recorderStart now r
  let r ← steps.foldlM Step.perform r
  some (recorderStop r)

def Step.event? : Step → Option Event
  | .event ev => some ev
  | .frame .. => none

def Step.isFrame : Step → Bool
  | .frame .. => true
  | .event _ => false

def stepEvents (steps : List Step) : List Event := steps.filterMap Step.event?

/-- The frames of a session that begins at a time, without a limit to their number. -/
def stepFrames (startTime : ℤ) (steps : List Step) : List RecordedFrame :=
  steps.filterMap fun
    | .frame now widgetType jsonParams resp ansiBuf =>
        some ⟨widgetType,jsonParams,resp.result,resp.cancelled,now*1000-startTime,ansiBuf⟩
    | .event _ => none

/-- The arrays begin with these frames and events. -/
structure Keeps (r : Recorder) (frames : List RecordedFrame) (events : List Event) : Prop where
  framesStored : Stores r.frames frames
  framesCounted : r.frameCount = frames.length
  eventsStored : Stores r.events events
  eventsCounted : r.eventCount = events.length

theorem keeps_empty (startTime : ℤ) :
    Keeps { recording := true, startTime } [] [] :=
  ⟨⟨Nat.zero_le _,by simp⟩,rfl,⟨Nat.zero_le _,by simp⟩,rfl⟩

theorem recorderReset_isSome_iff (r : Recorder) :
    (recorderReset r).isSome ↔ r.frameCount ≤ maxSnapshots := by
  rw [recorderReset,Option.isSome_map,readFirst_isSome_iff]

theorem recorderReset_eq {r : Recorder} (h : r.frameCount ≤ maxSnapshots) :
    recorderReset r = some {} := by
  obtain ⟨r',hr'⟩ := Option.isSome_iff_exists.1 ((recorderReset_isSome_iff r).2 h)
  obtain ⟨frames,-,rfl⟩ := Option.map_eq_some_iff.1 hr'
  exact hr'

/-- A step adds its event, or its frame while there is room for one. -/
theorem Keeps.perform {r : Recorder} {frames : List RecordedFrame} {events : List Event}
    (h : Keeps r frames events) (hrecording : r.recording = true) (step : Step)
    (hroom : events.length+(stepEvents [step]).length ≤ maxEvents) :
    ∃ r', step.perform r = some r' ∧ r'.recording = true ∧ r'.startTime = r.startTime ∧
      Keeps r' ((frames++stepFrames r.startTime [step]).take maxSnapshots)
        (events++stepEvents [step]) := by
  obtain ⟨hframes,hframeCount,hevents,heventCount⟩ := h
  cases step with
  | event ev =>
      have hlt : events.length < maxEvents := hroom
      obtain ⟨a,ha,hstores⟩ := hevents.write hlt ev
      have hfull : ¬(r.recording = false ∨ maxEvents ≤ r.eventCount) := by
        rw [not_or,hrecording,heventCount]
        exact ⟨Bool.noConfusion,not_le.2 hlt⟩
      have htake : (frames++stepFrames r.startTime [.event ev]).take maxSnapshots = frames := by
        rw [show stepFrames r.startTime [.event ev] = [] from rfl,List.append_nil,
          List.take_of_length_le hframes.1]
      refine ⟨{ r with events := a, eventCount := r.eventCount+1 },?_,hrecording,rfl,?_⟩
      · rw [Step.perform,recorderRecordEvent,if_neg hfull,heventCount,ha]
        rfl
      · rw [htake]
        refine ⟨hframes,hframeCount,hstores,?_⟩
        rw [heventCount,List.length_append]
        rfl
  | frame now widgetType jsonParams resp ansiBuf =>
      rw [show stepEvents [.frame now widgetType jsonParams resp ansiBuf] = [] from rfl,
        List.append_nil]
      by_cases hlt : frames.length < maxSnapshots
      · obtain ⟨a,ha,hstores⟩ := hframes.write hlt
          ⟨widgetType,jsonParams,resp.result,resp.cancelled,now*1000-r.startTime,ansiBuf⟩
        have hfull : ¬(r.recording = false ∨ maxSnapshots ≤ r.frameCount) := by
          rw [not_or,hrecording,hframeCount]
          exact ⟨Bool.noConfusion,not_le.2 hlt⟩
        refine ⟨{ r with frames := a, frameCount := r.frameCount+1 },?_,hrecording,rfl,?_⟩
        · rw [Step.perform,recorderRecordFrame,if_neg hfull,hframeCount,ha]
          rfl
        · rw [List.take_of_length_le (by exact hstores.1)]
          refine ⟨hstores,?_,hevents,heventCount⟩
          rw [hframeCount,List.length_append]
          rfl
      · have hfull : r.recording = false ∨ maxSnapshots ≤ r.frameCount := by
          rw [hframeCount]
          exact Or.inr (not_lt.1 hlt)
        refine ⟨r,?_,hrecording,rfl,?_⟩
        · rw [Step.perform,recorderRecordFrame,if_pos hfull]
        · rw [List.take_append_of_le_length (not_lt.1 hlt),List.take_of_length_le hframes.1]
          exact ⟨hframes,hframeCount,hevents,heventCount⟩

theorem take_append_take {α : Type} (n : ℕ) (l k : List α) :
    (l.take n++k).take n = (l++k).take n := by
  rw [List.take_append,List.take_append,List.take_take,min_self,List.length_take]
  rcases Nat.le_total n l.length with h | h
  · rw [min_eq_left h,Nat.sub_self,Nat.sub_eq_zero_of_le h]
  · rw [min_eq_right h]

theorem Keeps.performAll {r : Recorder} {frames : List RecordedFrame} {events : List Event}
    (h : Keeps r frames events) (hrecording : r.recording = true) (steps : List Step)
    (hroom : events.length+(stepEvents steps).length ≤ maxEvents) :
    ∃ r', steps.foldlM Step.perform r = some r' ∧
      Keeps r' ((frames++stepFrames r.startTime steps).take maxSnapshots)
        (events++stepEvents steps) := by
  induction steps generalizing r frames events with
  | nil =>
      refine ⟨r,rfl,?_⟩
      simp only [stepFrames,stepEvents,List.filterMap_nil,List.append_nil]
      rwa [List.take_of_length_le h.framesStored.1]
  | cons step steps ih =>
      have hsplit : stepEvents (step::steps) = stepEvents [step]++stepEvents steps :=
        List.filterMap_append (l := [step])
      have hframes : stepFrames r.startTime (step::steps) =
          stepFrames r.startTime [step]++stepFrames r.startTime steps :=
        List.filterMap_append (l := [step])
      rw [hsplit,List.length_append] at hroom
      obtain ⟨r₁,hstep,hrecording₁,hstart,h₁⟩ := h.perform hrecording step (by omega)
      obtain ⟨r',hrun,h'⟩ := ih h₁ hrecording₁ (by rw [List.length_append]; omega)
      refine ⟨r',by rw [List.foldlM_cons,hstep]; exact hrun,?_⟩
      rw [hstart,take_append_take,List.append_assoc,List.append_assoc] at h'
      rwa [hsplit,hframes]

theorem recorded_keeps (now : ℤ) {r : Recorder} (h : r.frameCount ≤ maxSnapshots)
    {steps : List Step} (hroom : (stepEvents steps).length ≤ maxEvents) :
    ∃ r', recorded now r steps = some r' ∧ r'.frameCount ≤ maxSnapshots ∧
      Keeps r' ((stepFrames (now*1000) steps).take maxSnapshots) (stepEvents steps) := by
  obtain ⟨r',hrun,h'⟩ := (keeps_empty (now*1000)).performAll rfl steps
    (by rwa [List.length_nil,Nat.zero_add])
  rw [List.nil_append,List.nil_append] at h'
  refine ⟨recorderStop r',?_,?_,h'.1,h'.2,h'.3,h'.4⟩
  · rw [recorded,recorderStart,recorderReset_eq h]
    exact congrArg (Option.bind · fun r => some (recorderStop r)) hrun
  · exact h'.2.trans_le (List.length_take_le _ _)

theorem recorded_isSome {now : ℤ} {r r' : Recorder} {steps : List Step}
    (h : recorded now r steps = some r') : r.frameCount ≤ maxSnapshots := by
  rw [← recorderReset_isSome_iff]
  obtain ⟨r₀,hstart,-⟩ := Option.bind_eq_some_iff.1 h
  obtain ⟨r₁,hreset,-⟩ := Option.map_eq_some_iff.1 hstart
  exact Option.isSome_of_eq_some hreset

/-! ## The file of a session -/

/-- What the reader makes of the text that is written. -/
def reopened (frames : List RecordedFrame) (events : List Event) : Option Json :=
  (cJSONPrintUnformatted (recordingTree frames events)).bind fun _ =>
    readBack 0 (recordingTree frames events)

theorem Keeps.recorderSave {r : Recorder} {frames : List RecordedFrame} {events : List Event}
    (h : Keeps r frames events) (hne : frames ≠ []) :
    recorderSave r = some (some (recordingText frames events)) := by
  have hframes := h.framesStored.readFirst
  have hevents := h.eventsStored.readFirst
  rw [← h.framesCounted] at hframes
  rw [← h.eventsCounted] at hevents
  have hcount : r.frameCount ≠ 0 := by
    rw [h.framesCounted]
    exact mt List.length_eq_zero_iff.1 hne
  rw [Recordings.recorderSave,if_neg hcount,hframes,hevents]
  rfl

theorem parsedFile_saved (frames : List RecordedFrame) (events : List Event) :
    parsedFile (recordingText frames events) = reopened frames events := by
  rw [reopened,recordingText]
  cases ht : cJSONPrintUnformatted (recordingTree frames events) with
  | none =>
      have hnull : parsedFile (bytes "(null)"++[10]) = none := by decide
      exact hnull
  | some t =>
      have hnul : (0 : UInt8) ∉ t++[10] := by
        rw [cJSONPrintUnformatted_text ht,List.mem_append,not_or]
        exact ⟨(printable_text _).notMem (by decide),by decide⟩
      rw [parsedFile,Option.getD_some,takeWhile_nul hnul,cJSONPrintUnformatted_text ht]
      exact cJSONParse_text _ (endsNumber_cons (by decide) [0])

/-- The fields that the file has. -/
def replayed (e : Event) : Event := { type := e.type, code := e.code, ch := e.ch }

theorem loadEvent_eventTree (e : Event) : loadEvent (eventTree e) = .ok (replayed e) := by
  rw [loadEvent,valueintOf_number (n := e.type.code) rfl,valueintOf_number (n := e.code) rfl,
    valueintOf_number (n := e.ch.toInt32) rfl]
  simp only [bind,Except.bind,EventType.ofCode_code,Int8.toInt8_toInt32]
  rfl

theorem readBack_eventTree (e : Event) : readBack 2 (eventTree e) = some (eventTree e) := by
  refine readBack_object_fixed (by decide) ?_
  simp only [List.forall_mem_cons]
  exact ⟨fixed_number (by decide) 3 _,fixed_number (by decide) 3 _,fixed_number (by decide) 3 _,
    List.forall_mem_nil _⟩

theorem readItems_length {d : ℕ} {items read : List Json} (h : readItems d items = some read) :
    read.length = items.length := by
  induction items generalizing read with
  | nil => cases h; rfl
  | cons v vs ih =>
      rw [readItems] at h
      obtain ⟨w,-,h⟩ := Option.bind_eq_some_iff.1 h
      obtain ⟨ws,hws,rfl⟩ := Option.map_eq_some_iff.1 h
      rw [List.length_cons,List.length_cons,ih hws]

/-- Of the frames only the number is needed. -/
theorem reopened_lookups {frames : List RecordedFrame} {events : List Event} {root : Json}
    (h : reopened frames events = some root) :
    (∃ items, root.getObjectItem (bytes "frames") = some (.array items) ∧
      items.length = frames.length) ∧
    root.getObjectItem (bytes "events") = some (.array (events.map eventTree)) := by
  obtain ⟨_,-,hread⟩ := Option.bind_eq_some_iff.1 h
  rw [recordingTree,readBack,if_neg (by decide)] at hread
  obtain ⟨members,hmembers,rfl⟩ := Option.map_eq_some_iff.1 hread
  simp only [readMembers,readString_clean (show Clean (bytes "version") by decide),
    readString_clean (show Clean (bytes "frame_count") by decide),
    readString_clean (show Clean (bytes "event_count") by decide),
    readString_clean (show Clean (bytes "frames") by decide),
    readString_clean (show Clean (bytes "events") by decide),
    (fixed_array (by decide) (by decide) fun e _ => readBack_eventTree e :
      Builder.Fixed 1 (bytes "events",.array (events.map eventTree))).2,
    Option.bind_some,Option.bind_eq_some_iff,Option.map_eq_some_iff,Option.some_inj] at hmembers
  obtain ⟨v,-,_,⟨c,-,_,⟨d,-,_,⟨w,hw,_,⟨_,rfl,rfl⟩,rfl⟩,rfl⟩,rfl⟩,rfl⟩ := hmembers
  rw [readBack,if_neg (by decide)] at hw
  obtain ⟨items,hitems,rfl⟩ := Option.map_eq_some_iff.1 hw
  refine ⟨⟨items,rfl,?_⟩,rfl⟩
  rw [readItems_length hitems,List.length_map]

/-! ## The replay of a session -/

theorem recorderNextEvent_of_not_hasEvents {r : Recorder} (h : recorderHasEvents r = false) :
    recorderNextEvent r = some ({},r) := by
  rw [recorderNextEvent,if_pos]
  rw [recorderHasEvents,Bool.and_eq_false_iff,decide_eq_false_iff_not,not_lt] at h
  exact h

theorem nextEvents_of_not_hasEvents {r : Recorder} (h : recorderHasEvents r = false) (n : ℕ) :
    nextEvents n r = some (List.replicate n {},r) := by
  induction n with
  | zero => rfl
  | succ n ih =>
      rw [nextEvents,recorderNextEvent_of_not_hasEvents h]
      simp only [Option.bind_eq_bind,Option.bind_some,ih]
      rfl

/-- The events that are left, and then none. -/
theorem nextEvents_of_stores {r : Recorder} {events : List Event} (h : Stores r.events events)
    (hreplaying : r.replaying = true) (hcount : r.eventCount = events.length) (k : ℕ) :
    ∀ left read, events = read++left → r.replayPos = read.length →
      ∃ r', nextEvents (left.length+k) r = some (left++List.replicate k ({} : Event),r') := by
  intro left
  induction left generalizing r with
  | nil =>
      intro read hevents hpos
      rw [List.append_nil] at hevents
      refine ⟨r,?_⟩
      rw [List.length_nil,Nat.zero_add,List.nil_append]
      refine nextEvents_of_not_hasEvents ?_ k
      rw [recorderHasEvents,hpos,hcount,hevents]
      simp
  | cons ev left ih =>
      intro read hevents hpos
      have hget : events[r.replayPos]? = some ev := by
        rw [hevents,hpos]
        simp
      have hlt : r.replayPos < events.length := (List.getElem?_eq_some_iff.1 hget).1
      have hnext : recorderNextEvent r = some (ev,{ r with replayPos := r.replayPos+1 }) := by
        rw [recorderNextEvent,if_neg,h.2 _ _ hget]
        · rfl
        · rw [not_or,hreplaying,hcount]
          exact ⟨Bool.noConfusion,not_le.2 hlt⟩
      obtain ⟨r',hr'⟩ := ih (r := { r with replayPos := r.replayPos+1 }) h hreplaying hcount
        (read++[ev]) (by rw [hevents]; simp) (by simp [hpos])
      refine ⟨r',?_⟩
      rw [List.length_cons,Nat.add_right_comm,nextEvents,hnext]
      simp only [Option.bind_eq_bind,Option.bind_some,hr']
      rfl

/-- A file of the recorder itself. -/
theorem Keeps.recorderLoad {r : Recorder} {frames : List RecordedFrame} {events : List Event}
    (h : Keeps r frames events) {file : Bytes} {root : Json} (hfile : parsedFile file = some root)
    (hroot : reopened frames events = some root) :
    ∃ r', recorderLoad (some file) r = some (true,r') ∧ Stores r'.events (events.map replayed) ∧
      r'.eventCount = (events.map replayed).length ∧ r'.replaying = true ∧ r'.replayPos = 0 := by
  obtain ⟨⟨items,hitems,-⟩,hevents⟩ := reopened_lookups hroot
  have hlen : (events.map eventTree).length ≤ maxEvents := by
    rw [List.length_map]
    exact h.eventsStored.1
  have hload : loadEvents root (loadFrames root {}) = .ok { loadFrames root {} with
      eventCount := (events.map eventTree).length
      events := fun i => (events.map replayed).getD i ((loadFrames root {}).events i) } := by
    simp only [loadEvents,hevents,Json.children,List.take_of_length_le hlen,
      mapM_map_ok fun e _ => loadEvent_eventTree e]
    rfl
  refine ⟨{ loadFrames root {} with
      eventCount := (events.map eventTree).length
      events := fun i => (events.map replayed).getD i ((loadFrames root {}).events i)
      replaying := true, replayPos := 0 },?_,?_,?_,rfl,rfl⟩
  · rw [Recordings.recorderLoad,recorderReset_eq (h.framesCounted.trans_le h.framesStored.1)]
    simp only [Option.bind_eq_bind,Option.bind_some,hfile,hload]
  · exact stores_getD (by rwa [List.length_map] at hlen ⊢) _
  · rw [List.length_map,List.length_map]

/-! ## What a recording comes to -/

/-- Saved and loaded, the session is replayed as it was, and after it no event. -/
def Replays (now : ℤ) (r : Recorder) (steps : List Step) : Prop :=
  ∃ r₁ file ok r₂, recorded now r steps = some r₁ ∧ recorderSave r₁ = some (some file) ∧
    recorderLoad (some file) r₁ = some (ok,r₂) ∧
    ∀ k, ∃ r₃, nextEvents ((stepEvents steps).length+k) r₂ =
      some (stepEvents steps++List.replicate k ({} : Event),r₃)

/-- No field but the type, the code and the character is in use. -/
def Event.Plain (e : Event) : Prop := { e with type := .none, code := 0, ch := 0 } = ({} : Event)

instance (e : Event) : Decidable (Event.Plain e) := inferInstanceAs (Decidable (_ = _))

/-- The library prints the recording and reads what it has printed. -/
def Storable (frames : List RecordedFrame) (events : List Event) : Prop :=
  (cJSONPrintUnformatted (recordingTree frames events)).isSome ∧
    (readBack 0 (recordingTree frames events)).isSome

theorem reopened_isSome_iff (frames : List RecordedFrame) (events : List Event) :
    (reopened frames events).isSome ↔ Storable frames events := by
  rw [reopened,Storable]
  cases cJSONPrintUnformatted (recordingTree frames events) <;> simp

theorem replayed_eq_iff (e : Event) : replayed e = e ↔ Event.Plain e := by
  rw [Event.Plain,replayed,Event.ext_iff,Event.ext_iff]
  simp only [true_and]
  simp only [eq_comm]

theorem map_replayed_eq_iff (events : List Event) :
    events.map replayed = events ↔ ∀ e ∈ events, Event.Plain e := by
  have hmap := List.map_inj_left (l := events) (f := replayed) (g := id)
  rw [List.map_id] at hmap
  exact hmap.trans (forall₂_congr fun e _ => replayed_eq_iff e)

theorem eq_replicate_iff {α : Type} (l : List α) (a : α) :
    List.replicate l.length a = l ↔ ∀ b ∈ l, b = a := by
  rw [eq_comm,List.eq_replicate_iff]
  exact and_iff_right rfl

def RecordedFrame.texts (f : RecordedFrame) : List Bytes :=
  f.widgetType.toList++f.jsonParams.toList++(f.result.bind cJSONPrintUnformatted).toList

theorem readItems_isSome {d : ℕ} {items : List Json} (h : ∀ v ∈ items, (readBack d v).isSome) :
    (readItems d items).isSome := by
  induction items with
  | nil => rfl
  | cons v vs ih =>
      rw [List.forall_mem_cons] at h
      obtain ⟨w,hw⟩ := Option.isSome_iff_exists.1 h.1
      rw [readItems,hw,Option.bind_some,Option.isSome_map]
      exact ih h.2

theorem readMembers_isSome {d : ℕ} {members : List (Bytes × Json)}
    (h : ∀ m ∈ members, Clean m.1 ∧ (readBack d m.2).isSome) : (readMembers d members).isSome := by
  induction members with
  | nil => rfl
  | cons m ms ih =>
      rw [List.forall_mem_cons] at h
      obtain ⟨w,hw⟩ := Option.isSome_iff_exists.1 h.1.2
      rw [readMembers,readString_clean h.1.1,hw,Option.bind_some,Option.bind_some,
        Option.isSome_map]
      exact ih h.2

theorem readBack_frameTree {f : RecordedFrame} (h : ∀ s ∈ f.texts, Clean s) :
    (readBack 2 (frameTree f)).isSome := by
  have htext : ∀ (name : String) (text : Option Bytes), Clean (bytes name) →
      (∀ s ∈ text.toList, Clean s) →
        ∀ m ∈ textMember name text, Clean m.1 ∧ (readBack 3 m.2).isSome := by
    intro name text hname htext m hm
    obtain ⟨s,hs,rfl⟩ := List.mem_map.1 hm
    exact ⟨hname,by rw [readBack_string (htext s hs)]; rfl⟩
  rw [RecordedFrame.texts,List.forall_mem_append,List.forall_mem_append] at h
  rw [frameTree,readBack,if_neg (by decide),Option.isSome_map]
  apply readMembers_isSome
  simp only [List.forall_mem_append,List.forall_mem_cons]
  refine ⟨⟨⟨⟨htext _ _ (by decide) h.1.1,htext _ _ (by decide) h.1.2⟩,⟨by decide,?_⟩,
    List.forall_mem_nil _⟩,htext _ _ (by decide) h.2⟩,⟨by decide,?_⟩,List.forall_mem_nil _⟩
  · rw [Json.ofInt,readBack]
    rfl
  · rw [readBack]
    rfl

theorem strings_frameTree {f : RecordedFrame} (h : ∀ s ∈ f.texts, Clean s ∧ Fits s) :
    ∀ s ∈ (frameTree f).strings, Clean s ∧ Fits s := by
  rw [RecordedFrame.texts,List.forall_mem_append,List.forall_mem_append] at h
  rw [frameTree,Json.strings,forall_mem_membersStrings]
  simp only [List.forall_mem_append,List.forall_mem_cons]
  refine ⟨⟨⟨⟨?_,?_⟩,⟨⟨by decide,List.forall_mem_nil _⟩,List.forall_mem_nil _⟩⟩,?_⟩,
    ⟨⟨by decide,List.forall_mem_nil _⟩,List.forall_mem_nil _⟩⟩
  · exact (forall_strings_textMember (by decide) _).2 fun s hs => h.1.1 s (Option.mem_toList.2 hs)
  · exact (forall_strings_textMember (by decide) _).2 fun s hs => h.1.2 s (Option.mem_toList.2 hs)
  · exact (forall_strings_textMember (by decide) _).2 fun s hs => h.2 s (Option.mem_toList.2 hs)

theorem strings_recordingTree {frames : List RecordedFrame} (events : List Event)
    (h : ∀ f ∈ frames, ∀ s ∈ f.texts, Clean s ∧ Fits s) :
    ∀ s ∈ (recordingTree frames events).strings, Clean s ∧ Fits s := by
  rw [recordingTree,Json.strings,forall_mem_membersStrings]
  simp only [List.forall_mem_cons]
  refine ⟨⟨by decide,List.forall_mem_nil _⟩,⟨by decide,List.forall_mem_nil _⟩,
    ⟨by decide,List.forall_mem_nil _⟩,⟨by decide,?_⟩,⟨by decide,?_⟩,List.forall_mem_nil _⟩
  · rw [Json.strings,forall_mem_itemsStrings,List.forall_mem_map]
    exact fun f hf => strings_frameTree (h f hf)
  · rw [Json.strings,forall_mem_itemsStrings,List.forall_mem_map]
    intro e _
    rw [eventTree,Json.strings,forall_mem_membersStrings]
    simp only [List.forall_mem_cons]
    exact ⟨⟨by decide,List.forall_mem_nil _⟩,⟨by decide,List.forall_mem_nil _⟩,
      ⟨by decide,List.forall_mem_nil _⟩,List.forall_mem_nil _⟩

/-- Texts that come back one by one are enough. -/
theorem storable_of_clean {frames : List RecordedFrame} (events : List Event)
    (h : ∀ f ∈ frames, ∀ s ∈ f.texts, Clean s ∧ Fits s) : Storable frames events := by
  constructor
  · rw [cJSONPrintUnformatted_eq (strings_recordingTree events h)]
    rfl
  · rw [recordingTree,readBack,if_neg (by decide),Option.isSome_map]
    apply readMembers_isSome
    simp only [List.forall_mem_cons]
    refine ⟨⟨by decide,?_⟩,⟨by decide,?_⟩,⟨by decide,?_⟩,⟨by decide,?_⟩,⟨by decide,?_⟩,
      List.forall_mem_nil _⟩
    · rw [Json.ofInt,readBack]
      rfl
    · rw [Json.ofInt,readBack]
      rfl
    · rw [Json.ofInt,readBack]
      rfl
    · rw [readBack,if_neg (by decide),Option.isSome_map]
      apply readItems_isSome
      rw [List.forall_mem_map]
      exact fun f hf => readBack_frameTree fun s hs => (h f hf s hs).1
    · rw [readBack,if_neg (by decide),Option.isSome_map]
      apply readItems_isSome
      rw [List.forall_mem_map]
      exact fun e _ => by rw [readBack_eventTree]; rfl

/-- The frames that a session leaves. -/
def keptFrames (now : ℤ) (steps : List Step) : List RecordedFrame :=
  (stepFrames (now*1000) steps).take maxSnapshots

theorem keptFrames_ne_nil {now : ℤ} {steps : List Step} (h : ∃ step ∈ steps, step.isFrame) :
    keptFrames now steps ≠ [] := by
  obtain ⟨step,hmem,hframe⟩ := h
  rw [keptFrames,Ne,List.take_eq_nil_iff,not_or]
  refine ⟨by decide,fun hnil => ?_⟩
  cases step with
  | event ev => cases hframe
  | frame => exact absurd (List.filterMap_eq_nil_iff.1 hnil _ hmem) (Option.some_ne_none _)

/-- The replay decides. -/
theorem replays_iff_eq {now : ℤ} {r r₁ r₂ : Recorder} {steps : List Step} {file : Bytes} {ok : Bool}
    {events : List Event} (hrecorded : recorded now r steps = some r₁)
    (hsave : recorderSave r₁ = some (some file))
    (hload : recorderLoad (some file) r₁ = some (ok,r₂))
    (hnext : ∀ k, ∃ r₃, nextEvents ((stepEvents steps).length+k) r₂ =
      some (events++List.replicate k ({} : Event),r₃)) :
    Replays now r steps ↔ events = stepEvents steps := by
  constructor
  · rintro ⟨_,_,_,_,hrecorded',hsave',hload',hnext'⟩
    rw [hrecorded] at hrecorded'
    cases hrecorded'
    rw [hsave] at hsave'
    cases hsave'
    rw [hload] at hload'
    cases hload'
    obtain ⟨_,h⟩ := hnext 0
    obtain ⟨_,h'⟩ := hnext' 0
    rw [h'] at h
    simp only [List.replicate_zero,List.append_nil,Option.some_inj,Prod.mk.injEq] at h
    exact h.1.symm
  · rintro rfl
    exact ⟨r₁,file,ok,r₂,hrecorded,hsave,hload,hnext⟩

theorem replays_iff (now : ℤ) (r : Recorder) (steps : List Step)
    (hframe : ∃ step ∈ steps, step.isFrame) (hroom : (stepEvents steps).length ≤ maxEvents) :
    Replays now r steps ↔ r.frameCount ≤ maxSnapshots ∧
      ((∀ e ∈ stepEvents steps, e = {}) ∨ (∀ e ∈ stepEvents steps, Event.Plain e) ∧
        Storable (keptFrames now steps) (stepEvents steps)) := by
  by_cases hcount : r.frameCount ≤ maxSnapshots
  · rw [and_iff_right hcount]
    obtain ⟨r₁,hrecorded,hcount₁,hkeeps⟩ := recorded_keeps now hcount hroom
    have hsave := Keeps.recorderSave hkeeps (keptFrames_ne_nil hframe)
    have hparsed := parsedFile_saved (keptFrames now steps) (stepEvents steps)
    rw [← reopened_isSome_iff]
    cases hreopened : reopened (keptFrames now steps) (stepEvents steps) with
    | none =>
        rw [hreopened] at hparsed
        have hload : recorderLoad (some (recordingText (keptFrames now steps) (stepEvents steps))) r₁ =
            some (false,{}) := by
          rw [recorderLoad,recorderReset_eq hcount₁]
          simp only [Option.bind_eq_bind,Option.bind_some,hparsed]
        rw [replays_iff_eq hrecorded hsave hload fun k =>
          ⟨{},by rw [nextEvents_of_not_hasEvents rfl,List.replicate_add]⟩,eq_replicate_iff]
        simp
    | some root =>
        rw [hreopened] at hparsed
        obtain ⟨r₂,hload,hstores,hevents,hreplaying,hpos⟩ :=
          Keeps.recorderLoad hkeeps hparsed hreopened
        rw [replays_iff_eq hrecorded hsave hload fun k => by
          have h := nextEvents_of_stores hstores hreplaying hevents k _ [] rfl hpos
          rwa [List.length_map] at h,map_replayed_eq_iff]
        refine ⟨fun h => Or.inr ⟨h,rfl⟩,fun h e he => ?_⟩
        rcases h with h | h
        · rw [h e he]
          rfl
        · exact h.1 e he
  · refine iff_of_false (fun h => ?_) fun h => hcount h.1
    obtain ⟨r₁,_,_,_,hrecorded,_⟩ := h
    exact hcount (recorded_isSome hrecorded)

/-! ## Any file -/

/-- The load has an outcome, and so has all that may follow it. -/
def LoadsSafely (r : Recorder) (file : Bytes) : Prop :=
  ∃ ok r', recorderLoad (some file) r = some (ok,r') ∧ r'.frameCount ≤ maxSnapshots ∧
    r'.eventCount ≤ maxEvents ∧ (recorderReset r').isSome ∧ ∀ n, (nextEvents n r').isSome

/-- The arrays of the file are not longer than those of the recorder, and each event has the
three members. -/
def SafeFile (file : Bytes) : Prop :=
  ∀ root, parsedFile file = some root →
    (∀ frames, root.getObjectItem (bytes "frames") = some frames →
      frames.children.length ≤ maxSnapshots) ∧
    ∀ events, root.getObjectItem (bytes "events") = some events →
      events.children.length ≤ maxEvents ∧
        ∀ e ∈ events.children, HasMembers e ["type","code","ch"]

theorem loadEvent_loads_iff (e : Json) :
    (∃ ev, loadEvent e = .ok ev) ↔ HasMembers e ["type","code","ch"] := by
  simp only [loadEvent,exists_load_bind_iff,exists_load_pure,and_true,exists_and_right,
    valueintOf_loads_iff,HasMembers,List.forall_mem_cons]
  simp

theorem recorderNextEvent_isSome {r : Recorder} (h : r.eventCount ≤ maxEvents) :
    ∃ ev pos, recorderNextEvent r = some (ev,{ r with replayPos := pos }) := by
  by_cases hend : r.replaying = false ∨ r.eventCount ≤ r.replayPos
  · exact ⟨_,_,if_pos hend⟩
  · have hlt : r.replayPos < maxEvents := (not_le.1 (not_or.1 hend).2).trans_le h
    refine ⟨r.events ⟨r.replayPos,hlt⟩,r.replayPos+1,?_⟩
    rw [recorderNextEvent,if_neg hend,readArray,dif_pos hlt]
    rfl

theorem nextEvents_isSome {r : Recorder} (h : r.eventCount ≤ maxEvents) (n : ℕ) :
    (nextEvents n r).isSome := by
  induction n generalizing r with
  | zero => rfl
  | succ n ih =>
      obtain ⟨ev,pos,hnext⟩ := recorderNextEvent_isSome h
      obtain ⟨rest,hrest⟩ := Option.isSome_iff_exists.1 (ih (r := { r with replayPos := pos }) h)
      rw [nextEvents,hnext]
      simp only [Option.bind_eq_bind,Option.bind_some,hrest]
      rfl

theorem loadFrames_frameCount_le_iff (root : Json) :
    (loadFrames root {}).frameCount ≤ maxSnapshots ↔
      ∀ frames, root.getObjectItem (bytes "frames") = some frames →
        frames.children.length ≤ maxSnapshots := by
  rw [loadFrames]
  cases root.getObjectItem (bytes "frames") with
  | none => exact iff_of_true (Nat.zero_le _) fun _ h => by cases h
  | some frames => simp

theorem loadEvents_frameCount {root : Json} {r r' : Recorder} (h : loadEvents root r = .ok r') :
    r'.frameCount = r.frameCount := by
  rw [loadEvents] at h
  split at h
  · cases h
    rfl
  · obtain ⟨loaded,-,hr'⟩ := load_bind_iff.1 h
    cases hr'
    rfl

theorem loadEvents_iff {root : Json} {r : Recorder} (h : r.eventCount ≤ maxEvents) :
    (∃ r', loadEvents root r = .ok r' ∧ r'.eventCount ≤ maxEvents) ↔
      ∀ events, root.getObjectItem (bytes "events") = some events →
        events.children.length ≤ maxEvents ∧
          ∀ e ∈ events.children, HasMembers e ["type","code","ch"] := by
  rw [loadEvents]
  cases root.getObjectItem (bytes "events") with
  | none => exact iff_of_true ⟨r,rfl,h⟩ fun _ h => by cases h
  | some events =>
      simp only [load_bind_iff,load_pure_iff,Option.some_inj,forall_eq']
      constructor
      · rintro ⟨r',⟨loaded,hloaded,rfl⟩,hcount⟩
        rw [List.take_of_length_le hcount,mapM_eq_ok_iff] at hloaded
        exact ⟨hcount,fun e he => (loadEvent_loads_iff e).1
          (exists_forall₂_iff.1 ⟨loaded,hloaded⟩ e he)⟩
      · rintro ⟨hcount,hmembers⟩
        obtain ⟨loaded,hloaded⟩ := exists_forall₂_iff.2 fun e he =>
          (loadEvent_loads_iff e).2 (hmembers e he)
        refine ⟨_,⟨loaded,?_,rfl⟩,hcount⟩
        rwa [List.take_of_length_le hcount,mapM_eq_ok_iff]

theorem loadFrames_eventCount (root : Json) : (loadFrames root {}).eventCount = 0 := by
  rw [loadFrames]
  split <;> rfl

theorem loadsSafely_iff_safeFile (r : Recorder) (file : Bytes) :
    LoadsSafely r file ↔ r.frameCount ≤ maxSnapshots ∧ SafeFile file := by
  by_cases hcount : r.frameCount ≤ maxSnapshots
  · rw [and_iff_right hcount,LoadsSafely,recorderLoad,recorderReset_eq hcount,SafeFile]
    simp only [Option.bind_eq_bind,Option.bind_some]
    cases parsedFile file with
    | none =>
        refine iff_of_true ⟨false,{},rfl,Nat.zero_le _,Nat.zero_le _,rfl,?_⟩ fun _ h => by cases h
        exact fun n => nextEvents_isSome (Nat.zero_le _) n
    | some root =>
        have hzero : (loadFrames root {}).eventCount ≤ maxEvents := by
          rw [loadFrames_eventCount]
          exact Nat.zero_le _
        simp only [Option.some_inj,forall_eq']
        rw [← loadFrames_frameCount_le_iff,← loadEvents_iff hzero]
        constructor
        · rintro ⟨ok,r',hload,hframes,hevents,-⟩
          cases hloaded : loadEvents root (loadFrames root {}) with
          | error => rw [hloaded] at hload; cases hload
          | ok r₁ =>
              rw [hloaded] at hload
              cases hload
              rw [← loadEvents_frameCount hloaded]
              exact ⟨hframes,r₁,rfl,hevents⟩
        · rintro ⟨hframes,r₁,hloaded,hevents⟩
          rw [← loadEvents_frameCount hloaded] at hframes
          rw [hloaded]
          exact ⟨true,_,rfl,hframes,hevents,(recorderReset_isSome_iff _).2 hframes,
            fun n => nextEvents_isSome (r := { r₁ with replaying := true, replayPos := 0 }) hevents n⟩
  · refine iff_of_false (fun h => ?_) fun h => hcount h.1
    obtain ⟨ok,r',hload,_⟩ := h
    obtain ⟨r₀,hreset,_⟩ := Option.bind_eq_some_iff.1 hload
    exact hcount ((recorderReset_isSome_iff r).1 (Option.isSome_of_eq_some hreset))

/-- A session is replayed exactly when its events have a type, a code and a character only, and
a file is loaded exactly when it is no larger than the recorder and misses no member. -/
theorem recorder_round_trip (now : ℤ) (r : Recorder) {steps : List Step}
    (hframe : ∃ step ∈ steps, step.isFrame) (hroom : (stepEvents steps).length ≤ maxEvents)
    (file : Bytes) :
    (Replays now r steps ↔ r.frameCount ≤ maxSnapshots ∧
      ((∀ e ∈ stepEvents steps, e = {}) ∨ (∀ e ∈ stepEvents steps, Event.Plain e) ∧
        Storable (keptFrames now steps) (stepEvents steps))) ∧
    (LoadsSafely r file ↔ r.frameCount ≤ maxSnapshots ∧ SafeFile file) :=
  ⟨replays_iff now r steps hframe hroom,loadsSafely_iff_safeFile r file⟩

/-- A frame and an event. -/
def sessionOf (ev : Event) : List Step :=
  [.frame 0 none none { result := none, cancelled := false, error := none } [],.event ev]

theorem parsedFile_text (j : Json) : parsedFile j.text = readBack 0 j := by
  rw [parsedFile,takeWhile_nul ((printable_text j).notMem (by decide)),cJSONParse_text_nil]

/-- The key Enter is replayed, and a file without arrays loaded. -/
theorem enter_is_replayed :
    Replays 0 {} (sessionOf { type := .key, code := 13 }) ∧
      LoadsSafely {} (bytes "\x7b\x7d") := by
  have hfile : parsedFile (bytes "\x7b\x7d") = some (.object []) := rfl
  have h := @recorder_round_trip 0 {} (sessionOf { type := .key, code := 13 })
    ⟨_,List.mem_cons_self,rfl⟩ (by decide) (bytes "\x7b\x7d")
  refine ⟨h.1.2 ⟨by decide,Or.inr ⟨by decide,storable_of_clean _ ?_⟩⟩,
    h.2.2 ⟨by decide,fun root hroot => ?_⟩⟩
  · exact List.forall_mem_singleton.2 (List.forall_mem_nil _)
  · rw [hfile] at hroot
    cases hroot
    constructor <;> intro _ h <;> cases h

/-- A click comes back without its place, and an event without members cannot be loaded. -/
theorem click_is_not_replayed :
    ¬Replays 0 {} (sessionOf { type := .mouseButton, x := 3, y := 4, button := 1 }) ∧
      ¬LoadsSafely {} (bytes "\x7b\"events\":[\x7b\x7d]\x7d") := by
  have htext : bytes "\x7b\"events\":[\x7b\x7d]\x7d" =
      (Json.object [(bytes "events",.array [.object []])]).text := by decide
  have hfile := parsedFile_text (.object [(bytes "events",.array [.object []])])
  constructor
  · rw [replays_iff 0 {} (sessionOf _) ⟨_,List.mem_cons_self,rfl⟩ (by decide)]
    rintro ⟨-,h | ⟨h,-⟩⟩
    · exact absurd h (by decide)
    · exact absurd h (by decide)
  · rw [htext,loadsSafely_iff_safeFile]
    rintro ⟨-,h⟩
    have hmembers := ((h _ hfile).2 _ rfl).2 _ List.mem_cons_self
    exact absurd (hmembers "type" List.mem_cons_self) (by decide)

end Filly.Recordings

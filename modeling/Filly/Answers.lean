import Filly.Dispatch

/-!
# Which lines are answered

The conditions below say of a line, before anything is done with it, whether it
will get one reply. They follow the kinds of messages, not the code.
-/
namespace Filly.Daemon
open CJson MsgPack SessionStore Protocol Numerals

def IsLine (text : Bytes) : Prop := ∃ t, text = t++[10] ∧ 10 ∉ t

/-- One reply, which is a line unless MessagePack was negotiated, and no search
for a null name. -/
def Answered (e : Surroundings) (h : Handled) : Prop :=
  (∃ kind text, h.replies = [(kind,text)] ∧ (e.useMsgpack = false → IsLine text)) ∧
    h.nullLookup = false

/-! ## Lines that are answered -/

/-- The printed text exists and, for MessagePack, can be converted. -/
def Sendable (useMsgpack : Bool) (json : Option Bytes) : Prop :=
  ∃ text, json = some text ∧ (useMsgpack = true → ∃ root, cJSONParse text = some root ∧
    ∀ result, root.getObjectItem (bytes "result") = some result →
      (cJSONPrintUnformatted result).isSome)

/-- The request names a widget and the response to it can be sent. -/
def WidgetAnswerable (e : Surroundings) (req : WidgetRequest) : Prop :=
  ∃ name, req.widget = some name ∧ Sendable e.useMsgpack
    (widgetResponseToJson ((widgetRegistryCreate e.registry name req).getD unknownWidget))

/-- What the schema asks of a message. -/
def WellTyped (json : Json) : Prop :=
  (∀ w, json.getObjectItem (bytes "widget") = some w → isOfType w (bytes "string")) ∧
    ∀ p, json.getObjectItem (bytes "params") = some p → isOfType p (bytes "object")

def knownTypes : List Bytes :=
  [bytes "quit",bytes "ping",bytes "subscribe",bytes "unsubscribe",bytes "query",bytes "position",
    bytes "reload_theme",bytes "reload_plugins",bytes "set_accessibility",bytes "session"]

/-- A message of a known type is not a subscription, nor a session message with
another action than the two, nor a query whose answer cannot be sent. -/
def TypedAnswerable (e : Surroundings) (json : Json) (session : Session) (type : Bytes) : Prop :=
  type ≠ bytes "subscribe" ∧
    (type = bytes "session" → stringField json (bytes "action") = some (bytes "create") ∨
      stringField json (bytes "action") = some (bytes "destroy")) ∧
    (type = bytes "query" → ∀ id, stringField json (bytes "widget_id") = some id →
      Sendable e.useMsgpack (Reply.queryResponse id (storeGet session.store id)).toJson)

def DispatchAnswerable (e : Surroundings) (json : Json) (session : Session) : Prop :=
  WellTyped json →
    (∀ type ∈ knownTypes, stringField json (bytes "type") = some type →
      TypedAnswerable e json session type) ∧
    ((∀ type ∈ knownTypes, stringField json (bytes "type") ≠ some type) →
      ∃ req, takePosition session (widgetRequest json) = some req ∧ WidgetAnswerable e req)

/-- The line goes to the dispatcher when it has a type and no widget. Otherwise
it is a widget request, unless its terminal cannot be used. -/
def WidgetLineAnswerable (e : Surroundings) (json : Json) : Prop :=
  if (stringField json (bytes "type")).isSome ∧ json.getObjectItem (bytes "widget") = none then
    DispatchAnswerable e json (newSession e.time e.thread e.anchor e.relativeTo)
  else
    ((widgetRequest json).relay = true ∧
      e.tty ((widgetRequest json).tty.getD (bytes "/dev/tty")) ≠ .opened) ∨
    WidgetAnswerable e (widgetRequest json)

/-- A handshake with capabilities. -/
def Acknowledged (first : Json) : Prop :=
  isHandshake first = true ∧ (first.getObjectItem (bytes "capabilities")).isSome

/-- A handshake has to list capabilities; a graphical connection is answered once
if either the handshake is acknowledged or the backend does not start. -/
def FirstLineAnswerable (e : Surroundings) (first : Json) : Prop :=
  if intField first (bytes "gui") ≠ 0 ∧ e.gui = some true then Acknowledged first
  else if intField first (bytes "gui") ≠ 0 ∧ e.gui = some false then ¬Acknowledged first
  else if isHandshake first then Acknowledged first
  else WidgetLineAnswerable e first

/-- The line fits into the buffer, and it is JSON unless the dispatcher gets it,
which says that it is not. -/
def Answerable (e : Surroundings) (place : Place) (line : Bytes) : Prop :=
  line.length ≤ 524286 ∧
    match place with
    | .first => ∃ first, cJSONParse (line.takeWhile (· ≠ 0)) = some first ∧
        FirstLineAnswerable e first
    | .afterHandshake => ∃ json, cJSONParse (line.takeWhile (· ≠ 0)) = some json ∧
        WidgetLineAnswerable e json
    | .loop session => ∀ json, cJSONParse (line.takeWhile (· ≠ 0)) = some json →
        DispatchAnswerable e json session

/-! ## Single replies -/

section
variable {e : Surroundings}

theorem not_answered_silent : ¬Answered e silent := by
  rintro ⟨⟨kind,text,h,-⟩,-⟩
  cases h

theorem answered_replied {kind : ReplyKind} {text : Bytes} (h : IsLine text) :
    Answered e (replied kind text) :=
  ⟨⟨kind,text,rfl,fun _ => h⟩,rfl⟩

theorem answered_error {message : Bytes} (hlen : message.length ≤ 400) (hnl : 10 ∉ message) :
    Answered e (sendError message) := by
  apply answered_replied
  have hhead : errorHead.length ≤ 100 := by decide
  have htail : (bytes "\"\x7d\n").length = 3 := by decide
  rw [List.take_of_length_le (by rw [List.length_append,List.length_append]; omega)]
  refine ⟨errorHead++message++bytes "\"\x7d",?_,?_⟩
  · rw [List.append_assoc _ _ [10]]
    rfl
  · simp only [List.mem_append,not_or]
    exact ⟨⟨by decide,hnl⟩,by decide⟩

theorem answered_ok : Answered e sendOk :=
  answered_replied ⟨bytes "\x7b\"type\":\"response\",\"result\":null,\"cancelled\":false\x7d",rfl,
    by decide⟩

theorem writeReply_ne_nil (root : Json) (result : Option Bytes) :
    (writeReply (msgpackWriterInit replyBuffer) root result).written ≠ [] := by
  rw [writeReply_written]
  have hcons : ∀ t rest, encodeReply t result rest = 0x84::(encodeReply t result rest).drop 1 :=
    fun _ _ => rfl
  rw [hcons,List.take_succ_cons]
  exact List.cons_ne_nil _ _

theorem sendPrinted_eq {useMsgpack : Bool} {kind : ReplyKind} {json : Option Bytes} {t : Bytes}
    (h : json.bind (sendResponseMsgpack useMsgpack) = some t) (ht : t ≠ []) :
    sendPrinted useMsgpack kind json = replied kind t := by
  unfold sendPrinted
  rw [h]
  cases t with
  | nil => exact absurd rfl ht
  | cons b t => rfl

theorem sendPrinted_silent {useMsgpack : Bool} {kind : ReplyKind} {json : Option Bytes}
    (h : ∀ text, json.bind (sendResponseMsgpack useMsgpack) = some text → text = []) :
    sendPrinted useMsgpack kind json = silent := by
  unfold sendPrinted
  cases hs : json.bind (sendResponseMsgpack useMsgpack) with
  | none => rfl
  | some text =>
      rw [h text hs]

/-- Conversion gives something exactly when the text is parsed and its result
can be printed. -/
theorem sendResponseMsgpack_iff (text : Bytes) :
    (∃ message, sendResponseMsgpack true text = some message ∧ message ≠ []) ↔
      ∃ root, cJSONParse text = some root ∧
        ∀ result, root.getObjectItem (bytes "result") = some result →
          (cJSONPrintUnformatted result).isSome := by
  unfold sendResponseMsgpack
  rw [if_pos rfl]
  cases cJSONParse text with
  | none => simp
  | some root =>
      simp only [Option.some_inj,exists_eq_left']
      cases root.getObjectItem (bytes "result") with
      | none => simpa using writeReply_ne_nil root none
      | some result =>
          cases hrj : cJSONPrintUnformatted result with
          | none => simp [hrj]
          | some rj => simpa [hrj] using writeReply_ne_nil root (some rj)

/-- A printed text is sent unless it is missing or cannot be converted. -/
theorem answered_sendPrinted {kind : ReplyKind} {json : Option Bytes}
    (hjson : ∀ text, json = some text → 10 ∉ text) :
    Answered e (sendPrinted e.useMsgpack kind json) ↔ Sendable e.useMsgpack json := by
  cases json with
  | none => exact iff_of_false not_answered_silent fun ⟨_,h,_⟩ => by cases h
  | some text =>
      have hsend : Sendable e.useMsgpack (some text) ↔ (e.useMsgpack = true →
          ∃ message, sendResponseMsgpack true text = some message ∧ message ≠ []) := by
        rw [sendResponseMsgpack_iff]
        exact ⟨fun ⟨_,h,hs⟩ => by cases h; exact hs,fun hs => ⟨text,rfl,hs⟩⟩
      rw [hsend]
      cases hm : e.useMsgpack with
      | false =>
          rw [sendPrinted_eq (t := text++[10]) rfl (by simp)]
          exact iff_of_true (answered_replied ⟨text,rfl,hjson text rfl⟩) nofun
      | true =>
          by_cases hmessage : ∃ message, sendResponseMsgpack true text = some message ∧ message ≠ []
          · obtain ⟨message,hs,hne⟩ := hmessage
            have hreplied : sendPrinted true kind (some text) = replied kind message :=
              sendPrinted_eq hs hne
            rw [hreplied]
            apply iff_of_true _ fun _ => ⟨message,hs,hne⟩
            exact ⟨⟨kind,message,rfl,fun hf => by rw [hm] at hf; cases hf⟩,rfl⟩
          · have hsilent : sendPrinted true kind (some text) = silent := by
              apply sendPrinted_silent
              intro message hs
              by_contra hne
              exact hmessage ⟨message,hs,hne⟩
            rw [hsilent]
            exact iff_of_false not_answered_silent fun h => hmessage (h rfl)

theorem newline_notMem_printed {j : Json} {text : Bytes} (h : cJSONPrintUnformatted j = some text) :
    10 ∉ text := by
  rw [cJSONPrintUnformatted_text h]
  exact (printable_text j).notMem (by decide)

theorem answered_runWidget (req : WidgetRequest) :
    Answered e (runWidget e req) ↔ WidgetAnswerable e req := by
  unfold runWidget WidgetAnswerable
  cases req.widget with
  | none => exact iff_of_false (fun h => by cases h.2) fun ⟨_,h,_⟩ => by cases h
  | some name =>
      simp only [Option.some_inj,exists_eq_left']
      exact answered_sendPrinted fun _ => newline_notMem_printed

/-! ## The schema -/

def widgetSchemaTree : Json :=
  .object [(bytes "type",.string (bytes "object")),
    (bytes "properties",.object
      [(bytes "widget",.object [(bytes "type",.string (bytes "string"))]),
        (bytes "params",.object [(bytes "type",.string (bytes "object"))])])]

theorem cJSONParse_widgetSchema : cJSONParse widgetSchema = some widgetSchemaTree := by
  have htext : widgetSchema = widgetSchemaTree.text := by decide
  rw [htext,cJSONParse_text_nil]
  rfl

/-- A schema that only names a type. -/
theorem validateNode_type (n : ℕ) (node : Json) {type : Bytes} (h : type ∈ typeNames) :
    validateNode (n+1) node (.object [(bytes "type",.string type)]) =
      if isOfType node type then none else some (bytes "Expected "++type) := by
  have htype : validateType node (.object [(bytes "type",.string type)]) =
      if isOfType node type then none else some (bytes "Expected "++type) := by
    change (if type ∈ typeNames ∧ ¬isOfType node type then _ else _) = _
    by_cases ht : isOfType node type = true <;> simp [ht,h]
  have hchildren : validateChildren (validateNode n) node
      (.object [(bytes "type",.string type)]) = none := by
    cases node <;> rfl
  rw [validateNode,htype,hchildren,Option.or_none]

/-- A property of the widget schema. -/
def propertyError (json : Json) (name type : Bytes) : Option Bytes :=
  match json.getObjectItem name with
  | none => none
  | some value => if isOfType value type then none else some (bytes "Expected "++type)

theorem schemaValidate_widget {text : Bytes} {json : Json} (h : cJSONParse text = some json) :
    schemaValidate text widgetSchema =
      (propertyError json (bytes "widget") (bytes "string")).or
        (propertyError json (bytes "params") (bytes "object")) := by
  have hproperty : ∀ name type, type ∈ typeNames →
      validateProperty (validateNode 3) json widgetSchemaTree
        (name,.object [(bytes "type",.string type)]) = propertyError json name type := by
    intro name type ht
    unfold validateProperty propertyError
    cases json.getObjectItem name with
    | none => rfl
    | some value => exact validateNode_type 2 value ht
  unfold schemaValidate
  rw [h,cJSONParse_widgetSchema]
  change ([(bytes "widget",_),(bytes "params",_)] : List (Bytes × Json)).findSome?
    (validateProperty (validateNode 3) json widgetSchemaTree) = _
  rw [List.findSome?_cons,hproperty _ _ (by decide),List.findSome?_cons,hproperty _ _ (by decide)]
  cases propertyError json (bytes "widget") (bytes "string") with
  | some err => rfl
  | none => cases propertyError json (bytes "params") (bytes "object") <;> rfl

theorem propertyError_eq_none_iff (json : Json) (name type : Bytes) :
    propertyError json name type = none ↔
      ∀ v, json.getObjectItem name = some v → isOfType v type := by
  unfold propertyError
  cases json.getObjectItem name <;> simp

theorem propertyError_text {json : Json} {name type err : Bytes}
    (h : propertyError json name type = some err) : err = bytes "Expected "++type := by
  unfold propertyError at h
  cases hv : json.getObjectItem name with
  | none => simp [hv] at h
  | some v =>
      simp only [hv] at h
      split_ifs at h
      exact (Option.some_inj.mp h).symm

theorem answered_schema {text : Bytes} {json : Json} (h : cJSONParse text = some json) :
    (WellTyped json ∧ schemaValidate text widgetSchema = none) ∨
      (¬WellTyped json ∧ ∃ err, schemaValidate text widgetSchema = some err ∧
        Answered e (sendError err)) := by
  have hw := propertyError_eq_none_iff json (bytes "widget") (bytes "string")
  have hp := propertyError_eq_none_iff json (bytes "params") (bytes "object")
  rw [schemaValidate_widget h]
  cases hwe : propertyError json (bytes "widget") (bytes "string") with
  | some err =>
      right
      rw [hwe] at hw
      refine ⟨fun hn => (nomatch hw.mpr hn.1),err,rfl,?_⟩
      rw [propertyError_text hwe]
      exact answered_error (by decide) (by decide)
  | none =>
      cases hpe : propertyError json (bytes "params") (bytes "object") with
      | some err =>
          right
          rw [hpe] at hp
          refine ⟨fun hn => (nomatch hp.mpr hn.2),err,rfl,?_⟩
          rw [propertyError_text hpe]
          exact answered_error (by decide) (by decide)
      | none => exact Or.inl ⟨⟨hw.mp hwe,hp.mp hpe⟩,rfl⟩

/-! ## The dispatcher -/

theorem handleTyped_unknown (json : Json) (session : Session) {type : Bytes}
    (h : type ∉ knownTypes) : handleTyped e json session type = none := by
  simp only [knownTypes,List.mem_cons,List.not_mem_nil,or_false,not_or] at h
  obtain ⟨hquit,hping,hsubscribe,hunsubscribe,hquery,hposition,htheme,hplugins,haccess,hsession⟩ := h
  rw [handleTyped,if_neg hquit,if_neg hping,if_neg hsubscribe,if_neg hunsubscribe,if_neg hquery,
    if_neg hposition,if_neg htheme,if_neg hplugins,if_neg haccess,if_neg hsession]

theorem answered_session (json : Json) :
    Answered e (handleSession e json) ↔
      stringField json (bytes "action") = some (bytes "create") ∨
        stringField json (bytes "action") = some (bytes "destroy") := by
  unfold handleSession
  cases stringField json (bytes "action") with
  | none => exact iff_of_false not_answered_silent (by simp)
  | some action =>
      simp only [Option.some_inj]
      split_ifs with hcreate hdestroy
      · apply iff_of_true _ (Or.inl hcreate)
        apply answered_replied
        refine ⟨bytes "\x7b\"type\":\"response\",\"result\":\""++sessionId e.time e.thread++
          bytes "\",\"cancelled\":false\x7d",?_,?_⟩
        · rw [List.append_assoc _ _ [10]]
          rfl
        · have hid : 10 ∉ sessionId e.time e.thread := fun h => by
            have hdigit : ∀ d < 16, digitByte d ≠ 10 := by decide
            obtain h | h := List.mem_append.mp h
            all_goals
              obtain ⟨d,hd,hb⟩ := mem_numeral (by norm_num) h
              exact hdigit d hd hb.symm
          simp only [List.mem_append,not_or]
          exact ⟨⟨by decide,hid⟩,by decide⟩
      · exact iff_of_true answered_ok (Or.inr hdestroy)
      · exact iff_of_false not_answered_silent (by simp [hcreate,hdestroy])

theorem answered_query (json : Json) (session : Session) :
    Answered e (handleQuery e json session) ↔
      ∀ id, stringField json (bytes "widget_id") = some id →
        Sendable e.useMsgpack (Reply.queryResponse id (storeGet session.store id)).toJson := by
  unfold handleQuery
  cases stringField json (bytes "widget_id") with
  | none => exact iff_of_true (answered_error (by decide) (by decide)) nofun
  | some id =>
      simp only [Option.some_inj,forall_eq']
      exact answered_sendPrinted fun _ => newline_notMem_printed

theorem typedAnswerable_plain (json : Json) (session : Session) {type : Bytes}
    (h : type ∉ [bytes "subscribe",bytes "session",bytes "query"]) :
    TypedAnswerable e json session type := by
  simp only [List.mem_cons,List.not_mem_nil,or_false,not_or] at h
  exact ⟨h.1,fun hs => absurd hs h.2.1,fun hq => absurd hq h.2.2⟩

theorem answered_typed (json : Json) (session : Session) {type : Bytes} (ht : type ∈ knownTypes) :
    ∃ h, handleTyped e json session type = some h ∧
      (Answered e h ↔ TypedAnswerable e json session type) := by
  have hplain : ∀ {t : Bytes}, t ∉ [bytes "subscribe",bytes "session",bytes "query"] →
      (Answered e sendOk ↔ TypedAnswerable e json session t) :=
    fun h => iff_of_true answered_ok (typedAnswerable_plain json session h)
  simp only [knownTypes,List.mem_cons,List.not_mem_nil,or_false] at ht
  rcases ht with rfl | rfl | rfl | rfl | rfl | rfl | rfl | rfl | rfl | rfl
  · exact ⟨_,rfl,hplain (by decide)⟩
  · refine ⟨_,rfl,iff_of_true (answered_replied ⟨bytes "\x7b\"type\":\"pong\"\x7d",rfl,by decide⟩) ?_⟩
    exact typedAnswerable_plain json session (by decide)
  · exact ⟨_,rfl,iff_of_false not_answered_silent fun h => h.1 rfl⟩
  · exact ⟨_,rfl,hplain (by decide)⟩
  · refine ⟨_,rfl,(answered_query json session).trans ?_⟩
    exact ⟨fun h => ⟨by decide,fun hn => absurd hn (by decide),fun _ => h⟩,fun h => h.2.2 rfl⟩
  · exact ⟨_,rfl,hplain (by decide)⟩
  · exact ⟨_,rfl,hplain (by decide)⟩
  · exact ⟨_,rfl,hplain (by decide)⟩
  · exact ⟨_,rfl,hplain (by decide)⟩
  · refine ⟨_,rfl,(answered_session json).trans ?_⟩
    exact ⟨fun h => ⟨by decide,fun _ => h,fun hn => absurd hn (by decide)⟩,fun h => h.2.1 rfl⟩

theorem answered_runRequest (session : Session) (req : WidgetRequest) :
    Answered e (runRequest e session req) ↔
      ∃ taken, takePosition session req = some taken ∧ WidgetAnswerable e taken := by
  unfold runRequest
  cases takePosition session req with
  | none =>
      apply iff_of_false not_answered_silent
      rintro ⟨taken,htaken,-⟩
      exact absurd htaken (by simp)
  | some taken =>
      simp only [Option.some_inj,exists_eq_left']
      exact answered_runWidget taken

/-- A message that passed the schema is of a known type or a request. -/
theorem answered_wellTyped (json : Json) (session : Session) :
    Answered e
        (match (stringField json (bytes "type")).bind (handleTyped e json session) with
          | some handled => handled
          | none => runRequest e session (widgetRequest json)) ↔
      (∀ type ∈ knownTypes, stringField json (bytes "type") = some type →
        TypedAnswerable e json session type) ∧
      ((∀ type ∈ knownTypes, stringField json (bytes "type") ≠ some type) →
        ∃ req, takePosition session (widgetRequest json) = some req ∧ WidgetAnswerable e req) := by
  by_cases hknown : ∃ type ∈ knownTypes, stringField json (bytes "type") = some type
  · obtain ⟨type,ht,htype⟩ := hknown
    obtain ⟨handled,hhandled,hiff⟩ := answered_typed (e := e) json session ht
    have hbind : (stringField json (bytes "type")).bind (handleTyped e json session) =
        some handled := by rw [htype,Option.bind_some,hhandled]
    rw [hbind]
    constructor
    · intro h
      refine ⟨?_,fun hn => absurd htype (hn type ht)⟩
      intro t _ hs
      rw [← Option.some_inj.mp (htype.symm.trans hs)]
      exact hiff.mp h
    · intro h
      exact hiff.mpr (h.1 type ht htype)
  · push Not at hknown
    have hnone : (stringField json (bytes "type")).bind (handleTyped e json session) = none := by
      cases htype : stringField json (bytes "type") with
      | none => rfl
      | some type =>
          exact handleTyped_unknown json session fun ht => hknown type ht htype
    rw [hnone]
    constructor
    · intro h
      refine ⟨fun t ht hs => absurd hs (hknown t ht),fun _ => ?_⟩
      exact (answered_runRequest session (widgetRequest json)).mp h
    · intro h
      exact (answered_runRequest session (widgetRequest json)).mpr (h.2 hknown)

theorem answered_dispatch (text : Bytes) (session : Session) :
    Answered e (dispatchMessage e text session) ↔
      ∀ json, cJSONParse text = some json → DispatchAnswerable e json session := by
  unfold dispatchMessage
  cases hparse : cJSONParse text with
  | none =>
      have hinvalid : schemaValidate text widgetSchema = some (bytes "Invalid JSON") := by
        rw [schemaValidate,hparse]
      rw [hinvalid]
      exact iff_of_true (answered_error (by decide) (by decide)) nofun
  | some json =>
      simp only [Option.some_inj,forall_eq']
      obtain ⟨hwell,hschema⟩ | ⟨hill,err,hschema,herr⟩ := answered_schema (e := e) hparse
      · rw [hschema]
        have hwell_iff : ∀ {p : Prop}, (WellTyped json → p) ↔ p := ⟨fun h => h hwell,fun h _ => h⟩
        rw [DispatchAnswerable,hwell_iff,widgetRequestParse,hparse]
        exact answered_wellTyped json session
      · rw [hschema]
        exact iff_of_true herr fun hwell => absurd hwell hill

/-! ## The first lines -/

theorem answered_relayError {req : WidgetRequest} {handled : Handled}
    (h : relayError e req = some handled) : Answered e handled := by
  unfold relayError at h
  split_ifs at h
  cases htty : e.tty (req.tty.getD (bytes "/dev/tty")) with
  | denied =>
      rw [htty] at h
      cases h
      exact answered_error (by decide) (by decide)
  | unopenable =>
      rw [htty] at h
      cases h
      exact answered_error (by decide) (by decide)
  | opened =>
      rw [htty] at h
      cases h

theorem relayError_isSome_iff (req : WidgetRequest) :
    (relayError e req).isSome ↔
      req.relay = true ∧ e.tty (req.tty.getD (bytes "/dev/tty")) ≠ .opened := by
  unfold relayError
  cases req.relay with
  | false => simp
  | true => cases e.tty (req.tty.getD (bytes "/dev/tty")) <;> simp

theorem answered_widgetLine {text : Bytes} {json : Json} (h : cJSONParse text = some json) :
    Answered e (handleWidgetLine e text) ↔ WidgetLineAnswerable e json := by
  unfold handleWidgetLine WidgetLineAnswerable widgetRequestParse
  rw [h]
  simp only [Bool.and_eq_true,Option.isNone_iff_eq_none,Option.map_some]
  split_ifs with hdispatch
  · rw [answered_dispatch,h]
    simp only [Option.some_inj,forall_eq']
  · rw [← relayError_isSome_iff]
    cases hrelay : relayError e (widgetRequest json) with
    | some handled => exact iff_of_true (answered_relayError hrelay) (Or.inl rfl)
    | none => simpa using answered_runWidget (widgetRequest json)

theorem itemsStrings_map_string (names : List Bytes) :
    itemsStrings (names.map Json.string) = names := by
  induction names with
  | nil => rfl
  | cons n names ih =>
      rw [List.map_cons,itemsStrings,ih]
      rfl

/-- The capabilities that are sent back are known. -/
theorem capabilityTree_eq (caps : Json) : ∃ names : List Bytes,
    (∀ n ∈ names, n ∈ capabilityNames) ∧ capabilityTree caps =
      .object [(bytes "type",.string (bytes "handshake_ack")),(bytes "version",.number ⟨false,2,0⟩),
        (bytes "capabilities",.array (names.map .string))] := by
  cases caps with
  | array items =>
      refine ⟨(items.filterMap Json.valuestring).filter (· ∈ capabilityNames),fun n hn => ?_,rfl⟩
      exact of_decide_eq_true (List.mem_filter.mp hn).2
  | _ => exact ⟨[],fun _ h => absurd h List.not_mem_nil,rfl⟩

theorem cJSONPrintUnformatted_capabilityTree (caps : Json) :
    ∃ text, cJSONPrintUnformatted (capabilityTree caps) = some text := by
  obtain ⟨names,hnames,htree⟩ := capabilityTree_eq caps
  have hclean : ∀ s ∈ [bytes "type",bytes "handshake_ack",bytes "version",bytes "capabilities"]++
      capabilityNames, Clean s ∧ Fits s := by decide
  refine ⟨_,cJSONPrintUnformatted_eq fun s hs => hclean s ?_⟩
  rw [htree] at hs
  simp only [Json.strings,membersStrings,itemsStrings_map_string,List.append_nil,List.nil_append,
    List.cons_append,List.mem_cons] at hs
  obtain rfl | rfl | rfl | rfl | hs := hs
  · decide
  · decide
  · decide
  · decide
  · exact List.mem_append_right _ (hnames s hs)

theorem acknowledge_cases (first : Json) :
    (Acknowledged first ∧ ∃ text, IsLine text ∧ acknowledge first = replied .handshakeAck text) ∨
      (¬Acknowledged first ∧ acknowledge first = silent) := by
  unfold Acknowledged acknowledge
  cases hhand : isHandshake first with
  | false => exact Or.inr ⟨fun h => (nomatch h.1),rfl⟩
  | true =>
      cases hcaps : first.getObjectItem (bytes "capabilities") with
      | none => exact Or.inr ⟨fun h => (nomatch h.2),rfl⟩
      | some caps =>
          obtain ⟨text,htext⟩ := cJSONPrintUnformatted_capabilityTree caps
          refine Or.inl ⟨⟨rfl,rfl⟩,text++[10],⟨text,rfl,newline_notMem_printed htext⟩,?_⟩
          rw [if_pos rfl,sendNegotiatedCapabilities,htext]

theorem answered_acknowledge (first : Json) :
    Answered e (acknowledge first) ↔ Acknowledged first := by
  obtain ⟨h,text,hline,hack⟩ | ⟨h,hack⟩ := acknowledge_cases first
  · rw [hack]
    exact iff_of_true (answered_replied hline) h
  · rw [hack]
    exact iff_of_false not_answered_silent h

/-- After an acknowledgement the error is a second reply. -/
theorem answered_acknowledge_append (first : Json) {handled : Handled} (h : Answered e handled) :
    Answered e ((acknowledge first).append handled) ↔ ¬Acknowledged first := by
  obtain ⟨hack,text,hline,heq⟩ | ⟨hack,heq⟩ := acknowledge_cases first
  · rw [heq]
    apply iff_of_false _ (not_not_intro hack)
    rintro ⟨⟨_,_,htwo,-⟩,-⟩
    obtain ⟨⟨kind,reply,hone,-⟩,-⟩ := h
    simp [Handled.append,replied,hone] at htwo
  · rw [heq]
    exact iff_of_true h hack

theorem answered_firstLine {text : Bytes} {first : Json} (h : cJSONParse text = some first) :
    Answered e (handleFirstLine e text) ↔ FirstLineAnswerable e first := by
  unfold handleFirstLine FirstLineAnswerable
  rw [h]
  dsimp only
  split_ifs
  · exact answered_acknowledge first
  · exact answered_acknowledge_append first (answered_error (by decide) (by decide))
  · exact answered_acknowledge first
  · exact answered_widgetLine h

theorem handleWidgetLine_silent {text : Bytes} (h : cJSONParse text = none) :
    handleWidgetLine e text = silent := by
  rw [handleWidgetLine,h]

theorem handleFirstLine_silent {text : Bytes} (h : cJSONParse text = none) :
    handleFirstLine e text = silent := by
  rw [handleFirstLine,h]
  exact handleWidgetLine_silent h

end

/-! ## Every line -/

/-- A line gets one reply, and no widget without a name is looked up, exactly if
it is answerable. -/
theorem answered_iff_answerable (e : Surroundings) (place : Place) (line : Bytes) :
    Answered e (handleLine e place line) ↔ Answerable e place line := by
  unfold handleLine Answerable
  by_cases hlen : 524286 < line.length
  · rw [if_pos hlen]
    exact iff_of_false not_answered_silent fun h => absurd h.1 (not_le.mpr hlen)
  · rw [if_neg hlen]
    generalize line.takeWhile (· ≠ 0) = text
    have hfits : line.length ≤ 524286 := not_lt.mp hlen
    refine Iff.trans ?_ (and_iff_right hfits).symm
    cases place with
    | first =>
        cases hparse : cJSONParse text with
        | none =>
            dsimp only
            rw [handleFirstLine_silent hparse]
            exact iff_of_false not_answered_silent fun ⟨_,h,_⟩ => (nomatch h)
        | some first =>
            simp only [Option.some_inj,exists_eq_left']
            exact answered_firstLine hparse
    | afterHandshake =>
        cases hparse : cJSONParse text with
        | none =>
            dsimp only
            rw [handleWidgetLine_silent hparse]
            exact iff_of_false not_answered_silent fun ⟨_,h,_⟩ => (nomatch h)
        | some json =>
            simp only [Option.some_inj,exists_eq_left']
            exact answered_widgetLine hparse
    | loop session => exact answered_dispatch text session

/-- A daemon with one widget and no graphical backend. -/
def plainDaemon : Surroundings where
  registry := [⟨bytes "input",some fun _ => some ⟨none,true,none⟩⟩]
  useMsgpack := false
  gui := none
  tty := fun _ => .opened
  time := 1700000000
  thread := 1
  anchor := .zeros 32
  relativeTo := .zeros 64

/-- Nothing answers a subscription or a line that is not JSON, and an empty object
is a request for a widget without a name. -/
theorem subscription_is_not_answered :
    ¬Answered plainDaemon (handleLine plainDaemon .first
      (bytes "\x7b\"type\":\"subscribe\",\"keys\":[\"lang\"]\x7d")) ∧
    ¬Answered plainDaemon (handleLine plainDaemon .first (bytes "hello")) ∧
    (handleLine plainDaemon .first (bytes "\x7b\x7d")).nullLookup = true := by
  have hsubscribe : handleLine plainDaemon .first
      (bytes "\x7b\"type\":\"subscribe\",\"keys\":[\"lang\"]\x7d") = silent := by decide +kernel
  have hhello : handleLine plainDaemon .first (bytes "hello") = silent := by decide +kernel
  rw [hsubscribe,hhello]
  exact ⟨not_answered_silent,not_answered_silent,by decide +kernel⟩

end Filly.Daemon

import Filly.ClientChunks
import Filly.KeyAgreement
import Filly.Response

/-!
# A relayed session

`relay_run` serves a terminal and a daemon at once. What comes from the daemon is drawn on
the terminal until the response is there, and every key of the terminal becomes a message
for the daemon. In which order the two sides are ready is not known, and neither is where
the daemon's bytes are cut. The draws and the keys do not depend on it. The response does:
a daemon closes the connection behind it, and a call that finds the end of the stream gives
up before it looks at what it has just read.
-/
namespace Filly.Relays
open CJson Client Framing Keys StepReader

/-! ## What the daemon writes -/

/-- What is drawn in one turn: the text of the frame, up to its NUL, and the numbers that
the streaming messages carry. -/
structure Frame where
  text : Bytes
  short : text.length < 524288
  frameId : Int32
  termW : Int32
  termH : Int32

def drawHeader (len : ℕ) : Bytes :=
  bytes "\x7b\"type\":\"draw\",\"len\":"++formatInt len++bytes "\x7d"

def streamStart (frameId : Int32) : Bytes :=
  bytes "\x7b\"type\":\"stream_start\",\"frame_id\":"++formatInt frameId.toInt++bytes "\x7d"

def streamFrame (w h : Int32) : Bytes :=
  bytes "\x7b\"type\":\"stream_frame\",\"nodes\":[\x7b\"id\":\"root\",\"rect\":\x7b\"x\":0,\"y\":0,\"w\":"++
    formatInt w.toInt++bytes ",\"h\":"++formatInt h.toInt++bytes "\x7d,\"dirty\":true\x7d]\x7d"

def streamEnd (frameId : Int32) : Bytes :=
  bytes "\x7b\"type\":\"stream_end\",\"frame_id\":"++formatInt frameId.toInt++bytes "\x7d"

def sockDraw (streaming : Bool) (f : Frame) : Bytes :=
  (if streaming then
    streamStart f.frameId++[10]++(streamFrame f.termW f.termH++[10])++(streamEnd f.frameId++[10])
   else [])++(drawHeader f.text.length++[10]++f.text++[10])

/-- All that a daemon writes to one connection with a relay. -/
def sessionBytes (streaming : Bool) (frames : List Frame) (response : Bytes) : Bytes :=
  frames.flatMap (sockDraw streaming)++response++[10]

/-! ## The loop of the relay -/

/-- A call of `filly_client_process`: the reads it finds, and whether the end of the stream
is behind them. -/
structure Call where
  reads : List Bytes
  closed : Bool

/-- What `select` reports. -/
structure Turn where
  server : Option Call
  key : Bool

structure Relay where
  client : FillyClient := {}
  tty : Bytes
  sent : Bytes := []

inductive Exit where
  /-- The loop is left; `relay_run` returns 1. -/
  | broken
  /-- `relay_run` returns 0, having printed this text. -/
  | answered (out : Option Bytes)

/-- `draw_callback` writes each draw to the terminal. -/
def Relay.screen (r : Relay) : Bytes := r.client.drawn.flatten

def Relay.readKey (r : Relay) : Relay :=
  match relayKey r.tty with
  | none => r
  | some (key,tty) => { r with tty := tty, sent := r.sent++fillyClientSendKey key }

/-- A read of nothing makes the call fail; the buffer is not processed. -/
def processCall (c : FillyClient) (call : Call) : ℤ × FillyClient :=
  if call.closed then (-1,c) else fillyClientProcess c call.reads

def Relay.keyTurn (r : Relay) (ready : Bool) : Relay := if ready then r.readKey else r

def relayTurn (t : Turn) (r : Relay) : Relay × Option Exit :=
  match t.server with
  | none => (r.keyTurn t.key,none)
  | some call =>
      let p := processCall r.client call
      let r := { r with client := p.2 }
      if p.1 < 0 then (r,some .broken)
      else if p.2.responseReceived then
        (r,some (.answered (p.2.responseResult.bind cJSONPrintUnformatted)))
      else (r.keyTurn t.key,none)

/-- The loop, over as many turns as it makes. -/
def relayRun (r : Relay) : List Turn → Relay × Option Exit
  | [] => (r,none)
  | t::ts =>
      match relayTurn t r with
      | (r,none) => relayRun r ts
      | (r,some e) => (r,some e)

/-! ## The messages of a frame -/

def headerTree (len : ℕ) : Json :=
  .object [(bytes "type",.string (bytes "draw")),(bytes "len",.ofInt len)]

def markTree (type : String) (frameId : Int32) : Json :=
  .object [(bytes "type",.string (bytes type)),(bytes "frame_id",.ofInt frameId.toInt)]

def rectTree (w h : Int32) : Json :=
  .object [(bytes "x",.ofInt 0),(bytes "y",.ofInt 0),(bytes "w",.ofInt w.toInt),
    (bytes "h",.ofInt h.toInt)]

def frameTree (w h : Int32) : Json :=
  .object [(bytes "type",.string (bytes "stream_frame")),(bytes "nodes",.array [
    .object [(bytes "id",.string (bytes "root")),(bytes "rect",rectTree w h),
      (bytes "dirty",.bool true)]])]

theorem drawHeader_eq {len : ℕ} (h : len < 524288) : drawHeader len = (headerTree len).text := by
  have hhead : bytes "\x7b\"type\":\"draw\",\"len\":" = 123::(stringText (bytes "type")++
      58::(stringText (bytes "draw")++44::(stringText (bytes "len")++[58]))) := by decide
  have hlen : (Json.ofInt len).text = formatInt len := text_ofInt (by omega)
  rw [drawHeader,hhead]
  simp [headerTree,Json.text,membersText,comma,hlen]
  rfl

theorem streamMark_eq (type : String) (frameId : Int32) :
    (markTree type frameId).text = 123::(stringText (bytes "type")++58::(stringText (bytes type)++
      44::(stringText (bytes "frame_id")++58::(formatInt frameId.toInt++[125])))) := by
  simp [markTree,Json.text,membersText,comma,text_ofInt (int32_bounds frameId)]

theorem streamStart_eq (frameId : Int32) :
    streamStart frameId = (markTree "stream_start" frameId).text := by
  have hhead : bytes "\x7b\"type\":\"stream_start\",\"frame_id\":" = 123::(stringText (bytes "type")++
      58::(stringText (bytes "stream_start")++44::(stringText (bytes "frame_id")++[58]))) := by
    decide
  rw [streamStart,streamMark_eq,hhead]
  simp
  rfl

theorem streamEnd_eq (frameId : Int32) :
    streamEnd frameId = (markTree "stream_end" frameId).text := by
  have hhead : bytes "\x7b\"type\":\"stream_end\",\"frame_id\":" = 123::(stringText (bytes "type")++
      58::(stringText (bytes "stream_end")++44::(stringText (bytes "frame_id")++[58]))) := by
    decide
  rw [streamEnd,streamMark_eq,hhead]
  simp
  rfl

theorem streamFrame_eq (w h : Int32) : streamFrame w h = (frameTree w h).text := by
  have hhead : bytes "\x7b\"type\":\"stream_frame\",\"nodes\":[\x7b\"id\":\"root\",\"rect\":\x7b\"x\":0,\"y\":0,\"w\":" =
      123::(stringText (bytes "type")++58::(stringText (bytes "stream_frame")++44::(
        stringText (bytes "nodes")++58::91::123::(stringText (bytes "id")++58::(
        stringText (bytes "root")++44::(stringText (bytes "rect")++58::123::(
        stringText (bytes "x")++58::48::44::(stringText (bytes "y")++58::48::44::(
        stringText (bytes "w")++[58]))))))))) := by decide
  have hmiddle : bytes ",\"h\":" = 44::(stringText (bytes "h")++[58]) := by decide
  have htail : bytes "\x7d,\"dirty\":true\x7d]\x7d" =
      125::44::(stringText (bytes "dirty")++58::(bytes "true"++[125,93,125])) := by decide
  have hzero : (Json.ofInt 0).text = [48] := by
    rw [text_ofInt (by omega)]
    decide
  rw [streamFrame,hhead,hmiddle,htail]
  simp [frameTree,rectTree,Json.text,membersText,itemsText,comma,hzero,
    text_ofInt (int32_bounds w),text_ofInt (int32_bounds h)]

/-- Trees of clean texts and of numbers that are read as they were written. -/
theorem readBack_pair {k t l : Bytes} {n : ℤ} (hk : Clean k) (ht : Clean t) (hl : Clean l)
    (hn : -2^31 ≤ n ∧ n < 2^31) : readBack 0 (.object [(k,.string t),(l,.ofInt n)]) =
      some (.object [(k,.string t),(l,.ofInt n)]) := by
  apply readBack_object_fixed (by omega)
  intro m hm
  rcases List.mem_pair.mp hm with rfl | rfl
  · exact ⟨hk,readBack_string ht 1⟩
  · exact ⟨hl,readBack_ofInt hn 1⟩

theorem readBack_frameTree (w h : Int32) : readBack 0 (frameTree w h) = some (frameTree w h) := by
  have hclean : ∀ s ∈ [bytes "type",bytes "stream_frame",bytes "nodes",bytes "id",bytes "root",
      bytes "rect",bytes "dirty",bytes "x",bytes "y",bytes "w",bytes "h"], Clean s := by
    decide
  have hrect : readBack 3 (rectTree w h) = some (rectTree w h) := by
    apply readBack_object_fixed (by omega)
    intro m hm
    simp only [List.mem_cons,List.not_mem_nil,or_false] at hm
    rcases hm with rfl | rfl | rfl | rfl
    · exact ⟨hclean _ (by simp),readBack_ofInt (by omega) 4⟩
    · exact ⟨hclean _ (by simp),readBack_ofInt (by omega) 4⟩
    · exact ⟨hclean _ (by simp),readBack_ofInt (int32_bounds w) 4⟩
    · exact ⟨hclean _ (by simp),readBack_ofInt (int32_bounds h) 4⟩
  apply readBack_object_fixed (by omega)
  intro m hm
  rcases List.mem_pair.mp hm with rfl | rfl
  · exact ⟨hclean _ (by simp),readBack_string (hclean _ (by simp)) 1⟩
  refine ⟨hclean _ (by simp),readBack_array_fixed (by omega) fun v hv => ?_⟩
  rw [List.mem_singleton] at hv
  subst hv
  apply readBack_object_fixed (by omega)
  intro m hm
  simp only [List.mem_cons,List.not_mem_nil,or_false] at hm
  rcases hm with rfl | rfl | rfl
  · exact ⟨hclean _ (by simp),readBack_string (hclean _ (by simp)) 3⟩
  · exact ⟨hclean _ (by simp),hrect⟩
  · exact ⟨hclean _ (by simp),rfl⟩

theorem classify_other {j : Json} {t : Bytes} (h : readBack 0 j = some j)
    (ht : (j.getObjectItem (bytes "type")).bind Json.valuestring = some t)
    (hd : t ≠ bytes "draw") (hr : t ≠ bytes "response") : classify j.text = .other := by
  rw [classify,parse_line h]
  simp [ht,hd,hr]

theorem classify_header {len : ℕ} (h : len < 524288) :
    classify (drawHeader len) = if 0 < len then .draw len else .other := by
  have hfixed : readBack 0 (headerTree len) = some (headerTree len) :=
    readBack_pair (by decide) (by decide) (by decide) (by omega)
  have htype : ((headerTree len).getObjectItem (bytes "type")).bind Json.valuestring =
      some (bytes "draw") := rfl
  have hvalue : (headerTree len).getObjectItem (bytes "len") = some (.ofInt len) := rfl
  have hint : (Json.ofInt len).valueint = len := valueint_intCast (by omega)
  rw [drawHeader_eq h,classify,parse_line hfixed]
  simp [htype,hvalue,hint]

theorem classify_mark (type : String) (frameId : Int32)
    (h : Clean (bytes type)) (hd : bytes type ≠ bytes "draw") (hr : bytes type ≠ bytes "response") :
    classify (markTree type frameId).text = .other := by
  have htree : readBack 0 (markTree type frameId) = some (markTree type frameId) :=
    readBack_pair (by decide) h (by decide) (int32_bounds frameId)
  have htype : ((markTree type frameId).getObjectItem (bytes "type")).bind Json.valuestring =
      some (bytes type) := rfl
  exact classify_other htree htype hd hr

def startLine (f : Frame) : PlainLine where
  text := streamStart f.frameId
  noNewline := streamStart_eq f.frameId ▸ text_noNewline _
  kind := by
    rw [streamStart_eq]
    exact classify_mark _ _ (by decide) (by decide) (by decide)

def rectLine (f : Frame) : PlainLine where
  text := streamFrame f.termW f.termH
  noNewline := streamFrame_eq f.termW f.termH ▸ text_noNewline _
  kind := by
    rw [streamFrame_eq]
    exact classify_other (readBack_frameTree _ _) (t := bytes "stream_frame") rfl (by decide)
      (by decide)

def endLine (f : Frame) : PlainLine where
  text := streamEnd f.frameId
  noNewline := streamEnd_eq f.frameId ▸ text_noNewline _
  kind := by
    rw [streamEnd_eq]
    exact classify_mark _ _ (by decide) (by decide) (by decide)

theorem header_noNewline (f : Frame) : 10 ∉ drawHeader f.text.length :=
  drawHeader_eq f.short ▸ text_noNewline _

theorem classify_nil : classify [] = .other := rfl

/-- A frame with nothing in it is two lines for the client. -/
def drawMessages (f : Frame) : List Message :=
  if h : f.text = [] then
    [.line ⟨drawHeader f.text.length,header_noNewline f,by
        rw [classify_header f.short,h]
        rfl⟩,
      .line ⟨[],List.not_mem_nil,classify_nil⟩]
  else
    [.draw ⟨drawHeader f.text.length,f.text,header_noNewline f,by
        rw [classify_header f.short,if_pos (List.length_pos_iff.mpr h)]⟩]

def frameMessages (streaming : Bool) (f : Frame) : List Message :=
  (if streaming then [.line (startLine f),.line (rectLine f),.line (endLine f)] else [])++
    drawMessages f

theorem wires_frameMessages (streaming : Bool) (f : Frame) :
    wires Message.wire (frameMessages streaming f) = sockDraw streaming f := by
  have hdraw : wires Message.wire (drawMessages f) = drawHeader f.text.length++[10]++f.text++[10] := by
    unfold drawMessages
    split_ifs with h
    · simp [Message.wire,h]
    · simp [Message.wire]
  rw [frameMessages,wires_append,hdraw,sockDraw]
  cases streaming
  · rfl
  · simp [Message.wire,startLine,rectLine,endLine]

/-- The session as the client should see it. -/
def sessionMessages (streaming : Bool) (frames : List Frame) (r : ResponseLine) : List Message :=
  frames.flatMap (frameMessages streaming)++[.response r]

theorem stream_sessionMessages (streaming : Bool) (frames : List Frame) (r : ResponseLine) :
    stream (sessionMessages streaming frames r) = sessionBytes streaming frames r.text := by
  have hframes : wires Message.wire (frames.flatMap (frameMessages streaming)) =
      frames.flatMap (sockDraw streaming) := by
    induction frames with
    | nil => rfl
    | cons f fs ih => rw [List.flatMap_cons,wires_append,ih,wires_frameMessages,List.flatMap_cons]
  rw [sessionMessages,stream,wires_append,hframes,sessionBytes]
  simp [Message.wire]

/-! ## What the messages tell the client -/

def answers : Message → Bool
  | .response _ => true
  | _ => false

theorem received_deliver (c : FillyClient) (ms : List Message) :
    (deliver c ms).responseReceived = (c.responseReceived || ms.any answers) := by
  induction ms generalizing c with
  | nil => simp [deliver]
  | cons m ms ih => cases m <;> simp [deliver,ih,answers]

theorem drawn_deliver (c : FillyClient) (ms : List Message) :
    (deliver c ms).drawn = c.drawn++draws ms := by
  induction ms generalizing c with
  | nil => simp [deliver,draws]
  | cons m ms ih => cases m <;> simp [deliver,ih,draws]

theorem draws_append (ms ns : List Message) : draws (ms++ns) = draws ms++draws ns := by
  induction ms with
  | nil => rfl
  | cons m ms ih => cases m <;> simp [draws,ih]

/-- A frame is drawn as it was written; nothing is drawn for an empty one. -/
theorem draws_frameMessages (streaming : Bool) (f : Frame) :
    (draws (frameMessages streaming f)).flatten = f.text := by
  have hlines : draws (frameMessages streaming f) = draws (drawMessages f) := by
    rw [frameMessages,draws_append]
    cases streaming <;> rfl
  rw [hlines,drawMessages]
  split_ifs with h
  · exact h.symm
  · exact List.append_nil _

theorem draws_frames (streaming : Bool) (frames : List Frame) :
    (draws (frames.flatMap (frameMessages streaming))).flatten = frames.flatMap Frame.text := by
  induction frames with
  | nil => rfl
  | cons f fs ih =>
      rw [List.flatMap_cons,draws_append,List.flatten_append,draws_frameMessages,ih,
        List.flatMap_cons]

theorem not_answers_frames (streaming : Bool) (frames : List Frame) :
    ∀ m ∈ frames.flatMap (frameMessages streaming), answers m = false := by
  intro m hm
  obtain ⟨f,-,hm⟩ := List.mem_flatMap.mp hm
  rw [frameMessages,drawMessages] at hm
  rcases List.mem_append.mp hm with hm | hm
  · cases streaming with
    | false => cases hm
    | true =>
        simp only [if_true,List.mem_cons,List.not_mem_nil,or_false] at hm
        rcases hm with rfl | rfl | rfl <;> rfl
  · split_ifs at hm
    · rcases List.mem_pair.mp hm with rfl | rfl <;> rfl
    · rw [List.mem_singleton.mp hm]
      rfl

theorem responseLast_session (streaming : Bool) (frames : List Frame) (r : ResponseLine) :
    ResponseLast (sessionMessages streaming frames r) := by
  have key : ∀ ms : List Message, (∀ m ∈ ms, answers m = false) →
      ResponseLast (ms++[.response r]) := by
    intro ms h
    induction ms with
    | nil => rfl
    | cons m ms ih =>
        rw [List.forall_mem_cons] at h
        cases m with
        | line l => exact ih h.2
        | draw d => exact ih h.2
        | response r => cases h.1
  exact key _ (not_answers_frames streaming frames)

/-- As long as a message is to come there is no response. -/
theorem not_received_of_split {streaming : Bool} {frames : List Frame} {r : ResponseLine}
    {past ahead : List Message} (h : sessionMessages streaming frames r = past++ahead)
    (hne : ahead ≠ []) : (deliver {} past).responseReceived = false := by
  have hpast : past <+: frames.flatMap (frameMessages streaming) := by
    have hlen := congrArg List.length h
    have hpos := List.length_pos_of_ne_nil hne
    rw [sessionMessages,List.length_append,List.length_append,List.length_singleton] at hlen
    refine List.prefix_of_prefix_length_le ⟨ahead,h.symm⟩ (List.prefix_append _ _) (by omega)
  rw [received_deliver]
  simp only [Bool.false_or,List.any_eq_false]
  exact fun m hm => by simp [not_answers_frames streaming frames m (hpast.subset hm)]

/-! ## The loop -/

/-- The bytes of each call. -/
def pieces (turns : List Turn) : List Bytes :=
  (turns.filterMap Turn.server).map fun call => call.reads.flatten

/-- Each call has room for what it reads. -/
def Roomy (c : FillyClient) : List Bytes → Prop
  | [] => True
  | piece::pieces => c.buf.length+piece.length < clientBufSize ∧ Roomy (pass c piece) pieces

theorem processLoop_fst (n : ℕ) (c : FillyClient) (front rest : Bytes) :
    0 ≤ (processLoop n c front rest).1 := by
  induction n generalizing c front rest with
  | zero => exact le_rfl
  | succ n ih =>
      cases h : splitLine rest with
      | none => rw [processLoop_part n c front h]
      | some s =>
          rw [processLoop_line n c front h]
          cases classify s.1 with
          | draw len =>
              by_cases hlen : len+1 ≤ s.2.length
              · simp only [if_pos hlen]
                exact ih _ _ _
              · simp only [if_neg hlen]
                exact le_refl (0 : ℤ)
          | response result cancelled => exact Int.one_nonneg
          | other =>
              dsimp only
              split_ifs
              · exact le_refl (0 : ℤ)
              · exact ih _ _ _

theorem fillyClientProcess_fst {c : FillyClient} {reads : List Bytes}
    (h : c.buf.length+reads.flatten.length < clientBufSize) : 0 ≤ (fillyClientProcess c reads).1 := by
  induction reads generalizing c with
  | nil => exact processLoop_fst _ _ _ _
  | cons data reads ih =>
      rw [List.flatten_cons,List.length_append] at h
      rw [fillyClientProcess,if_neg (by omega)]
      exact ih (by rw [List.length_append]; omega)

theorem processCall_open {c : FillyClient} {call : Call} (h : call.closed = false)
    (hroom : c.buf.length+call.reads.flatten.length < clientBufSize) :
    0 ≤ (processCall c call).1 ∧ (processCall c call).2 = pass c call.reads.flatten := by
  rw [processCall,h,if_neg Bool.false_ne_true]
  exact ⟨fillyClientProcess_fst hroom,fillyClientProcess_eq hroom⟩

/-! The keys do not depend on the client. -/

theorem readKey_client (r : Relay) (c : FillyClient) :
    { r with client := c }.readKey = { r.readKey with client := c } := by
  unfold Relay.readKey
  cases relayKey r.tty <;> rfl

theorem iterate_readKey_client (n : ℕ) (r : Relay) (c : FillyClient) :
    Relay.readKey^[n] { r with client := c } = { Relay.readKey^[n] r with client := c } := by
  induction n generalizing r with
  | zero => rfl
  | succ n ih => rw [Function.iterate_succ_apply,readKey_client,ih,Function.iterate_succ_apply]

theorem keyTurn_client (r : Relay) (c : FillyClient) (b : Bool) :
    { r with client := c }.keyTurn b = { r.keyTurn b with client := c } := by
  cases b with
  | false => rfl
  | true => exact readKey_client r c

theorem iterate_keyTurn (n : ℕ) (r : Relay) (b : Bool) :
    Relay.readKey^[n] (r.keyTurn b) = Relay.readKey^[n+if b then 1 else 0] r := by
  cases b <;> rfl

theorem relayTurn_open {t : Turn} {call : Call} {r : Relay} (ht : t.server = some call)
    (h : call.closed = false) (hroom : r.client.buf.length+call.reads.flatten.length < clientBufSize) :
    relayTurn t r =
      if (pass r.client call.reads.flatten).responseReceived then
        ({ r with client := pass r.client call.reads.flatten },
          some (.answered ((pass r.client call.reads.flatten).responseResult.bind
            cJSONPrintUnformatted)))
      else ({ r with client := pass r.client call.reads.flatten }.keyTurn t.key,none) := by
  obtain ⟨hnonneg,hpass⟩ := processCall_open h hroom
  simp only [relayTurn,ht,hpass,if_neg (Int.not_lt.mpr hnonneg)]

/-- While no call fails or brings the response, the client and the keys go their own ways. -/
theorem relayRun_waits {turns : List Turn} {r : Relay}
    (hopen : ∀ t ∈ turns, ∀ call ∈ t.server, call.closed = false)
    (hroom : Roomy r.client (pieces turns))
    (hwait : ∀ ps, ps <+: pieces turns → (passes r.client ps).responseReceived = false) :
    relayRun r turns = ({ Relay.readKey^[turns.countP Turn.key] r with
      client := passes r.client (pieces turns) },none) := by
  induction turns generalizing r with
  | nil => rfl
  | cons t ts ih =>
      obtain ⟨server,key⟩ := t
      rw [List.forall_mem_cons] at hopen
      rw [List.countP_cons,← iterate_keyTurn]
      cases server with
      | none =>
          have hclient : (r.keyTurn key).client = r.client := by
            have h := congrArg Relay.client (keyTurn_client r r.client key)
            exact h
          have h := ih (r := r.keyTurn key) hopen.2 (hclient ▸ hroom) (hclient ▸ hwait)
          rw [hclient] at h
          exact h
      | some call =>
          set piece := call.reads.flatten
          have hturn := relayTurn_open (t := ⟨some call,key⟩) rfl (hopen.1 call rfl) hroom.1
          have hquiet : (pass r.client piece).responseReceived = false :=
            hwait [piece] (List.prefix_append [piece] (pieces ts))
          rw [hquiet,if_neg Bool.false_ne_true,keyTurn_client] at hturn
          have h := ih (r := { r.keyTurn key with client := pass r.client piece }) hopen.2 hroom.2
            fun ps hps => hwait (piece::ps) (List.cons_prefix_cons.mpr ⟨rfl,hps⟩)
          rw [iterate_readKey_client] at h
          rw [relayRun,hturn]
          exact h

theorem relayRun_append {turns : List Turn} {r r' : Relay} (h : relayRun r turns = (r',none))
    (us : List Turn) : relayRun r (turns++us) = relayRun r' us := by
  induction turns generalizing r with
  | nil =>
      cases h
      rfl
  | cons t ts ih =>
      rw [relayRun] at h
      rw [List.cons_append,relayRun]
      cases ht : relayTurn t r with
      | mk s e =>
          rw [ht] at h
          cases e with
          | none => exact ih h
          | some e => cases h

/-- After so many turns the first keys have been sent and the others are still to come. -/
theorem iterate_readKey (n : ℕ) (r : Relay) :
    (Relay.readKey^[n] r).sent = r.sent++
        (((log relayKey r.tty).take n).map Prod.snd).flatMap fillyClientSendKey ∧
      log relayKey (Relay.readKey^[n] r).tty = (log relayKey r.tty).drop n := by
  induction n generalizing r with
  | zero => exact ⟨(List.append_nil _).symm,rfl⟩
  | succ n ih =>
      rw [Function.iterate_succ_apply]
      obtain ⟨hsent,htty⟩ := ih r.readKey
      cases hk : relayKey r.tty with
      | none =>
          have hread : r.readKey = r := by rw [Relay.readKey,hk]
          rw [hread] at hsent htty ⊢
          rw [hsent,htty,log_none hk]
          rw [List.take_nil,List.take_nil,List.drop_nil,List.drop_nil]
          exact ⟨rfl,rfl⟩
      | some k =>
          have hread : r.readKey = { r with tty := k.2, sent := r.sent++fillyClientSendKey k.1 } := by
            rw [Relay.readKey,hk]
          rw [hread] at hsent htty ⊢
          rw [hsent,htty,log_some consumes_relayKey hk]
          exact ⟨by simp,rfl⟩

theorem pieces_append (ts us : List Turn) : pieces (ts++us) = pieces ts++pieces us := by
  rw [pieces,List.filterMap_append,List.map_append]
  rfl

theorem passes_append (c : FillyClient) (ps qs : List Bytes) :
    passes c (ps++qs) = passes (passes c ps) qs := List.foldl_append

theorem Roomy.append {c : FillyClient} {ps qs : List Bytes} :
    Roomy c (ps++qs) ↔ Roomy c ps ∧ Roomy (passes c ps) qs := by
  induction ps generalizing c with
  | nil => exact ⟨fun h => ⟨trivial,h⟩,And.right⟩
  | cons p ps ih =>
      rw [List.cons_append,Roomy,ih,Roomy,and_assoc]
      rfl

/-- What has been drawn when a part of the session has arrived. -/
theorem drawn_of_between {streaming : Bool} {frames : List Frame} {r : ResponseLine}
    {c : FillyClient} {got : ℕ} {later stale part : Bytes} {past ahead : List Message}
    (hb : Between (sessionMessages streaming frames r) c got later past ahead stale part) :
    c.drawn.flatten <+: frames.flatMap Frame.text := by
  have hdrawn : c.drawn = draws past := by
    have h := congrArg FillyClient.drawn hb.delivered
    rwa [drawn_deliver,List.nil_append] at h
  have hall : draws past++draws ahead = draws (frames.flatMap (frameMessages streaming)) := by
    rw [← draws_append,← hb.split,sessionMessages,draws_append]
    exact List.append_nil _
  rw [hdrawn,← draws_frames streaming,← hall,List.flatten_append]
  exact List.prefix_append _ _

def okResponse : ResponseLine :=
  responseLine (bytes "\x7b\"type\":\"response\",\"result\":\"ok\",\"cancelled\":false\x7d")
    (by decide) (by decide +kernel)

def smallFrame : Frame := ⟨bytes "X",by decide,1,80,24⟩

end Filly.Relays

import Filly.MsgPackRoundTrip
import Filly.Response

/-!
# Replies as MessagePack

`send_response_msgpack` parses the JSON text of a reply again and writes a map
of four fixed fields. The result is written as the text of its JSON, whatever it
is, and the fields of a query response other than its type are not written.
-/
namespace Filly.Daemon
open CJson MsgPack Protocol

/-! ## The writer -/

/-- `cancelled && (cancelled->type == cJSON_True || cancelled->valueint)`. -/
def isCancelled : Option Json → Bool
  | none => false
  | some (.bool b) => b
  | some j => j.valueint ≠ 0

def writeOptionalStr (w : MsgPackWriter) : Option Bytes → MsgPackWriter
  | none => msgpackWriteNil w
  | some s => msgpackWriteStr w s

/-- The four fields; `result` is the printed text of the result. -/
def writeReply (w : MsgPackWriter) (root : Json) (result : Option Bytes) : MsgPackWriter :=
  let w := msgpackWriteMapHeader w 4
  let w := msgpackWriteStr w (bytes "type")
  let w := msgpackWriteStr w (((root.getObjectItem (bytes "type")).bind Json.valuestring).getD [])
  let w := msgpackWriteStr w (bytes "result")
  let w := writeOptionalStr w result
  let w := msgpackWriteStr w (bytes "cancelled")
  let w := msgpackWriteBool w (isCancelled (root.getObjectItem (bytes "cancelled")))
  let w := msgpackWriteStr w (bytes "error")
  writeOptionalStr w ((root.getObjectItem (bytes "error")).bind Json.valuestring)

/-- `uint8_t buf[524288]`. -/
def replyBuffer : List UInt8 := List.replicate 524288 0

/-- What is written to the client; absent where `strlen` is given a null
pointer. -/
def sendResponseMsgpack (useMsgpack : Bool) (json : Bytes) : Option Bytes :=
  if useMsgpack then
    match cJSONParse json with
    | none => some []
    | some root =>
        match root.getObjectItem (bytes "result") with
        | none => some (writeReply (msgpackWriterInit replyBuffer) root none).written
        | some result => (cJSONPrintUnformatted result).map fun rj =>
            (writeReply (msgpackWriterInit replyBuffer) root (some rj)).written
  else some (json++[10])

/-! ## Replies -/

def queryMembers (widgetId : Bytes) (value : Option Bytes) : List (Bytes × Json) :=
  [(bytes "type",.string (bytes "query_response")),(bytes "widget_id",.string widgetId),
    (bytes "value",match value with | none => .null | some v => .string v)]

/-- The two kinds of reply that are sent this way. -/
inductive Reply where
  | response (r : WidgetResponse)
  | queryResponse (widgetId : Bytes) (value : Option Bytes)

def Reply.tree : Reply → Json
  | .response r => responseObject r
  | .queryResponse i v => .object (queryMembers i v)

def Reply.toJson (r : Reply) : Option Bytes := cJSONPrintUnformatted r.tree

/-! ## A client that reads MessagePack -/

def isStrTag (t : ℤ) : Bool := (0xa0 ≤ t && t ≤ 0xbf) || t = 0xd9 || t = 0xda || t = 0xdb

def isMapTag (t : ℤ) : Bool := (0x80 ≤ t && t ≤ 0x8f) || t = 0xde || t = 0xdf

def isArrayTag (t : ℤ) : Bool := (0x90 ≤ t && t ≤ 0x9f) || t = 0xdc || t = 0xdd

def isIntTag (t : ℤ) : Bool := (0 ≤ t && t ≤ 0x7f) || 0xe0 ≤ t || (0xcc ≤ t && t ≤ 0xd3)

mutual

/-- A value as a JSON tree, by the readers. A nil has no reader of its own and is
one byte. Floats are not written. -/
def decodeValue : ℕ → MsgPackReader → Option (Json × MsgPackReader)
  | 0, _ => none
  | n+1, r =>
      let t := msgpackReadType r
      if t = 0xc0 then some (.null,(msgpackReadBool r).2)
      else if t = 0xc2 || t = 0xc3 then some ((msgpackReadBool r).map .bool id)
      else if isStrTag t then some ((msgpackReadStr r).map .string id)
      else if isIntTag t then
        some ((msgpackReadInt r).map (fun v => .number ⟨v < 0,v.natAbs,0⟩) id)
      else if isArrayTag t then
        let h := msgpackReadArray r
        (decodeItems n h.1 h.2).map (Prod.map .array id)
      else if isMapTag t then
        let h := msgpackReadMap r
        (decodeMembers n h.1 h.2).map (Prod.map .object id)
      else none

def decodeItems : ℕ → ℕ → MsgPackReader → Option (List Json × MsgPackReader)
  | 0, _, _ => none
  | _+1, 0, r => some ([],r)
  | n+1, k+1, r => (decodeValue n r).bind fun v =>
      (decodeItems n k v.2).map (Prod.map (v.1::·) id)

def decodeMembers : ℕ → ℕ → MsgPackReader → Option (List (Bytes × Json) × MsgPackReader)
  | 0, _, _ => none
  | _+1, 0, r => some ([],r)
  | n+1, k+1, r =>
      let name := msgpackReadStr r
      (decodeValue n name.2).bind fun v =>
        (decodeMembers n k v.2).map (Prod.map ((name.1,v.1)::·) id)

end

def decodeMessage (message : Bytes) : Option Json :=
  (decodeValue (message.length+1) (msgpackReaderInit message)).map Prod.fst

/-! ## What is sent -/

def encodeOptionalStr : Option Bytes → Bytes
  | none => [0xc0]
  | some s => encode (.str s)

/-- The part of the map behind the result. -/
def encodeRest (root : Json) : Bytes :=
  encode (.str (bytes "cancelled"))++
    (encode (.bool (isCancelled (root.getObjectItem (bytes "cancelled"))))++
      (encode (.str (bytes "error"))++
        encodeOptionalStr ((root.getObjectItem (bytes "error")).bind Json.valuestring)))

def encodeReply (type : Bytes) (result : Option Bytes) (rest : Bytes) : Bytes :=
  encode (.map 4)++(encode (.str (bytes "type"))++(encode (.str type)++
    (encode (.str (bytes "result"))++(encodeOptionalStr result++rest))))

theorem writeOptionalStr_eq (w : MsgPackWriter) (s : Option Bytes) :
    writeOptionalStr w s = writeBytes w (encodeOptionalStr s) := by
  cases s with
  | none => rfl
  | some s => exact msgpackWriteStr_eq w s

theorem writeReply_written (root : Json) (result : Option Bytes) :
    (writeReply (msgpackWriterInit replyBuffer) root result).written =
      (encodeReply (((root.getObjectItem (bytes "type")).bind Json.valuestring).getD []) result
        (encodeRest root)).take 524288 := by
  have hw : writeReply (msgpackWriterInit replyBuffer) root result =
      writeBytes (msgpackWriterInit replyBuffer)
        (encodeReply (((root.getObjectItem (bytes "type")).bind Json.valuestring).getD []) result
          (encodeRest root)) := by
    unfold writeReply encodeReply encodeRest
    simp only [writeBytes_append,← writeItem_eq,← writeOptionalStr_eq]
    rfl
  have hsize : (msgpackWriterInit replyBuffer).size = 524288 := List.length_replicate
  rw [hw,written_writeBytes,hsize]
  rfl

theorem encodeLength_length (n : ℕ) : (encodeLength n).length ≤ 5 := by
  unfold encodeLength
  split_ifs <;> simp

/-- The message reaches the result's header, whatever the length of the result. -/
theorem encodeReply_take (type : Bytes) (htype : type.length ≤ 31) (result rest : Bytes) : ∃ t,
    (encodeReply type (some result) rest).take 524288 =
      encode (.map 4)++(encode (.str (bytes "type"))++(encode (.str type)++
        (encode (.str (bytes "result"))++(encodeLength result.length++t)))) := by
  let start := encode (.map 4)++(encode (.str (bytes "type"))++(encode (.str type)++
    (encode (.str (bytes "result"))++encodeLength result.length)))
  have hsplit : encodeReply type (some result) rest = start++(result++rest) := by
    simp [encodeReply,encodeOptionalStr,encode,start]
  have hstart : start.length ≤ 524288 := by
    have h₁ : (encode (.map 4)).length = 1 := rfl
    have h₂ : (encode (.str (bytes "type"))).length = 5 := rfl
    have h₃ : (encode (.str (bytes "result"))).length = 7 := rfl
    have h₄ := encodeLength_length type.length
    have h₅ := encodeLength_length result.length
    have h₆ : (encode (.str type)).length = (encodeLength type.length).length+type.length :=
      List.length_append
    simp only [start,List.length_append]
    omega
  refine ⟨(result++rest).take (524288-start.length),?_⟩
  rw [hsplit,List.take_append,List.take_of_length_le hstart]
  simp [start]

/-! ## What a client reads -/

theorem readType_cons {r : MsgPackReader} {b : UInt8} {t : Bytes} (h : r.rest = b::t) :
    msgpackReadType r = b.toNat := by
  have hlt : r.pos < r.size := by
    by_contra hn
    rw [MsgPackReader.rest,List.drop_eq_nil_of_le (Nat.le_of_not_lt hn)] at h
    cases h
  have hget : r.buf.get ⟨r.pos,hlt⟩ = b := by
    have hd := List.drop_eq_getElem_cons hlt
    rw [MsgPackReader.rest,hd] at h
    exact (List.cons.inj h).1
  rw [msgpackReadType,dif_pos hlt,hget]

theorem length_readBytes (l : ℕ) (r : MsgPackReader) : (readBytes l r).1.length = l := by
  induction l generalizing r with
  | zero => rfl
  | succ l ih =>
      rw [readBytes]
      simp [ih]

theorem strTag_fix (k : ℕ) (h : k < 32) : isStrTag (0xa0 ||| UInt8.ofNat k).toNat = true ∧
    ((0xa0 ||| UInt8.ofNat k).toNat : ℤ) ≠ 0xc0 ∧
    ((0xa0 ||| UInt8.ofNat k).toNat : ℤ) ≠ 0xc2 ∧ ((0xa0 ||| UInt8.ofNat k).toNat : ℤ) ≠ 0xc3 := by
  revert k
  decide

/-- Every string header announces a string. -/
theorem encodeLength_cons (n : ℕ) : ∃ b u, encodeLength n = b::u ∧ isStrTag b.toNat = true ∧
    (b.toNat : ℤ) ≠ 0xc0 ∧ (b.toNat : ℤ) ≠ 0xc2 ∧ (b.toNat : ℤ) ≠ 0xc3 := by
  unfold encodeLength
  split_ifs with h₁ h₂ h₃
  · refine ⟨_,_,rfl,?_⟩
    rw [lowByte_natCast n (by omega)]
    exact strTag_fix n (by omega)
  · exact ⟨_,_,rfl,by decide⟩
  · exact ⟨_,_,rfl,by decide⟩
  · exact ⟨_,_,rfl,by decide⟩

theorem decodeValue_header {r : MsgPackReader} {len : ℕ} {t : Bytes}
    (h : r.rest = encodeLength len++t) (n : ℕ) :
    decodeValue (n+1) r = some ((msgpackReadStr r).map .string id) ∧
      (len < 2^32 → (msgpackReadStr r).1.length = len) := by
  constructor
  · obtain ⟨b,u,hb,htag,h₀,h₂,h₃⟩ := encodeLength_cons len
    rw [hb,List.cons_append] at h
    rw [decodeValue,readType_cons h]
    simp [htag,h₀,h₂,h₃]
  · intro hlen
    rw [msgpackReadStr_eq,length_readBytes,reads_length len hlen r t h]

theorem decodeValue_str {r : MsgPackReader} {s t : Bytes} (hs : s.length < 2^32)
    (h : r.rest = encode (.str s)++t) (n : ℕ) :
    decodeValue (n+1) r = some (.string s,r.advance (encode (.str s)).length) := by
  have hr := h
  rw [encode,List.append_assoc] at hr
  rw [(decodeValue_header hr n).1,reads_str s hs r t h]
  rfl

theorem decodeValue_map {r : MsgPackReader} {t : Bytes} (h : r.rest = encode (.map 4)++t) (n : ℕ) :
    decodeValue (n+1) r = (decodeMembers n 4 (r.advance (encode (.map 4)).length)).map
      (Prod.map .object id) := by
  have hread : msgpackReadMap r = _ := reads_header mapTags 4 (by norm_num) r t h
  have htype : msgpackReadType r = 0x84 := readType_cons h
  rw [decodeValue,htype,hread]
  rfl

theorem decodeMembers_name {r : MsgPackReader} {k t : Bytes} (hk : k.length < 2^32)
    (h : r.rest = encode (.str k)++t) (n count : ℕ) :
    decodeMembers (n+1) (count+1) r = (decodeValue n (r.advance (encode (.str k)).length)).bind
      fun v => (decodeMembers n count v.2).map (Prod.map ((k,v.1)::·) id) := by
  have hread : msgpackReadStr r = (k,r.advance (encode (.str k)).length) := reads_str k hk r t h
  rw [decodeMembers]
  simp only [hread]

/-- The second member of the map is a string. -/
theorem decodeMessage_result {type t message : Bytes} {len : ℕ} {m : Json}
    (htype : type.length ≤ 31) (hmsg : message = encode (.map 4)++(encode (.str (bytes "type"))++
      (encode (.str type)++(encode (.str (bytes "result"))++(encodeLength len++t)))))
    (h : decodeMessage message = some m) :
    ∃ d, m.getObjectItem (bytes "result") = some (.string d) ∧ (len < 2^32 → d.length = len) := by
  obtain ⟨n,hn⟩ : ∃ n, message.length+1 = n+4 := by
    refine ⟨message.length-3,?_⟩
    have : 1 ≤ (encode (.map 4)).length := by decide
    have : 2 ≤ (encode (.str (bytes "type"))).length := by decide
    rw [hmsg,List.length_append,List.length_append]
    omega
  have h₀ : (msgpackReaderInit message).rest = _ := hmsg
  have h₁ := rest_advance h₀
  have h₂ := rest_advance h₁
  have h₃ := rest_advance h₂
  have h₄ := rest_advance h₃
  obtain ⟨hresult,hlen⟩ := decodeValue_header h₄ n
  unfold decodeMessage at h
  rw [hn,decodeValue_map h₀,decodeMembers_name (by decide) h₁,decodeValue_str (by omega) h₂,
    Option.bind_some,decodeMembers_name (by decide) h₃,hresult,Option.bind_some] at h
  generalize decodeMembers _ _ _ = rest at h
  cases rest with
  | none => cases h
  | some ms =>
      cases h
      exact ⟨_,rfl,hlen⟩

/-! ## The two encodings -/

/-- Both objects give every field the same value; a field that is absent counts
as null. -/
def SameFields (m j : Json) : Prop :=
  ∀ name, ((m.getObjectItem name).getD .null).Same ((j.getObjectItem name).getD .null)

/-- The JSON text of the reply can be parsed, the MessagePack form of it can be
decoded, and the fields agree. -/
def EncodingIndependent (reply : Reply) : Prop :=
  ∃ text j message m, reply.toJson = some text ∧ cJSONParse text = some j ∧
    sendResponseMsgpack true text = some message ∧ decodeMessage message = some m ∧ SameFields m j

theorem length_escape (s : Bytes) : s.length ≤ (escape s).length := by
  induction s with
  | nil => simp
  | cons b s ih =>
      have h := length_escapeByte_pos b
      have hcons : escape (b::s) = escapeByte b++escape s := List.flatMap_cons
      rw [hcons,List.length_append,List.length_cons]
      omega

/-- A printed string is longer than the string, and shorter than the space that
can be asked for. -/
theorem printed_string_length {s t : Bytes} (hs : 0 ∉ s)
    (h : cJSONPrintUnformatted (.string s) = some t) : s.length < t.length ∧ t.length < 2^32 := by
  constructor
  · rw [cJSONPrintUnformatted_text h,Json.text,stringText,takeWhile_nul hs]
    have := length_escape s
    simp only [List.length_cons,List.length_append,List.length_nil]
    omega
  · obtain ⟨q,hq,rfl⟩ := Option.map_eq_some_iff.mp h
    obtain ⟨p,hp,hput⟩ := Option.bind_eq_some_iff.mp hq
    have hlen : p.length ≤ 2^32 := by
      unfold ensure at hp
      split_ifs at hp with h₁ h₂ h₃
      · cases hp
        norm_num
      · cases hp
        simp only [intMax,List.length_nil] at h₂ ⊢
        omega
    unfold put at hput
    split_ifs at hput with hroom
    cases hput
    simp only [List.length_append]
    omega

theorem readString_nul {s r : Bytes} (h : readString s = some r) : 0 ∉ r := by
  obtain ⟨out,-,rfl⟩ := Option.map_eq_some_iff.mp h
  exact nul_notMem_takeWhile out

theorem nul_of_readBack {d : ℕ} {j : Json} {s : Bytes} (h : readBack d j = some (.string s)) :
    0 ∉ s := by
  cases j with
  | string t =>
      obtain ⟨r,hr,he⟩ := Option.map_eq_some_iff.mp h
      cases he
      exact readString_nul hr
  | number e =>
      simp only [readBack,readNumber] at h
      split at h <;> cases h
  | array vs =>
      rw [readBack] at h
      split_ifs at h
      obtain ⟨r,-,he⟩ := Option.map_eq_some_iff.mp h
      cases he
  | object ms =>
      rw [readBack] at h
      split_ifs at h
      obtain ⟨r,-,he⟩ := Option.map_eq_some_iff.mp h
      cases he
  | null => cases h
  | bool b => cases h

/-- The result travels as a string, and no string is its own printed text. -/
theorem response_disagrees (r : WidgetResponse) : ¬EncodingIndependent (.response r) := by
  rintro ⟨text,j,message,m,htext,hparse,hsend,hdecode,hsame⟩
  unfold sendResponseMsgpack at hsend
  rw [if_pos rfl,hparse] at hsend
  have ht : text = (responseObject r).text := cJSONPrintUnformatted_text htext
  rw [ht,cJSONParse_text_nil,readBack_response] at hparse
  obtain ⟨w,hw,hparse⟩ := Option.bind_eq_some_iff.mp hparse
  obtain ⟨es,-,rfl⟩ := Option.map_eq_some_iff.mp hparse
  obtain ⟨rj,hrj,hsend⟩ := Option.map_eq_some_iff.mp hsend
  obtain ⟨t,htake⟩ := encodeReply_take (bytes "response") (by decide) rj (encodeRest _)
  rw [writeReply_written] at hsend
  obtain ⟨d,hd,hlen⟩ := decodeMessage_result (by decide) (hsend.symm.trans htake) hdecode
  have hresult := hsame (bytes "result")
  rw [hd] at hresult
  change (Json.string d).Same w at hresult
  cases w with
  | string s =>
      obtain rfl : d = s := hresult
      obtain ⟨hlt,hbound⟩ := printed_string_length (nul_of_readBack hw) hrj
      have := hlen hbound
      omega
  | _ => exact hresult

/-- A query response without the fields that make it one. -/
def emptyQueryMessage : Bytes :=
  encodeReply (bytes "query_response") none (encode (.str (bytes "cancelled"))++
    (encode (.bool false)++(encode (.str (bytes "error"))++[0xc0])))

theorem decodeMessage_emptyQuery : decodeMessage emptyQueryMessage = some (.object
    [(bytes "type",.string (bytes "query_response")),(bytes "result",.null),
      (bytes "cancelled",.bool false),(bytes "error",.null)]) := by
  rfl

theorem readBack_query {i : Bytes} {v : Option Bytes} {j : Json}
    (h : readBack 0 (.object (queryMembers i v)) = some j) :
    ∃ k w, j = .object [(bytes "type",.string (bytes "query_response")),
      (bytes "widget_id",.string k),(bytes "value",w)] := by
  have hclean : ∀ s ∈ [bytes "type",bytes "query_response",bytes "widget_id",bytes "value"],
      readString s = some s := by
    intro s hs
    apply readString_clean
    fin_cases hs <;> decide
  have h₁ := hclean (bytes "type") (by simp)
  have h₂ := hclean (bytes "query_response") (by simp)
  have h₃ := hclean (bytes "widget_id") (by simp)
  have h₄ := hclean (bytes "value") (by simp)
  simp only [queryMembers,readBack,readMembers,h₁,h₂,h₃,h₄,Option.map_some,Option.bind_some,
    Nat.not_le_of_gt (show 0 < 1000 by norm_num),if_false] at h
  obtain ⟨ms,hms,rfl⟩ := Option.map_eq_some_iff.mp h
  obtain ⟨ns,hns,rfl⟩ := Option.map_eq_some_iff.mp hms
  obtain ⟨k,hk,hns⟩ := Option.bind_eq_some_iff.mp hns
  obtain ⟨s,-,rfl⟩ := Option.map_eq_some_iff.mp hk
  obtain ⟨ws,hws,rfl⟩ := Option.map_eq_some_iff.mp hns
  obtain ⟨w,-,hw⟩ := Option.bind_eq_some_iff.mp hws
  cases hw
  exact ⟨s,w,rfl⟩

theorem query_disagrees (i : Bytes) (v : Option Bytes) :
    ¬EncodingIndependent (.queryResponse i v) := by
  rintro ⟨text,j,message,m,htext,hparse,hsend,hdecode,hsame⟩
  unfold sendResponseMsgpack at hsend
  rw [if_pos rfl,hparse] at hsend
  have ht : text = (Json.object (queryMembers i v)).text := cJSONPrintUnformatted_text htext
  rw [ht,cJSONParse_text_nil] at hparse
  obtain ⟨k,w,rfl⟩ := readBack_query hparse
  have hmessage : message = emptyQueryMessage.take 524288 := by
    change some (writeReply _ _ none).written = _ at hsend
    rw [writeReply_written] at hsend
    exact (Option.some_inj.mp hsend).symm
  have hshort : emptyQueryMessage.length ≤ 524288 := by decide
  rw [hmessage,List.take_of_length_le hshort,decodeMessage_emptyQuery] at hdecode
  cases hdecode
  exact hsame (bytes "widget_id")

/-- No reply has the same fields in both encodings. -/
theorem not_encodingIndependent (reply : Reply) : ¬EncodingIndependent reply := by
  cases reply with
  | response r => exact response_disagrees r
  | queryResponse i v => exact query_disagrees i v

/-- A null result is read as the string `null`. -/
theorem null_result_reads_as_string :
    ¬EncodingIndependent (.response ⟨none,false,none⟩) ∧
      ∃ message, sendResponseMsgpack true
          (bytes "\x7b\"type\":\"response\",\"result\":null,\"cancelled\":false\x7d") = some message ∧
        (decodeMessage message).bind (·.getObjectItem (bytes "result")) =
          some (.string (bytes "null")) := by
  have htext : bytes "\x7b\"type\":\"response\",\"result\":null,\"cancelled\":false\x7d" =
      (responseObject ⟨none,false,none⟩).text := by decide +kernel
  have hnull : cJSONPrintUnformatted .null = some (bytes "null") := by decide +kernel
  refine ⟨response_disagrees _,(encodeReply (bytes "response") (some (bytes "null"))
    (encodeRest (responseObject ⟨none,false,none⟩))).take 524288,?_,?_⟩
  · unfold sendResponseMsgpack
    rw [if_pos rfl,htext,cJSONParse_text_nil,readBack_response]
    change (cJSONPrintUnformatted .null).map _ = _
    rw [hnull,Option.map_some,writeReply_written]
    rfl
  · rw [List.take_of_length_le (by decide +kernel)]
    rfl

end Filly.Daemon

import Filly.CJson

/-!
# The client's receive buffer

This is the receiving half of `core/client.c`. The buffer is kept as its first
`buf_len` bytes. While `client_process_buffer` runs, the source's moving pointer
`p` splits it in two: `front` is what lies before `p`, `rest` what lies from `p`
on. A line that was looked at stays in front with its newline overwritten by a
NUL, a draw message is cut out of `rest` in place, and the buffer is moved down
only on some of the ways out.

The draw callback is taken to be set; its calls are recorded in order.
-/
namespace Filly.Client
open CJson

def clientBufSize : ℕ := 524288

structure FillyClient where
  buf : Bytes := []
  responseReceived : Bool := false
  responseResult : Option Json := none
  responseCancelled : Bool := false
  drawn : List Bytes := []

/-- What a received line asks for. -/
inductive Request where
  | draw (len : ℕ)
  | response (result : Option Json) (cancelled : Bool)
  | other

/-- `canc && (canc->type == cJSON_True || (canc->type == cJSON_Number && canc->valueint))`. -/
def isCancelled : Option Json → Bool
  | some (.bool b) => b
  | some (.number d) => d.valueint ≠ 0
  | _ => false

/-- `cJSON_Parse` sees the line up to its first NUL; anything that is neither a
draw header with a positive length nor a response is passed over. -/
def classify (line : Bytes) : Request :=
  match cJSONParse (line.takeWhile (· ≠ 0)) with
  | none => .other
  | some msg =>
      match (msg.getObjectItem (bytes "type")).bind Json.valuestring with
      | none => .other
      | some type =>
          if type = bytes "draw" then
            match msg.getObjectItem (bytes "len") with
            | none => .other
            | some len => if 0 < len.valueint then .draw len.valueint.toNat else .other
          else if type = bytes "response" then
            .response (msg.getObjectItem (bytes "result"))
              (isCancelled (msg.getObjectItem (bytes "cancelled")))
          else .other

/-- `memchr` for a newline: the text before it and after it. -/
def splitLine : Bytes → Option (Bytes × Bytes)
  | [] => none
  | b::s => if b = 10 then some ([],s) else (splitLine s).map fun r => (b::r.1,r.2)

/-- The loop of `client_process_buffer`, with its return value. Every turn
shortens `rest`, so its length bounds the turns. -/
def processLoop : ℕ → FillyClient → Bytes → Bytes → ℤ × FillyClient
  | 0, c, _, _ => (0,c)
  | n+1, c, front, rest =>
      match splitLine rest with
      | none => (0,{ c with buf := if rest = [] then front else rest })
      | some (line,tail) =>
          match classify line with
          | .draw len =>
              if len+1 ≤ tail.length then
                let after := tail.drop len
                let after := if after.head? = some 10 then after.tail else after
                processLoop n { c with drawn := c.drawn++[tail.take len] } front after
              else (0,{ c with buf := rest })
          | .response result cancelled =>
              (1,{ c with responseReceived := true, responseResult := result,
                          responseCancelled := cancelled, buf := front++tail })
          | .other =>
              if tail = [] then (0,{ c with buf := [] })
              else processLoop n c (front++line++[0]) tail

def clientProcessBuffer (c : FillyClient) : ℤ × FillyClient :=
  processLoop (c.buf.length+1) c [] c.buf

/-- The read loop of `filly_client_process`: `reads` are the successful reads
before the first one that would block. -/
def fillyClientProcess (c : FillyClient) : List Bytes → ℤ × FillyClient
  | [] => clientProcessBuffer c
  | data::reads =>
      if clientBufSize ≤ c.buf.length+data.length then (-1,c)
      else fillyClientProcess { c with buf := c.buf++data } reads

/-- One turn of the loop of `filly_client_get_response`, for a successful read
of at most the free space. -/
def getResponseTurn (c : FillyClient) (data : Bytes) : ℤ × FillyClient :=
  if clientBufSize ≤ c.buf.length+1 then (-1,c)
  else clientProcessBuffer { c with buf := c.buf++data.take (clientBufSize-c.buf.length-1) }

/-- A client that is driven by calls to `filly_client_process`, each of them
finding the given reads. -/
def drive (c : FillyClient) (calls : List (List Bytes)) : FillyClient :=
  calls.foldl (fun c reads => (fillyClientProcess c reads).2) c

/-- A client that waits in `filly_client_get_response`; the loop ends with the
first response. -/
def awaitResponse (c : FillyClient) : List Bytes → FillyClient
  | [] => c
  | data::reads =>
      if c.responseReceived then c else awaitResponse (getResponseTurn c data).2 reads

end Filly.Client

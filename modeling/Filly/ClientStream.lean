import Filly.Client
import Filly.Framing

/-!
# What one pass over the client's buffer does to a stream of messages

A server stream is a list of plain lines, draw messages and at most one final
response. One pass consumes the complete messages of the buffer and keeps the
incomplete rest. There is one exception: when the last message consumed is a
draw that ends exactly at the end of the buffer, the plain lines consumed before
it stay in the buffer, their newlines replaced by NULs. Such stale bytes hide
the line that arrives next, because only the text up to their first NUL is read.
-/
namespace Filly.Client
open CJson Framing

structure PlainLine where
  text : Bytes
  noNewline : 10 ∉ text
  kind : classify text = .other

structure DrawMessage where
  header : Bytes
  payload : Bytes
  noNewline : 10 ∉ header
  kind : classify header = .draw payload.length

structure ResponseLine where
  text : Bytes
  result : Option Json
  cancelled : Bool
  noNewline : 10 ∉ text
  kind : classify text = .response result cancelled

inductive Message where
  | line (l : PlainLine)
  | draw (d : DrawMessage)
  | response (r : ResponseLine)

def Request.isOther : Request → Bool
  | .other => true
  | _ => false

def Request.drawLength : Request → Option ℕ
  | .draw len => some len
  | _ => none

def Request.answer : Request → Option (Option Json × Bool)
  | .response result cancelled => some (result,cancelled)
  | _ => none

theorem Request.eq_response (r : Request) (h : r.answer.isSome = true) :
    r = .response (r.answer.get h).1 (r.answer.get h).2 := by
  cases r with
  | draw len => simp [Request.answer] at h
  | response result cancelled => rfl
  | other => simp [Request.answer] at h

/-- A line of a type the client does not know. -/
def plainLine (text : Bytes) (hn : 10 ∉ text) (h : (classify text).isOther = true) :
    PlainLine where
  text := text
  noNewline := hn
  kind := by
    cases hc : classify text <;> simp_all [Request.isOther]

def drawMessage (header payload : Bytes) (hn : 10 ∉ header)
    (h : (classify header).drawLength = some payload.length) : DrawMessage where
  header := header
  payload := payload
  noNewline := hn
  kind := by
    cases hc : classify header <;> simp_all [Request.drawLength]

def responseLine (text : Bytes) (hn : 10 ∉ text) (h : (classify text).answer.isSome = true) :
    ResponseLine where
  text := text
  result := ((classify text).answer.get h).1
  cancelled := ((classify text).answer.get h).2
  noNewline := hn
  kind := Request.eq_response _ h

/-- The bytes a message is sent as. A draw of length zero is two plain lines. -/
def Message.wire : Message → Bytes
  | .line l => l.text++[10]
  | .draw d => d.header++10::d.payload++[10]
  | .response r => r.text++[10]

theorem Message.wire_ne_nil (m : Message) : m.wire ≠ [] := by
  cases m <;> simp [Message.wire]

def Message.isLine : Message → Bool
  | .line _ => true
  | _ => false

/-- A response, if there is one, is the last message. -/
def ResponseLast : List Message → Prop
  | [] => True
  | .response _::ms => ms = []
  | _::ms => ResponseLast ms

/-- The payloads a client should see, in order. -/
def draws : List Message → List Bytes
  | [] => []
  | .draw d::ms => d.payload::draws ms
  | _::ms => draws ms

/-- What the client should know after these messages. -/
def deliver (c : FillyClient) : List Message → FillyClient
  | [] => c
  | .line _::ms => deliver c ms
  | .draw d::ms => deliver { c with drawn := c.drawn++[d.payload] } ms
  | .response r::ms => deliver { c with responseReceived := true, responseResult := r.result,
                                        responseCancelled := r.cancelled } ms

/-! ## Single turns of the loop -/

theorem splitLine_append {t s : Bytes} (h : 10 ∉ t) : splitLine (t++10::s) = some (t,s) := by
  induction t with
  | nil => simp [splitLine]
  | cons b t ih =>
      rw [List.mem_cons,not_or] at h
      rw [List.cons_append,splitLine,if_neg (Ne.symm h.1),ih h.2]
      rfl

theorem splitLine_none {t : Bytes} (h : 10 ∉ t) : splitLine t = none := by
  induction t with
  | nil => rfl
  | cons b t ih =>
      rw [List.mem_cons,not_or] at h
      rw [splitLine,if_neg (Ne.symm h.1),ih h.2]
      rfl

/-- A turn with a whole line in front. -/
theorem processLoop_line (n : ℕ) (c : FillyClient) (front : Bytes) {rest line tail : Bytes}
    (h : splitLine rest = some (line,tail)) :
    processLoop (n+1) c front rest =
      match classify line with
      | .draw len =>
          if len+1 ≤ tail.length then
            processLoop n { c with drawn := c.drawn++[tail.take len] } front
              (if (tail.drop len).head? = some 10 then (tail.drop len).tail else tail.drop len)
          else (0,{ c with buf := rest })
      | .response result cancelled =>
          (1,{ c with responseReceived := true, responseResult := result,
                      responseCancelled := cancelled, buf := front++tail })
      | .other =>
          if tail = [] then (0,{ c with buf := [] })
          else processLoop n c (front++line++[0]) tail := by
  cases hc : classify line <;> simp [processLoop,h,hc]

theorem processLoop_part (n : ℕ) (c : FillyClient) (front : Bytes) {rest : Bytes}
    (h : splitLine rest = none) :
    processLoop (n+1) c front rest = (0,{ c with buf := if rest = [] then front else rest }) := by
  simp [processLoop,h]

theorem loop_line (n : ℕ) (c : FillyClient) (front tail : Bytes) (l : PlainLine) :
    processLoop (n+1) c front (l.text++10::tail) =
      if tail = [] then (0,{ c with buf := [] })
      else processLoop n c (front++l.text++[0]) tail := by
  rw [processLoop_line n c front (splitLine_append l.noNewline),l.kind]

theorem loop_draw (n : ℕ) (c : FillyClient) (front tail : Bytes) (d : DrawMessage) :
    processLoop (n+1) c front (d.header++10::(d.payload++10::tail)) =
      processLoop n { c with drawn := c.drawn++[d.payload] } front tail := by
  rw [processLoop_line n c front (splitLine_append d.noNewline),d.kind]
  simp

theorem loop_response (n : ℕ) (c : FillyClient) (front tail : Bytes) (r : ResponseLine) :
    processLoop (n+1) c front (r.text++10::tail) =
      (1,{ c with responseReceived := true, responseResult := r.result,
                  responseCancelled := r.cancelled, buf := front++tail }) := by
  rw [processLoop_line n c front (splitLine_append r.noNewline),r.kind]

/-- A rest that is less than one message is left alone. -/
theorem loop_incomplete {n : ℕ} {c : FillyClient} {front part later : Bytes} {ms : List Message}
    (h : part++later = wires Message.wire ms) (hi : Incomplete Message.wire part ms) :
    processLoop (n+1) c front part = (0,{ c with buf := if part = [] then front else part }) := by
  cases ms with
  | nil =>
      obtain rfl : part = [] := hi
      rfl
  | cons m ms =>
      have hlt : part.length < m.wire.length := hi
      rw [wires_cons] at h
      have hpart : part <+: m.wire++wires Message.wire ms := ⟨later,h⟩
      have hpre : part <+: m.wire :=
        List.prefix_of_prefix_length_le hpart (List.prefix_append _ _) hlt.le
      -- Less than a terminated text holds no newline.
      have short : ∀ t : Bytes, 10 ∉ t → part <+: t++[10] → part.length < (t++[10]).length →
          splitLine part = none := by
        intro t ht hp hl
        refine splitLine_none fun h10 => ht ?_
        refine (List.prefix_of_prefix_length_le hp (List.prefix_append t [10]) ?_).subset h10
        simp at hl
        omega
      cases m with
      | line l => exact processLoop_part n c front (short _ l.noNewline hpre hlt)
      | response r => exact processLoop_part n c front (short _ r.noNewline hpre hlt)
      | draw d =>
          by_cases hh : part.length ≤ d.header.length
          · have hp : part <+: d.header++[10] := by
              refine List.prefix_of_prefix_length_le hpre ?_ (by simp; omega)
              exact ⟨d.payload++[10],by simp [Message.wire]⟩
            exact processLoop_part n c front (short _ d.noNewline hp (by simp; omega))
          · -- The header is complete and the payload or its newline is not.
            have hd : d.header++[10] <+: (Message.draw d).wire :=
              ⟨d.payload++[10],by simp [Message.wire]⟩
            obtain ⟨got,rfl⟩ : d.header++[10] <+: part :=
              List.prefix_of_prefix_length_le hd hpre (by simp; omega)
            have hshort : ¬d.payload.length+1 ≤ got.length := by
              simp [Message.wire] at hlt
              omega
            have he : d.header++[10]++got = d.header++10::got := by simp
            rw [he,processLoop_line n c front (splitLine_append d.noNewline),d.kind]
            simp [hshort]

/-! ## A whole pass -/

/-- The consumed lines as they stay in front of `p`. -/
def residue : List Message → Bytes
  | [] => []
  | .line l::ms => l.text++0::residue ms
  | _::ms => residue ms

def endsInLine (ms : List Message) : Bool := (ms.getLast?.map Message.isLine).getD false

/-- What a pass leaves in the buffer: an incomplete rest is moved down, a final
plain line empties it, and otherwise the consumed lines stay where they are. -/
def leftover (front : Bytes) (ms : List Message) (part : Bytes) : Bytes :=
  if part ≠ [] then part else if endsInLine ms then [] else front++residue ms

theorem leftover_cons_line (front part : Bytes) (l : PlainLine) (ms : List Message)
    (h : ms ≠ [] ∨ part ≠ []) :
    leftover front (.line l::ms) part = leftover (front++l.text++[0]) ms part := by
  by_cases hp : part = []
  · obtain ⟨m,ms,rfl⟩ := List.exists_cons_of_ne_nil (h.resolve_right (fun hn => hn hp))
    simp [leftover,hp,endsInLine,residue,List.getLast?_cons_cons]
  · simp [leftover,hp]

theorem leftover_cons_draw (front part : Bytes) (d : DrawMessage) (ms : List Message) :
    leftover front (.draw d::ms) part = leftover front ms part := by
  cases ms with
  | nil => simp [leftover,endsInLine,residue,Message.isLine]
  | cons m ms =>
      simp only [leftover,endsInLine,List.getLast?_cons_cons]
      rfl

@[simp] theorem deliver_buf (c : FillyClient) (ms : List Message) : (deliver c ms).buf = c.buf := by
  induction ms generalizing c with
  | nil => rfl
  | cons m ms ih => cases m <;> exact ih _

theorem wires_ne_nil {ms : List Message} (h : ms ≠ []) : wires Message.wire ms ≠ [] := by
  obtain ⟨m,ms,rfl⟩ := List.exists_cons_of_ne_nil h
  simp [m.wire_ne_nil]

/-- A pass over complete messages and an incomplete rest delivers exactly those
messages. -/
theorem pass_spec {done todo : List Message} {part later : Bytes} (n : ℕ) (c : FillyClient)
    (front : Bytes) (hlast : ResponseLast (done++todo))
    (h : part++later = wires Message.wire todo) (hi : Incomplete Message.wire part todo)
    (hn : (wires Message.wire done++part).length < n) :
    (processLoop n c front (wires Message.wire done++part)).2 =
      { deliver c done with buf := leftover front done part } := by
  induction done generalizing n c front with
  | nil =>
      obtain ⟨n,rfl⟩ : ∃ k, n = k+1 := ⟨n-1,by omega⟩
      rw [wires_nil,List.nil_append,loop_incomplete h hi]
      by_cases hp : part = [] <;> simp [hp,leftover,deliver,endsInLine,residue]
  | cons m ms ih =>
      obtain ⟨n,rfl⟩ : ∃ k, n = k+1 := ⟨n-1,by omega⟩
      rw [wires_cons,List.append_assoc] at hn ⊢
      cases m with
      | line l =>
          have he : (Message.line l).wire++(wires Message.wire ms++part) =
              l.text++10::(wires Message.wire ms++part) := by simp [Message.wire]
          rw [he,loop_line]
          by_cases ht : wires Message.wire ms++part = []
          · obtain ⟨hm,rfl⟩ := List.append_eq_nil_iff.mp ht
            obtain rfl : ms = [] := by
              by_contra hne
              exact wires_ne_nil hne hm
            simp [leftover,endsInLine,Message.isLine,deliver]
          · have hne : ms ≠ [] ∨ part ≠ [] := by
              by_contra hc
              simp only [not_or,not_not] at hc
              exact ht (by simp [hc.1,hc.2])
            rw [if_neg ht,leftover_cons_line _ _ _ _ hne]
            exact ih n c _ hlast (by rw [he] at hn; simp at hn ⊢; omega)
      | draw d =>
          have he : (Message.draw d).wire++(wires Message.wire ms++part) =
              d.header++10::(d.payload++10::(wires Message.wire ms++part)) := by
            simp [Message.wire]
          rw [he,loop_draw,leftover_cons_draw]
          exact ih n _ front hlast (by rw [he] at hn; simp at hn ⊢; omega)
      | response r =>
          obtain ⟨rfl,rfl⟩ : ms = [] ∧ todo = [] := List.append_eq_nil_iff.mp hlast
          obtain rfl : part = [] := hi
          have he : (Message.response r).wire++(wires Message.wire []++[]) = r.text++10::[] := by
            simp [Message.wire]
          rw [he,loop_response]
          simp [leftover,endsInLine,Message.isLine,residue,deliver]

end Filly.Client

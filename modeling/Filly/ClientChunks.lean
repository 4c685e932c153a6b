import Filly.ClientStream

/-!
# Reading a message stream in arbitrary pieces

The bytes of a stream reach the client in pieces, and a pass over the buffer
follows each piece. A piece is hazardous when the pass it triggers consumes a
plain line, ends exactly behind a draw message, and the next message is again a
draw or the response: then the consumed line stays in the buffer and the next
header is read as part of it. Without a hazardous piece every message is
delivered exactly once, in order, and at any time exactly the messages that have
arrived complete have been delivered.
-/
namespace Filly.Client
open CJson Framing

/-- The effect of one piece of data: append it and run a pass. -/
def pass (c : FillyClient) (data : Bytes) : FillyClient :=
  (clientProcessBuffer { c with buf := c.buf++data }).2

def passes (c : FillyClient) (pieces : List Bytes) : FillyClient := pieces.foldl pass c

abbrev stream (ms : List Message) : Bytes := wires Message.wire ms

/-! ## Stale bytes -/

/-- Bytes left over from consumed lines. -/
structure Stale (s : Bytes) : Prop where
  noNewline : 10 ∉ s
  nul : 0 ∈ s
  kind : classify s = .other

theorem classify_append {s : Bytes} (h : 0 ∈ s) (t : Bytes) : classify (s++t) = classify s := by
  have ht : (s++t).takeWhile (· ≠ 0) = s.takeWhile (· ≠ 0) := by
    induction s with
    | nil => simp at h
    | cons b s ih =>
        by_cases hb : b = 0
        · simp [hb]
        · have hs : 0 ∈ s := by simpa [Ne.symm hb] using h
          simp only [ne_eq,decide_not] at ih
          simp [hb,ih hs]
  simp only [classify,ht]

theorem residue_noNewline (ms : List Message) : 10 ∉ residue ms := by
  induction ms with
  | nil => simp [residue]
  | cons m ms ih =>
      cases m with
      | line l => simp [residue,l.noNewline,ih]
      | draw d => exact ih
      | response r => exact ih

theorem residue_eq_nil_iff (ms : List Message) :
    residue ms = [] ↔ ∀ m ∈ ms, m.isLine = false := by
  induction ms with
  | nil => simp [residue]
  | cons m ms ih => cases m <;> simp [residue,Message.isLine,ih]

theorem classify_nul (l : PlainLine) : classify (l.text++[0]) = .other := by
  by_cases h0 : (0 : UInt8) ∈ l.text
  · exact (classify_append h0 _).trans l.kind
  · have ht : (l.text++[0]).takeWhile (· ≠ 0) = l.text.takeWhile (· ≠ 0) := by
      have hself := takeWhile_ne_append h0 []
      rw [List.append_nil,List.takeWhile_nil,List.append_nil] at hself
      rw [takeWhile_ne_append_cons h0,hself]
    rw [← l.kind]
    simp only [classify,ht]

theorem stale_residue {ms : List Message} (h : residue ms ≠ []) : Stale (residue ms) := by
  suffices hs : 0 ∈ residue ms ∧ classify (residue ms) = .other from
    ⟨residue_noNewline ms,hs.1,hs.2⟩
  induction ms with
  | nil => exact (h rfl).elim
  | cons m ms ih =>
      cases m with
      | draw d => exact ih h
      | response r => exact ih h
      | line l =>
          have hz : (0 : UInt8) ∈ l.text++[0] := by simp
          have he : residue (.line l::ms) = (l.text++[0])++residue ms := by simp [residue]
          rw [he]
          exact ⟨List.mem_append_left _ hz,(classify_append hz _).trans (classify_nul l)⟩

/-- A line behind stale bytes is one longer line that is passed over. -/
def absorb {s : Bytes} (h : Stale s) (l : PlainLine) : PlainLine where
  text := s++l.text
  noNewline := by simp [h.noNewline,l.noNewline]
  kind := (classify_append h.nul l.text).trans h.kind

/-! ## Pieces -/

/-- The pass behind a piece that lifts the number of bytes received from `prev`
to `cur` consumes a plain line and ends exactly behind a draw message that is
followed by a draw or the response. -/
def Hazard (total : List Message) (prev cur : ℕ) : Prop :=
  ∃ before l between d next after,
    total = before++.line l::(between++.draw d::next::after) ∧ next.isLine = false ∧
    prev < (stream (before++[.line l])).length ∧
    cur = (stream (before++.line l::(between++[.draw d]))).length

/-- No piece is hazardous; `got` bytes have been received before the first. -/
def SafeFrom (total : List Message) (got : ℕ) : List Bytes → Prop
  | [] => True
  | piece::pieces => ¬Hazard total got (got+piece.length) ∧
      SafeFrom total (got+piece.length) pieces

/-- What the client has told its caller. -/
def seen (c : FillyClient) : FillyClient := { c with buf := [] }

theorem seen_deliver (c : FillyClient) (ms : List Message) :
    seen (deliver c ms) = deliver (seen c) ms := by
  induction ms generalizing c with
  | nil => rfl
  | cons m ms ih =>
      cases m with
      | line l => exact ih c
      | draw d => exact ih { c with drawn := c.drawn++[d.payload] }
      | response r =>
          exact ih { c with responseReceived := true, responseResult := r.result,
                            responseCancelled := r.cancelled }

theorem deliver_append (c : FillyClient) (ms ns : List Message) :
    deliver c (ms++ns) = deliver (deliver c ms) ns := by
  induction ms generalizing c with
  | nil => rfl
  | cons m ms ih => cases m <;> exact ih _

theorem ResponseLast.suffix {ms ns : List Message} (h : ResponseLast (ms++ns)) :
    ResponseLast ns := by
  induction ms with
  | nil => exact h
  | cons m ms ih =>
      cases m with
      | line l => exact ih h
      | draw d => exact ih h
      | response r =>
          obtain ⟨rfl,rfl⟩ : ms = [] ∧ ns = [] := List.append_eq_nil_iff.mp h
          trivial

/-- Between two passes the buffer holds an incomplete rest, and before it stale
bytes only when a plain line comes next. -/
structure Between (total : List Message) (c : FillyClient) (got : ℕ) (later : Bytes)
    (past ahead : List Message) (stale part : Bytes) : Prop where
  split : total = past++ahead
  buffer : c.buf = stale++part
  coming : part++later = stream ahead
  incomplete : Incomplete Message.wire part ahead
  count : got = (stream past).length+part.length
  harmless : stale = [] ∨ Stale stale ∧ ∀ m ∈ ahead.head?, m.isLine = true
  delivered : seen c = deliver {} past

/-- A pass over a buffer without stale bytes. -/
theorem pass_eq {done todo : List Message} {part later : Bytes} {c : FillyClient} {data : Bytes}
    (hlast : ResponseLast (done++todo)) (h : part++later = stream todo)
    (hi : Incomplete Message.wire part todo) (hbuf : c.buf++data = stream done++part) :
    pass c data = { deliver { c with buf := stream done++part } done with
      buf := leftover [] done part } := by
  simp only [pass,clientProcessBuffer,hbuf]
  exact pass_spec _ _ [] hlast h hi (Nat.lt_succ_self _)

theorem leftover_nil (ms : List Message) (part : Bytes) : leftover [] ms part =
    (if part = [] ∧ endsInLine ms = false then residue ms else [])++part := by
  by_cases hp : part = []
  · cases he : endsInLine ms <;> simp [leftover,hp,he]
  · simp [leftover,hp]

theorem endsInLine_concat (ms : List Message) (m : Message) : endsInLine (ms++[m]) = m.isLine := by
  simp [endsInLine]

/-- A consumed line that stays behind makes the piece hazardous, unless a plain
line follows. -/
theorem isLine_of_safe {past done todo : List Message} {prev : ℕ} {part : Bytes}
    (hlast : ResponseLast (done++todo)) (hpart : Incomplete Message.wire part (done++todo))
    (hprev : prev = (stream past).length+part.length)
    (hsafe : ¬Hazard (past++(done++todo)) prev (stream (past++done)).length)
    (hends : endsInLine done = false) (hres : residue done ≠ []) :
    ∀ m ∈ todo.head?, m.isLine = true := by
  intro next hnext
  by_contra hline
  rw [Bool.not_eq_true] at hline
  obtain ⟨after,rfl⟩ : ∃ after, todo = next::after := by
    cases todo with
    | nil => simp at hnext
    | cons m ms => exact ⟨ms,by simp_all⟩
  rw [Ne,residue_eq_nil_iff] at hres
  push Not at hres
  obtain ⟨m,hm,hml⟩ := hres
  obtain ⟨before,rest,rfl⟩ := List.append_of_mem hm
  obtain ⟨l,rfl⟩ : ∃ l, m = .line l := by
    cases m <;> simp_all [Message.isLine]
  -- The last message consumed is neither a line nor the response.
  rcases List.eq_nil_or_concat' rest with rfl | ⟨between,last,rfl⟩
  · simp [endsInLine_concat,Message.isLine] at hends
  obtain ⟨d,rfl⟩ : ∃ d, last = .draw d := by
    have he : before++.line l::(between++[last]) = before++.line l::between++[last] := by simp
    rw [he,endsInLine_concat] at hends
    have hl : ResponseLast ((before++.line l::between)++(last::next::after)) := by simpa using hlast
    cases last with
    | line l => simp [Message.isLine] at hends
    | draw d => exact ⟨d,rfl⟩
    | response r => exact absurd hl.suffix (by simp [ResponseLast])
  refine hsafe ⟨past++before,l,between,d,next,after,by simp,hline,?_,by simp⟩
  have hlt : part.length < (stream (before++[.line l])).length := by
    cases before with
    | nil => simpa [Incomplete] using hpart
    | cons m ms =>
        have hm : part.length < m.wire.length := by simpa [Incomplete] using hpart
        simp only [stream,List.cons_append,wires_cons,List.length_append]
        omega
  rw [hprev]
  simp only [stream,wires_append,List.length_append] at hlt ⊢
  omega

/-- The effect of a pass, for a buffer that reads as the messages `done'`: these
are the messages `done` that have arrived, up to the texts of plain lines. -/
theorem Between.of_done {total past done done' todo : List Message} {c : FillyClient}
    {prev : ℕ} {data part part' later : Bytes} (htotal : total = past++(done++todo))
    (hlast : ResponseLast (done++todo)) (hlast' : ResponseLast (done'++todo))
    (hpart : Incomplete Message.wire part (done++todo))
    (hprev : prev = (stream past).length+part.length)
    (hcut : part++data = stream done++part')
    (hlater : part'++later = stream todo) (hpart' : Incomplete Message.wire part' todo)
    (hsafe : ¬Hazard total prev (prev+data.length)) (hseen : seen c = deliver {} past)
    (hbuf : c.buf++data = stream done'++part')
    (hsame : ∀ c, deliver c done' = deliver c done)
    (hlines : done'.map Message.isLine = done.map Message.isLine) :
    ∃ stale, Between total (pass c data) (prev+data.length) later (past++done) todo stale part' := by
  have hcount : prev+data.length = (stream (past++done)).length+part'.length := by
    have hl := congrArg List.length hcut
    simp only [stream,wires_append,List.length_append] at hl hprev ⊢
    omega
  have hends : endsInLine done' = endsInLine done := by
    simp only [endsInLine,← List.getLast?_map,hlines]
  have hres : residue done' = [] ↔ residue done = [] := by
    have hmem : ∀ ms : List Message, (∀ m ∈ ms, m.isLine = false) ↔
        ∀ b ∈ ms.map Message.isLine, b = false := by simp
    rw [residue_eq_nil_iff,residue_eq_nil_iff,hmem,hmem,hlines]
  have hpass := pass_eq hlast' hlater hpart' hbuf
  refine ⟨if part' = [] ∧ endsInLine done' = false then residue done' else [],
    by rw [htotal,List.append_assoc],?_,hlater,hpart',hcount,?_,?_⟩
  · rw [hpass,← leftover_nil]
  · split_ifs with hcase
    · by_cases hr : residue done' = []
      · exact .inl hr
      · refine .inr ⟨stale_residue hr,?_⟩
        refine isLine_of_safe hlast hpart hprev ?_ (hends ▸ hcase.2) (fun h => hr (hres.mpr h))
        rw [hcase.1,List.length_nil,Nat.add_zero] at hcount
        rwa [← htotal,← hcount]
    · exact .inl rfl
  · rw [hpass,deliver_append,← hseen,← hsame]
    exact seen_deliver { c with buf := stream done'++part' } done'

theorem pass_noNewline {c : FillyClient} {data : Bytes} (h : 10 ∉ c.buf++data) :
    pass c data = { c with buf := c.buf++data } := by
  simp only [pass,clientProcessBuffer,processLoop,splitLine_none h]
  split_ifs with hb
  · rw [hb]
  · rfl

/-- One piece of data, without a hazard. -/
theorem Between.step {total past ahead : List Message} {c : FillyClient} {got : ℕ}
    {data later stale part : Bytes} (hlast : ResponseLast total)
    (hb : Between total c got (data++later) past ahead stale part)
    (hsafe : ¬Hazard total got (got+data.length)) :
    ∃ past' ahead' stale' part', Between total (pass c data) (got+data.length) later
      past' ahead' stale' part' := by
  obtain ⟨htotal,hbuf,hcoming,hinc,hcount,hharm,hseen⟩ := hb
  rw [← List.append_assoc] at hcoming
  obtain ⟨done,todo,part',rfl,hcut,hlater,hinc'⟩ := exists_cut hcoming
  have hlast' : ResponseLast (done++todo) := (htotal ▸ hlast).suffix
  rcases hharm with rfl | ⟨hstale,hline⟩
  · -- Without stale bytes the buffer reads as what has arrived.
    have hbuf' : c.buf++data = stream done++part' := by rw [hbuf,List.nil_append,hcut]
    obtain ⟨stale,h⟩ := Between.of_done htotal hlast' hlast' hinc hcount hcut hlater hinc' hsafe
      hseen hbuf' (fun _ => rfl) rfl
    exact ⟨_,_,_,_,h⟩
  cases done with
  | cons m done =>
      obtain ⟨l,rfl⟩ : ∃ l, m = .line l := by
        have hm := hline m (by simp)
        cases m <;> simp_all [Message.isLine]
      have hbuf' : c.buf++data = stream (.line (absorb hstale l)::done)++part' := by
        rw [hbuf,List.append_assoc,hcut]
        simp [Message.wire,absorb]
      have hlast'' : ResponseLast (.line (absorb hstale l)::done++todo) := hlast'
      obtain ⟨stale,h⟩ := Between.of_done htotal hlast' hlast'' hinc hcount hcut hlater hinc' hsafe
        hseen hbuf' (fun _ => rfl) rfl
      exact ⟨_,_,_,_,h⟩
  | nil =>
      -- The plain line behind the stale bytes is still incomplete.
      have hnl : 10 ∉ part' := by
        cases todo with
        | nil =>
            obtain rfl : part' = [] := hinc'
            simp
        | cons m ms =>
            obtain ⟨l,rfl⟩ : ∃ l, m = .line l := by
              have hm := hline m (by simp)
              cases m <;> simp_all [Message.isLine]
            have hlt : part'.length < (l.text++[10]).length := hinc'
            have hp : part' <+: l.text++(10::stream ms) :=
              ⟨later,by simpa [Message.wire] using hlater⟩
            have hle : part'.length ≤ l.text.length := by simp at hlt; omega
            exact fun h10 => l.noNewline
              ((List.prefix_of_prefix_length_le hp (List.prefix_append _ _) hle).subset h10)
      have hbuf' : c.buf++data = stale++part' := by
        rw [hbuf,List.append_assoc,hcut]
        simp
      have hpass : pass c data = { c with buf := stale++part' } := by
        rw [pass_noNewline,hbuf']
        rw [hbuf']
        simp [hstale.noNewline,hnl]
      refine ⟨past,todo,stale,part',htotal,by rw [hpass],hlater,hinc',?_,.inr ⟨hstale,hline⟩,?_⟩
      · have hl := congrArg List.length hcut
        simp only [List.length_append,stream,wires_nil,List.length_nil] at hl hcount ⊢
        omega
      · rw [hpass,← hseen]
        rfl

theorem SafeFrom.left {total : List Message} {got : ℕ} {ps qs : List Bytes}
    (h : SafeFrom total got (ps++qs)) : SafeFrom total got ps := by
  induction ps generalizing got with
  | nil => trivial
  | cons p ps ih => exact ⟨h.1,ih h.2⟩

/-- Any number of pieces, none of them hazardous. -/
theorem Between.passes {total past ahead : List Message} {c : FillyClient} {got : ℕ}
    {pieces : List Bytes} {later stale part : Bytes} (hlast : ResponseLast total)
    (hb : Between total c got (pieces.flatten++later) past ahead stale part)
    (hsafe : SafeFrom total got pieces) :
    ∃ past' ahead' stale' part', Between total (passes c pieces) (got+pieces.flatten.length) later
      past' ahead' stale' part' := by
  induction pieces generalizing c got past ahead stale part with
  | nil => exact ⟨_,_,_,_,hb⟩
  | cons piece pieces ih =>
      rw [List.flatten_cons,List.append_assoc] at hb
      obtain ⟨_,_,_,_,hb'⟩ := hb.step hlast hsafe.1
      obtain ⟨past',ahead',stale',part',h⟩ := ih hb' hsafe.2
      refine ⟨past',ahead',stale',part',?_⟩
      rw [List.flatten_cons,List.length_append,← Nat.add_assoc]
      exact h

theorem Between.initial {total : List Message} {bytes : Bytes} (h : bytes = stream total) :
    ∃ past ahead stale part, Between total {} 0 bytes past ahead stale part := by
  refine ⟨[],total,[],[],rfl,rfl,h,?_,rfl,.inl rfl,rfl⟩
  cases total with
  | nil => rfl
  | cons m ms => exact List.length_pos_of_ne_nil m.wire_ne_nil

/-- When nothing is to come any more, all messages have been delivered. -/
theorem Between.final {total past ahead : List Message} {c : FillyClient} {got : ℕ}
    {stale part : Bytes} (hb : Between total c got [] past ahead stale part) :
    seen c = deliver {} total := by
  obtain ⟨rfl,-,hcoming,hinc,-,-,hseen⟩ := hb
  cases ahead with
  | nil => simpa using hseen
  | cons m ms =>
      have hlt : part.length < m.wire.length := hinc
      rw [List.append_nil] at hcoming
      rw [hcoming,stream,wires_cons,List.length_append] at hlt
      omega

/-- A response that has been received was the last message. -/
theorem Between.final_of_response {total past ahead : List Message} {c : FillyClient} {got : ℕ}
    {later stale part : Bytes} (hlast : ResponseLast total)
    (hb : Between total c got later past ahead stale part) (hc : c.responseReceived = true) :
    seen c = deliver {} total := by
  obtain ⟨rfl,-,-,-,-,-,hseen⟩ := hb
  have key : ∀ (past : List Message) (c : FillyClient), ResponseLast (past++ahead) →
      c.responseReceived = false → (deliver c past).responseReceived = true → ahead = [] := by
    intro past
    induction past with
    | nil =>
        intro c _ hf ht
        exact absurd (hf.symm.trans ht) (by decide)
    | cons m ms ih =>
        intro c hl hf ht
        cases m with
        | line l => exact ih c hl hf ht
        | draw d => exact ih { c with drawn := c.drawn++[d.payload] } hl hf ht
        | response r => exact (List.append_eq_nil_iff.mp hl).2
  have hr : (deliver {} past).responseReceived = true := hseen ▸ hc
  obtain rfl := key past {} hlast rfl hr
  rw [List.append_nil,hseen]

/-! ## The buffer does not overflow -/

theorem splitLine_eq {s line tail : Bytes} (h : splitLine s = some (line,tail)) :
    s = line++10::tail := by
  induction s generalizing line with
  | nil => simp [splitLine] at h
  | cons b s ih =>
      simp only [splitLine] at h
      split_ifs at h with hb
      · simp_all
      · obtain ⟨⟨l,t⟩,hs,he⟩ := Option.map_eq_some_iff.mp h
        obtain ⟨rfl,rfl⟩ := Prod.mk.inj he
        rw [ih hs,List.cons_append]

theorem processLoop_length {n : ℕ} {c : FillyClient} {front rest : Bytes} (h : rest.length < n) :
    (processLoop n c front rest).2.buf.length ≤ front.length+rest.length := by
  induction n generalizing c front rest with
  | zero => omega
  | succ n ih =>
      rw [processLoop]
      cases hs : splitLine rest with
      | none => dsimp only; split_ifs <;> omega
      | some r =>
          obtain ⟨line,tail⟩ := r
          have hr := congrArg List.length (splitLine_eq hs)
          simp only [List.length_append,List.length_cons] at hr
          dsimp only
          cases classify line with
          | draw len =>
              dsimp only
              by_cases hfit : len+1 ≤ tail.length
              · have hafter : (if (tail.drop len).head? = some 10 then (tail.drop len).tail
                    else tail.drop len).length ≤ tail.length := by
                  split_ifs <;> simp
                rw [if_pos hfit]
                exact (ih (by omega)).trans (by omega)
              · rw [if_neg hfit]
                exact Nat.le_add_left _ _
          | response result cancelled =>
              simp only [List.length_append]
              omega
          | other =>
              dsimp only
              split_ifs with ht
              · simp
              · refine (ih (by omega)).trans ?_
                simp only [List.length_append,List.length_singleton]
                omega

theorem pass_length (c : FillyClient) (data : Bytes) :
    (pass c data).buf.length ≤ c.buf.length+data.length := by
  have h := @processLoop_length _ { c with buf := c.buf++data } [] _
    (Nat.lt_succ_self (c.buf++data).length)
  simpa [pass,clientProcessBuffer] using h

theorem fillyClientProcess_eq {c : FillyClient} {reads : List Bytes}
    (h : c.buf.length+reads.flatten.length < clientBufSize) :
    (fillyClientProcess c reads).2 = pass c reads.flatten := by
  induction reads generalizing c with
  | nil => simp [fillyClientProcess,pass]
  | cons data reads ih =>
      rw [List.flatten_cons,List.length_append] at h
      rw [fillyClientProcess,if_neg (by omega),ih (by rw [List.length_append]; omega)]
      simp [pass]

theorem drive_eq {c : FillyClient} {calls : List (List Bytes)}
    (h : c.buf.length+calls.flatten.flatten.length < clientBufSize) :
    drive c calls = passes c (calls.map List.flatten) := by
  induction calls generalizing c with
  | nil => rfl
  | cons reads calls ih =>
      rw [List.flatten_cons,List.flatten_append,List.length_append] at h
      have hl := pass_length c reads.flatten
      simp only [drive,passes,List.foldl_cons,List.map_cons] at ih ⊢
      rw [fillyClientProcess_eq (by omega),ih (by omega)]

theorem getResponseTurn_eq {c : FillyClient} {data : Bytes} (hne : data ≠ [])
    (h : c.buf.length+data.length < clientBufSize) : (getResponseTurn c data).2 = pass c data := by
  have hpos := List.length_pos_of_ne_nil hne
  rw [getResponseTurn,if_neg (by omega),List.take_of_length_le (by omega)]
  rfl

/-- The waiting client makes the passes up to the one that finds a response. -/
theorem awaitResponse_eq {c : FillyClient} {reads : List Bytes} (hne : ∀ r ∈ reads, r ≠ [])
    (h : c.buf.length+reads.flatten.length < clientBufSize) :
    ∃ ps qs, reads = ps++qs ∧ awaitResponse c reads = passes c ps ∧
      (qs = [] ∨ (passes c ps).responseReceived = true) := by
  induction reads generalizing c with
  | nil => exact ⟨[],[],rfl,rfl,.inl rfl⟩
  | cons data reads ih =>
      rw [List.flatten_cons,List.length_append] at h
      rw [List.forall_mem_cons] at hne
      by_cases hc : c.responseReceived
      · exact ⟨[],data::reads,rfl,by simp [awaitResponse,hc,passes],.inr hc⟩
      · have hl := pass_length c data
        have hturn := getResponseTurn_eq hne.1 (c := c) (by omega)
        obtain ⟨ps,qs,rfl,hps,hqs⟩ := ih hne.2 (c := pass c data) (by omega)
        refine ⟨data::ps,qs,rfl,?_,hqs⟩
        rw [awaitResponse,if_neg hc,hturn,hps]
        rfl

/-! ## Delivery -/

theorem flatten_map_flatten (calls : List (List Bytes)) :
    (calls.map List.flatten).flatten = calls.flatten.flatten := List.flatten_flatten.symm

/-- After any safe reads exactly the complete messages have been delivered. -/
theorem drive_prefix {total : List Message} {calls : List (List Bytes)} {later : Bytes}
    (hlast : ResponseLast total) (hsize : (stream total).length < clientBufSize)
    (hall : calls.flatten.flatten++later = stream total)
    (hsafe : SafeFrom total 0 (calls.map List.flatten)) :
    ∃ past ahead stale part, Between total (drive {} calls) calls.flatten.flatten.length later
      past ahead stale part := by
  have hlen := congrArg List.length hall
  rw [List.length_append] at hlen
  rw [drive_eq (by change [].length+_ < _; rw [List.length_nil]; omega)]
  rw [← flatten_map_flatten] at hall ⊢
  obtain ⟨_,_,_,_,hb⟩ := Between.initial hall
  simpa using hb.passes hlast hsafe

theorem Hazard.exists_take {total : List Message} {prev cur : ℕ} (h : Hazard total prev cur) :
    ∃ k < total.length, cur = (stream (total.take k)).length := by
  obtain ⟨before,l,between,d,next,after,rfl,-,-,rfl⟩ := h
  refine ⟨(before++Message.line l::(between++[Message.draw d])).length,by simp,?_⟩
  have he : before++.line l::(between++.draw d::next::after) =
      (before++.line l::(between++[.draw d]))++next::after := by simp
  rw [he,List.take_left]

theorem safeFrom_whole (total : List Message) : SafeFrom total 0 [stream total] := by
  refine ⟨fun h => ?_,trivial⟩
  obtain ⟨k,hk,hcur⟩ := h.exists_take
  have hs := congrArg (fun ms => (stream ms).length) (List.take_append_drop k total)
  have hpos := List.length_pos_of_ne_nil (wires_ne_nil (List.drop_eq_nil_iff.not.mpr (Nat.not_le.mpr hk)))
  simp only [stream,wires_append,List.length_append] at hs hcur hpos
  omega

/-- For every stream that fits the buffer: read whole, each message is delivered
once and in order; read in pieces of which none is hazardous, the outcome is the
same, and on the way exactly the messages that have arrived complete have been
delivered. -/
theorem safe_reads_deliver_stream (total : List Message) (hlast : ResponseLast total)
    (hsize : (stream total).length < clientBufSize) :
    seen (drive {} [[stream total]]) = deliver {} total ∧
    (∀ calls : List (List Bytes), calls.flatten.flatten = stream total →
      SafeFrom total 0 (calls.map List.flatten) →
      seen (drive {} calls) = seen (drive {} [[stream total]])) ∧
    (∀ reads : List Bytes, reads.flatten = stream total → (∀ data ∈ reads, data ≠ []) →
      SafeFrom total 0 reads →
      seen (awaitResponse {} reads) = seen (drive {} [[stream total]])) ∧
    (∀ (calls : List (List Bytes)) (later : Bytes), calls.flatten.flatten++later = stream total →
      SafeFrom total 0 (calls.map List.flatten) →
      ∃ past ahead part, total = past++ahead ∧ calls.flatten.flatten = stream past++part ∧
        Incomplete Message.wire part ahead ∧ seen (drive {} calls) = deliver {} past) := by
  have complete : ∀ calls : List (List Bytes), calls.flatten.flatten = stream total →
      SafeFrom total 0 (calls.map List.flatten) → seen (drive {} calls) = deliver {} total := by
    intro calls hall hsafe
    obtain ⟨_,_,_,_,hb⟩ := drive_prefix hlast hsize (by rw [List.append_nil,hall]) hsafe
    exact hb.final
  have whole := complete [[stream total]] (by simp) (by simpa using safeFrom_whole total)
  refine ⟨whole,fun calls hall hsafe => (complete calls hall hsafe).trans whole.symm,?_,?_⟩
  · intro reads hall hne hsafe
    rw [whole]
    obtain ⟨ps,qs,rfl,hps,hqs⟩ := awaitResponse_eq (c := {}) hne (by simpa [hall] using hsize)
    rw [List.flatten_append] at hall
    obtain ⟨_,_,_,_,hinit⟩ := Between.initial hall
    obtain ⟨_,_,_,_,hb⟩ := hinit.passes hlast hsafe.left
    rw [hps]
    rcases hqs with rfl | hr
    · exact hb.final
    · exact hb.final_of_response hlast hr
  · intro calls later hall hsafe
    obtain ⟨past,ahead,stale,part,hb⟩ := drive_prefix hlast hsize hall hsafe
    refine ⟨past,ahead,part,hb.split,?_,hb.incomplete,hb.delivered⟩
    have hs : calls.flatten.flatten++later = (stream past++part)++later := by
      rw [hall,hb.split,List.append_assoc,hb.coming]
      exact wires_append _ _ _
    exact List.append_cancel_right hs

/-- A state line, a draw of one byte and a response. -/
def shortSession : List Message :=
  [.line (plainLine (bytes "\x7b\"type\":\"state\"\x7d") (by decide) (by decide +kernel)),
   .draw (drawMessage (bytes "\x7b\"type\":\"draw\",\"len\":1\x7d") (bytes "X") (by decide)
     (by decide +kernel)),
   .response (responseLine (bytes "\x7b\"type\":\"response\",\"cancelled\":true\x7d") (by decide)
     (by decide +kernel))]

/-- Cut inside the draw header, the session is delivered. -/
theorem safe_reads_deliver_stream_shortSession :
    seen (drive {} [[(stream shortSession).take 20],[(stream shortSession).drop 20]]) =
      seen (drive {} [[stream shortSession]]) := by
  refine (safe_reads_deliver_stream shortSession rfl (by decide +kernel)).2.1
    [[(stream shortSession).take 20],[(stream shortSession).drop 20]] (by simp) ⟨?_,?_,trivial⟩
  · intro h
    obtain ⟨k,hk,hcur⟩ := h.exists_take
    revert k
    decide +kernel
  · intro h
    obtain ⟨k,hk,hcur⟩ := h.exists_take
    revert k
    decide +kernel

/-- Cut behind the draw message, the session loses its response. -/
theorem cut_behind_draw_loses_response :
    ∃ (total : List Message) (reads : List Bytes), ResponseLast total ∧
      (stream total).length < clientBufSize ∧ reads.flatten = stream total ∧
      seen (drive {} (reads.map fun data => [data])) ≠ seen (drive {} [[stream total]]) ∧
      seen (awaitResponse {} reads) ≠ seen (drive {} [[stream total]]) := by
  refine ⟨shortSession,[stream (shortSession.take 2),stream (shortSession.drop 2)],rfl,
    by decide +kernel,rfl,?_,?_⟩
  · intro h
    have hr := congrArg FillyClient.responseReceived h
    revert hr
    decide +kernel
  · intro h
    have hr := congrArg FillyClient.responseReceived h
    revert hr
    decide +kernel

end Filly.Client

import Filly.CBuffers
import Filly.Runs
import Filly.TextWidgets

/-!
# The line of an input

`input.c` keeps its text in allocated memory and finds the length anew at each key.
The model has the bytes of that memory; a key that reads or writes outside it has no
outcome. What a key should do is said on a line that is cut at the cursor.
-/
namespace Filly.InputLine
open CJson Keys SessionLoop CBuffers Runs

/-- The record of `input.c`, with the allocation that `text` points to. -/
structure InputBlock where
  base : WidgetBase
  text : Bytes
  cursor : ℤ
  validation : Option Bytes
  validationScript : Option Bytes

def inputWidgetNew (defaultText validation validationScript : Option Bytes) : InputBlock where
  base := { acceptsTextInput := true }
  text := defaultText.getD []++[0]
  cursor := (defaultText.getD []).length
  validation := validation
  validationScript := validationScript

variable {β : Type}

/-- A character goes into a new allocation, in which every byte is set. -/
def insertChar (ch : UInt8) (d : InputBlock) : Option InputBlock := do
  let len ← strlen d.text 0
  let new := List.replicate (len+2).toNat 0
  let new ← memcpy new 0 d.text 0 d.cursor
  let new ← writeAt new d.cursor [ch]
  let new ← memcpy new (d.cursor+1) d.text d.cursor (len-d.cursor)
  let new ← writeAt new (len+1) [0]
  return { d with text := new, cursor := d.cursor+1, base := d.base.touch }

def backspace (d : InputBlock) : Option InputBlock := do
  let n ← strlen d.text d.cursor
  let text ← memcpy d.text (d.cursor-1) d.text d.cursor (n+1)
  return { d with text := text, cursor := d.cursor-1, base := d.base.touch }

def delete (d : InputBlock) : Option InputBlock := do
  let n ← strlen d.text d.cursor
  let text ← memcpy d.text d.cursor d.text (d.cursor+1) n
  return { d with text := text, base := d.base.touch }

def enter (sv : Services β) (d : InputBlock) (b : β) : Option EventResult := do
  let text ← textAt d.text 0
  return if d.validation.any (fun re => !sv.regexec re text) then .handled
    else if d.validationScript.any (fun script => !sv.filAccepts script text b) then .handled
    else answered (.string text)

def inputHandleEvent (sv : Services β) (code : KeyCode) (ch : UInt8) (d : InputBlock) (b : β) :
    Option (EventResult × InputBlock) :=
  let handled (d : Option InputBlock) := d.map fun d => (EventResult.handled,d)
  match code with
  | .keyEsc => some (cancelled,d)
  | .keyEnter => (enter sv d b).map fun result => (result,d)
  | .keyChar => handled (insertChar ch d)
  | .keyBackspace => handled (if 0 < d.cursor then backspace d else some d)
  | .keyDelete => handled do if d.cursor < (← strlen d.text 0) then delete d else some d
  | .keyLeft => handled (some (if 0 < d.cursor then { d with cursor := d.cursor-1 } else d))
  | .keyRight => handled do
      return if d.cursor < (← strlen d.text 0) then { d with cursor := d.cursor+1 } else d
  | .keyHome => handled (some { d with cursor := 0 })
  | .keyEnd => handled do return { d with cursor := ← strlen d.text 0 }
  | _ => some (.unhandled,d)

/-! ## The reference -/

/-- The bytes before and after the cursor. -/
structure Line where
  before : Bytes
  after : Bytes
  deriving DecidableEq

namespace Line

def text (l : Line) : Bytes := l.before++l.after

/-- What a key does to a line of bytes. -/
def edit (code : KeyCode) (ch : UInt8) (l : Line) : Line :=
  match code with
  | .keyChar => ⟨l.before++[ch],l.after⟩
  | .keyBackspace => ⟨l.before.dropLast,l.after⟩
  | .keyDelete => ⟨l.before,l.after.tail⟩
  | .keyLeft => ⟨l.before.dropLast,l.before.getLast?.toList++l.after⟩
  | .keyRight => ⟨l.before++l.after.head?.toList,l.after.tail⟩
  | .keyHome => ⟨[],l.text⟩
  | .keyEnd => ⟨l.text,[]⟩
  | _ => l

end Line

/-- The widget after some events, unless its memory was left, and the line. -/
structure Editing where
  widget : Option InputBlock
  line : Line

def start (defaultText validation validationScript : Option Bytes) : Editing where
  widget := some (inputWidgetNew defaultText validation validationScript)
  line := ⟨defaultText.getD [],[]⟩

/-- An event goes to the widget and to the line. -/
def take (sv : Services β) (b : β) (s : Editing) (ev : SessionLoop.Event) : Editing :=
  match ev with
  | .key code ch =>
      ⟨(s.widget.bind fun d => inputHandleEvent sv code ch d b).map Prod.snd,s.line.edit code ch⟩
  | _ => s

/-- The widget has the text and the cursor of the line, and without a validation Enter
answers with it. -/
def Agrees (sv : Services β) (b : β) (s : Editing) : Prop :=
  ∃ d, s.widget = some d ∧ textAt d.text 0 = some s.line.text ∧ d.cursor = s.line.before.length ∧
    (∃ len, strlen d.text 0 = some len ∧ 0 ≤ d.cursor ∧ d.cursor ≤ len) ∧
    (d.validation = none → d.validationScript = none → ∀ ch,
      inputHandleEvent sv .keyEnter ch d b = some (answered (.string s.line.text),d))

/-- The allocation begins with the line and its end. -/
structure Holds (d : InputBlock) (l : Line) : Prop where
  text : ∃ slack, d.text = l.text++0::slack
  cursor : d.cursor = l.before.length
  nonzero : 0 ∉ l.text

theorem Holds.split {d : InputBlock} {l : Line} (hd : Holds d l) :
    ∃ slack, d.text = l.before++l.after++0::slack ∧ 0 ∉ l.before ∧ 0 ∉ l.after := by
  obtain ⟨⟨slack,htext⟩,-,hnonzero⟩ := hd
  rw [Line.text,List.mem_append,not_or] at hnonzero
  exact ⟨slack,htext,hnonzero⟩

theorem Holds.strlen_start {d : InputBlock} {l : Line} (hd : Holds d l) :
    strlen d.text 0 = some (l.text.length:ℤ) := by
  obtain ⟨slack,htext⟩ := hd.text
  rw [htext,CBuffers.strlen_start hd.nonzero]

theorem Holds.strlen_cursor {d : InputBlock} {l : Line} (hd : Holds d l) :
    strlen d.text d.cursor = some (l.after.length:ℤ) := by
  obtain ⟨slack,htext,-,hafter⟩ := hd.split
  rw [htext,hd.cursor,strlen_append l.before hafter]

/-- Whatever the character is, the new allocation has it between the two parts. -/
theorem insertChar_eq {d : InputBlock} {l : Line} (hd : Holds d l) (c : UInt8) :
    insertChar c d = some { d with text := l.before++[c]++l.after++[0],
                                   cursor := l.before.length+1, base := d.base.touch } := by
  obtain ⟨slack,htext,-,-⟩ := hd.split
  have hsize : List.replicate ((l.text.length:ℤ)+2).toNat (0:UInt8) =
      []++List.replicate l.before.length 0++(0::List.replicate l.after.length 0++[0]) := by
    rw [Line.text,List.length_append,show ((l.before.length+l.after.length:ℕ):ℤ)+2 =
      ((l.before.length+(1+(l.after.length+1)):ℕ):ℤ) by push_cast; ring,Int.toNat_natCast,
      List.replicate_add,List.replicate_add,List.replicate_add]
    rfl
  have hfront : memcpy (List.replicate ((l.text.length:ℤ)+2).toNat 0) 0 d.text 0 d.cursor =
      some (l.before++[0]++(List.replicate l.after.length 0++[0])) := by
    have hread : readAt d.text 0 d.cursor = some l.before := by
      rw [htext,hd.cursor,List.append_assoc]
      exact readAt_append [] l.before _
    rw [memcpy,hread,Option.bind_some,hsize]
    refine (writeAt_append [] _ (List.length_replicate).symm).trans ?_
    simp
  have hchar : writeAt (l.before++[0]++(List.replicate l.after.length 0++[0])) d.cursor [c] =
      some (l.before++[c]++List.replicate l.after.length 0++[0]) := by
    rw [hd.cursor,writeAt_append l.before _ (by rfl),List.append_assoc,List.append_assoc,
      List.append_assoc]
  have hback : memcpy (l.before++[c]++List.replicate l.after.length 0++[0]) (d.cursor+1)
      d.text d.cursor (l.text.length-d.cursor) = some (l.before++[c]++l.after++[0]) := by
    have hlength : (l.text.length:ℤ)-d.cursor = l.after.length := by
      rw [hd.cursor,Line.text,List.length_append]
      omega
    have hread : readAt d.text d.cursor l.after.length = some l.after := by
      rw [htext,hd.cursor,readAt_append]
    have hcursor : d.cursor+1 = (l.before++[c]).length := by rw [hd.cursor]; simp
    rw [memcpy,hlength,hread,Option.bind_some,hcursor,
      writeAt_append _ _ (List.length_replicate).symm]
  have hend : writeAt (l.before++[c]++l.after++[0]) (l.text.length+1) [0] =
      some (l.before++[c]++l.after++[0]) := by
    have hlast : (l.text.length:ℤ)+1 = (l.before++[c]++l.after).length := by
      simp [Line.text]
      ring
    have hwrite := writeAt_append (l.before++[c]++l.after) [] (b := [0]) (m := [0]) rfl
    rwa [List.append_nil,← hlast] at hwrite
  simp only [insertChar,hd.strlen_start,Option.bind_eq_bind,Option.bind_some,hfront,hchar,hback,
    hend]
  rw [hd.cursor]
  rfl

/-- The rest of the text moves over the byte before the cursor. -/
theorem backspace_eq {d : InputBlock} {p q : Bytes} {x : UInt8} (hd : Holds d ⟨p++[x],q⟩) :
    ∃ slack, backspace d = some { d with text := p++q++0::slack, cursor := p.length,
                                         base := d.base.touch } := by
  obtain ⟨slack,htext,-,-⟩ := hd.split
  have hread : readAt d.text d.cursor (q.length+1) = some (q++[0]) := by
    have h := readAt_append (p++[x]) (q++[0]) slack
    rw [htext,hd.cursor]
    simpa using h
  have hpred : d.cursor-1 = p.length := by rw [hd.cursor]; simp
  obtain ⟨last,hlast⟩ : ∃ last, d.text = p++(x::q)++last ∧ last = 0::slack := ⟨_,by simp [htext],rfl⟩
  have hwrite : writeAt d.text p.length (q++[0]) = some (p++(q++[0])++0::slack) := by
    rw [hlast.1,hlast.2,writeAt_append p _ (by simp)]
  refine ⟨0::slack,?_⟩
  simp only [backspace,hd.strlen_cursor,Option.bind_eq_bind,Option.bind_some,memcpy,hread,hpred,
    hwrite]
  simp

/-- The rest of the text moves over the byte at the cursor. -/
theorem delete_eq {d : InputBlock} {p q : Bytes} {x : UInt8} (hd : Holds d ⟨p,x::q⟩) :
    ∃ slack, delete d = some { d with text := p++q++0::slack, base := d.base.touch } := by
  obtain ⟨slack,htext,-,-⟩ := hd.split
  have hread : readAt d.text (d.cursor+1) ((x::q).length:ℕ) = some (q++[0]) := by
    have h := readAt_append (p++[x]) (q++[0]) slack
    rw [htext,hd.cursor]
    simpa using h
  have hwrite : writeAt d.text d.cursor (q++[0]) = some (p++(q++[0])++0::slack) := by
    rw [htext,hd.cursor,writeAt_append p _ (by simp)]
  refine ⟨0::slack,?_⟩
  simp only [delete,hd.strlen_cursor,Option.bind_eq_bind,Option.bind_some,memcpy,hread,hwrite]
  simp

theorem Holds.of_text {d d' : InputBlock} {l l' : Line} (hd : Holds d l) {s : Bytes}
    (htext : d'.text = l'.text++0::s) (hcursor : d'.cursor = l'.before.length)
    (hmem : ∀ c ∈ l'.text, c ∈ l.text) : Holds d' l' :=
  ⟨⟨s,htext⟩,hcursor,fun h => hd.nonzero (hmem 0 h)⟩

/-- A move of the cursor leaves the text. -/
theorem Holds.move {d : InputBlock} {l l' : Line} (hd : Holds d l) (htext : l'.text = l.text)
    {i : ℤ} (hi : i = l'.before.length) : Holds { d with cursor := i } l' := by
  obtain ⟨slack,hslack⟩ := hd.text
  exact ⟨⟨slack,by rw [htext]; exact hslack⟩,hi,by rw [htext]; exact hd.nonzero⟩

/-- No key but a null character lets the widget leave the line. -/
theorem holds_step (sv : Services β) (b : β) {d : InputBlock} {l : Line} (hd : Holds d l)
    {code : KeyCode} {ch : UInt8} (hch : code = .keyChar → ch ≠ 0) :
    ∃ r d', inputHandleEvent sv code ch d b = some (r,d') ∧ Holds d' (l.edit code ch) := by
  obtain ⟨p,q⟩ := l
  have hlen : strlen d.text 0 = some ((p++q).length:ℤ) := hd.strlen_start
  have hcursor : d.cursor = p.length := hd.cursor
  unfold inputHandleEvent
  split
  · exact ⟨_,_,rfl,hd⟩
  · obtain ⟨slack,htext⟩ := hd.text
    obtain ⟨r,hr⟩ : ∃ r, enter sv d b = some r := by
      rw [enter,htext,textAt_start hd.nonzero]
      exact ⟨_,rfl⟩
    exact ⟨r,d,by rw [hr]; rfl,hd⟩
  · rw [insertChar_eq hd]
    refine ⟨_,_,rfl,⟨[],?_⟩,?_,?_⟩
    · rfl
    · simp [Line.edit]
    · have hp := hd.nonzero
      simp only [Line.edit,Line.text,List.mem_append,List.mem_singleton,not_or] at hp ⊢
      exact ⟨⟨hp.1,(hch rfl).symm⟩,hp.2⟩
  · rcases List.eq_nil_or_concat p with rfl | ⟨p,x,rfl⟩
    · rw [if_neg (by rw [hcursor]; exact lt_irrefl _)]
      exact ⟨_,d,rfl,hd⟩
    · rw [List.concat_eq_append] at hd hcursor
      obtain ⟨slack,hback⟩ := backspace_eq hd
      rw [if_pos (by rw [hcursor]; simp),hback]
      refine ⟨_,_,rfl,hd.of_text (s := slack) ?_ ?_ ?_⟩
      · simp [Line.edit,Line.text]
      · simp [Line.edit]
      · simp only [Line.edit,Line.text,List.concat_eq_append,List.dropLast_concat]
        intro c hc
        simp only [List.mem_append] at hc ⊢
        tauto
  · rw [hlen]
    simp only [Option.bind_eq_bind,Option.bind_some]
    cases q with
    | nil =>
        rw [if_neg (by rw [hcursor]; simp)]
        exact ⟨_,d,rfl,hd⟩
    | cons x q =>
        obtain ⟨slack,hdelete⟩ := delete_eq hd
        rw [if_pos (by rw [hcursor]; simp),hdelete]
        refine ⟨_,_,rfl,hd.of_text (s := slack) ?_ hcursor ?_⟩
        · rfl
        · intro c hc
          simp only [Line.edit,Line.text,List.tail_cons,List.mem_append,List.mem_cons] at hc ⊢
          tauto
  · rcases List.eq_nil_or_concat p with rfl | ⟨p,x,rfl⟩
    · rw [if_neg (by rw [hcursor]; exact lt_irrefl _)]
      exact ⟨_,d,rfl,hd⟩
    · rw [List.concat_eq_append] at hd hcursor
      rw [if_pos (by rw [hcursor]; simp)]
      refine ⟨_,_,rfl,hd.move ?_ ?_⟩
      · simp [Line.edit,Line.text]
      · rw [hcursor]
        simp [Line.edit]
  · rw [hlen]
    cases q with
    | nil =>
        refine ⟨.handled,d,?_,?_⟩
        · rw [hcursor]
          simp
        · simpa [Line.edit] using hd
    | cons x q =>
        refine ⟨.handled,{ d with cursor := d.cursor+1 },?_,hd.move ?_ ?_⟩
        · simp only [Option.bind_eq_bind,Option.bind_some]
          rw [if_pos (by rw [hcursor]; simp)]
          rfl
        · simp [Line.edit,Line.text]
        · rw [hcursor]
          simp [Line.edit]
  · have htext : Line.text ⟨[],p++q⟩ = Line.text ⟨p,q⟩ := rfl
    exact ⟨_,_,rfl,hd.move htext rfl⟩
  · rw [hlen]
    exact ⟨_,_,rfl,hd.move (by simp [Line.edit,Line.text]) rfl⟩
  · refine ⟨_,d,rfl,?_⟩
    unfold Line.edit
    split
    all_goals first | exact hd | contradiction

theorem Holds.agrees {d : InputBlock} {l : Line} (hd : Holds d l) (sv : Services β) (b : β) :
    Agrees sv b ⟨some d,l⟩ := by
  obtain ⟨slack,htext⟩ := hd.text
  have hstart : textAt d.text 0 = some l.text := by rw [htext,textAt_start hd.nonzero]
  refine ⟨d,rfl,hstart,hd.cursor,⟨_,hd.strlen_start,?_,?_⟩,?_⟩
  · rw [hd.cursor]
    exact Int.natCast_nonneg _
  · rw [hd.cursor,Line.text,List.length_append]
    omega
  · intro hvalidation hscript ch
    have henter : enter sv d b = some (answered (.string l.text)) := by
      rw [enter,hstart,hvalidation,hscript]
      rfl
    rw [inputHandleEvent,henter]
    rfl

/-- Behind a null character the text ends at the old cursor, before the new one. -/
theorem not_agrees_null (sv : Services β) (b : β) {d : InputBlock} {l : Line} (hd : Holds d l) :
    ¬Agrees sv b (take sv b ⟨some d,l⟩ (.key .keyChar 0)) := by
  have hbefore : 0 ∉ l.before := fun h => hd.nonzero (List.mem_append_left _ h)
  rintro ⟨d',hwidget,-,-,⟨len,hlen,-,hle⟩,-⟩
  simp only [take,Option.bind_some,inputHandleEvent,insertChar_eq hd,Option.map_some,
    Option.some.injEq] at hwidget
  subst hwidget
  rw [List.append_assoc,List.append_assoc] at hlen
  rw [List.singleton_append,CBuffers.strlen_start hbefore,Option.some.injEq] at hlen
  dsimp only at hle
  omega

/-- The memory is that of the line, before and after an event that is no null character. -/
def Held (s : Editing) : Prop := ∃ d, s.widget = some d ∧ Holds d s.line

theorem held_take (sv : Services β) (b : β) {s : Editing} (hs : Held s) {ev : SessionLoop.Event}
    (hev : ev ≠ .key .keyChar 0) : Held (take sv b s ev) := by
  obtain ⟨w,l⟩ := s
  obtain ⟨d,rfl,hd⟩ := hs
  cases ev with
  | key code ch =>
      obtain ⟨r,d',hevent,hd'⟩ := @holds_step _ sv b _ _ hd code ch
        (fun hcode hch => hev (by rw [hcode,hch]))
      exact ⟨d',by rw [take,Option.bind_some,hevent]; rfl,hd'⟩
  | _ => exact ⟨d,rfl,hd⟩

theorem held_start {defaultText : Option Bytes} (hdefault : ∀ t ∈ defaultText, 0 ∉ t)
    (validation validationScript : Option Bytes) :
    Held (start defaultText validation validationScript) := by
  refine ⟨_,rfl,⟨[],?_⟩,rfl,?_⟩
  · simp [inputWidgetNew,start,Line.text]
  · cases defaultText with
    | none => simp [start,Line.text]
    | some t => simpa [start,Line.text] using hdefault t rfl

/-- The widget edits like the line in every state of a run exactly if no event of the run
is a null character. -/
theorem edits_iff (sv : Services β) (b : β) {defaultText : Option Bytes}
    (hdefault : ∀ t ∈ defaultText, 0 ∉ t) (validation validationScript : Option Bytes)
    (evs : List SessionLoop.Event) :
    Always (take sv b) (Agrees sv b) (start defaultText validation validationScript) evs ↔
      ∀ ev ∈ evs, ev ≠ .key .keyChar 0 := by
  rw [← guarded_iff_forall (take sv b) (start defaultText validation validationScript)]
  refine always_iff_guarded (I := Held) ?_ (fun s ev hs hev => held_take sv b hs hev) ?_
    (held_start hdefault validation validationScript) evs
  · rintro ⟨w,l⟩ ⟨d,rfl,hd⟩
    exact hd.agrees sv b
  · rintro ⟨w,l⟩ ev ⟨d,rfl,hd⟩ hev
    rw [not_not.1 hev]
    exact not_agrees_null sv b hd

/-- The input of a session, which has its text as a list, edits the same line. -/
def Follows (d : InputData) (l : Line) : Prop := d.text = l.text ∧ d.cursor = l.before.length

theorem follows_edit (sv : Services β) (code : KeyCode) (ch : UInt8) {d : InputData} {l : Line}
    (hd : Follows d l) (b : β) :
    Follows (SessionLoop.inputHandleEvent sv code ch d b).2 (l.edit code ch) := by
  obtain ⟨p,q⟩ := l
  obtain ⟨htext,hcursor⟩ := hd
  unfold SessionLoop.inputHandleEvent
  split
  · exact ⟨htext,hcursor⟩
  · split_ifs
    all_goals exact ⟨htext,hcursor⟩
  · constructor
    · simp [htext,hcursor,insertAt,Line.text,Line.edit]
    · simp [hcursor,Line.edit]
  · rcases List.eq_nil_or_concat p with rfl | ⟨p,x,rfl⟩
    · rw [if_neg (by rw [hcursor]; exact lt_irrefl _)]
      exact ⟨htext,hcursor⟩
    · rw [List.concat_eq_append] at htext hcursor
      rw [if_pos (by rw [hcursor]; simp)]
      constructor
      · simp [htext,hcursor,Line.text,Line.edit,List.eraseIdx_append_of_length_le]
      · simp [hcursor,Line.edit]
  · cases q with
    | nil =>
        rw [if_neg (by rw [hcursor,htext]; simp [Line.text])]
        exact ⟨htext,hcursor⟩
    | cons x q =>
        rw [if_pos (by rw [hcursor,htext]; simp [Line.text])]
        exact ⟨by simp [htext,hcursor,Line.text,Line.edit,List.eraseIdx_append_of_length_le],hcursor⟩
  · rcases List.eq_nil_or_concat p with rfl | ⟨p,x,rfl⟩
    · exact ⟨htext,by rw [hcursor]; rfl⟩
    · rw [List.concat_eq_append] at htext hcursor
      exact ⟨by simp [htext,Line.text,Line.edit],by simp [hcursor,Line.edit]⟩
  · cases q with
    | nil =>
        rw [if_neg (by rw [hcursor,htext]; simp [Line.text])]
        simpa [Follows,Line.edit] using And.intro htext hcursor
    | cons x q =>
        rw [if_pos (by rw [hcursor,htext]; simp [Line.text])]
        exact ⟨by simp [htext,Line.text,Line.edit],by simp [hcursor,Line.edit]⟩
  · exact ⟨by rw [htext]; rfl,rfl⟩
  · exact ⟨by rw [htext]; simp [Line.text,Line.edit],by rw [htext]; rfl⟩
  · unfold Line.edit
    split
    all_goals first | exact ⟨htext,hcursor⟩ | contradiction

/-- Services that accept every text. -/
def noServices : Services Unit where
  regexec _ _ := true
  filAccepts _ _ _ := true
  humanToBytes _ := 0
  nineTenths h := h*9/10
  writeFile _ _ b := b

/-- An input of the empty text, a letter and a move to the left. -/
theorem typed_letter :
    Always (take noServices ()) (Agrees noServices ()) (start (some []) none none)
      [.key .keyChar 97,.key .keyLeft 0] :=
  (edits_iff noServices () (by simp) none none _).2 (by decide)

/-- A key message without a character puts a null into the text `ab`, whose end comes
before the cursor then. -/
theorem null_moves_the_end :
    ¬Always (take noServices ()) (Agrees noServices ()) (start (some (bytes "ab")) none none)
      [.key .keyLeft 0,.key .keyChar 0] := by
  rintro ⟨-,-,d,hwidget,-,-,⟨len,hlen,-,hle⟩,-⟩
  have hd : d = ⟨{ dirty := true, acceptsTextInput := true },[97,0,98,0],2,none,none⟩ := by
    exact (Option.some.inj hwidget).symm
  have hlen' : some len = some 1 := by
    rw [← hlen,hd]
    decide
  rw [hd,Option.some.inj hlen'] at hle
  exact absurd hle (by decide)

end Filly.InputLine

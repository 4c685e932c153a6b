import Filly.CJsonRoundTrip
import Filly.Layout
import Filly.Outlines
import Filly.Requests
import Mathlib.Data.List.Destutter

/-!
# What a screen reader is told

`accessibility_push_tree` writes a line for each node with a role, with its depth among such
nodes, and a line for the focus when it has changed since the last time. A node without a
role is passed over together with what hangs from its tabs or panes; only the children that
it has in an array are looked at, at its own depth. Texts are written as they are.

What the reader can know is the forest of the nodes with a role. `readSocket` gets it back,
for any number of trees, from the bytes that were sent.
-/
namespace Filly.Accessibility
open CJson Layout Outlines Protocol

/-- The label and the role as the message takes them, and the rectangle. -/
structure Entry where
  role : Bytes
  label : Bytes
  x : Int32
  y : Int32
  w : Int32
  h : Int32
  deriving DecidableEq, Repr

structure AccessNode where
  role : Option Bytes
  label : Option Bytes
  x : Int32
  y : Int32
  w : Int32
  h : Int32

inductive AccessTree where
  | mk (node : AccessNode) (u : Content AccessTree)

def AccessNode.entry (n : AccessNode) : Entry :=
  ⟨n.role.getD [],n.label.getD [],n.x,n.y,n.w,n.h⟩

/-! ## The messages -/

def objectLine (depth : ℕ) (e : Entry) : Bytes :=
  bytes "\x7b\"type\":\"object\",\"role\":\""++e.role++bytes "\",\"name\":\""++e.label++
    bytes "\",\"depth\":"++formatInt depth++bytes ",\"x\":"++formatInt e.x.toInt++
    bytes ",\"y\":"++formatInt e.y.toInt++bytes ",\"w\":"++formatInt e.w.toInt++
    bytes ",\"h\":"++formatInt e.h.toInt++bytes "\x7d"

def focusLine (id : Bytes) : Bytes :=
  bytes "\x7b\"type\":\"focus\",\"id\":\""++id++bytes "\"\x7d"

def frameStart : Bytes := bytes "\x7b\"type\":\"frame_start\"\x7d"

def frameEnd : Bytes := bytes "\x7b\"type\":\"frame_end\"\x7d"

/-- `char msg[1024]`. -/
def message (depth : ℕ) (e : Entry) : Bytes := (objectLine depth e).take 1023

mutual
def pushNode (depth : ℕ) : AccessTree → List Bytes
  | .mk node u =>
      if node.role.getD [] = [] then pushPassed depth u
      else message depth node.entry::pushBelow (depth+1) u

/-- What is looked at below a node without a role. -/
def pushPassed (depth : ℕ) : Content AccessTree → List Bytes
  | .container cs | .flex _ _ cs | .grid _ cs => pushList depth cs
  | .tabs _ | .splitPanes _ _ _ _ _ | .text _ | .list _ | .table _ | .tree _ | .gauge | .calendar
  | .form _ | .leaf _ => []

def pushBelow (depth : ℕ) : Content AccessTree → List Bytes
  | .container cs | .flex _ _ cs | .grid _ cs => pushList depth cs
  | .tabs child => pushOption depth child
  | .splitPanes _ _ first second third =>
      pushOption depth first++pushOption depth second++pushOption depth third
  | .text _ | .list _ | .table _ | .tree _ | .gauge | .calendar | .form _ | .leaf _ => []

def pushList (depth : ℕ) : List AccessTree → List Bytes
  | [] => []
  | c::cs => pushNode depth c++pushList depth cs

def pushOption (depth : ℕ) : Option AccessTree → List Bytes
  | none => []
  | some c => pushNode depth c
end

/-- `last_focused` is kept from one tree to the next. -/
def focusTurn (lastFocused : Option Bytes) (focusedId : Option Bytes) : Option Bytes × Option Bytes :=
  if focusedId.getD [] ≠ [] ∧ lastFocused ≠ focusedId then (focusedId,focusedId)
  else (none,lastFocused)

/-- The lines that are sent, and `last_focused` behind them. The buffer of the focus message
has 512 bytes. -/
def accessibilityPushTree (lastFocused : Option Bytes) (tree : AccessTree)
    (focusedId : Option Bytes) : List Bytes × Option Bytes :=
  let focus := focusTurn lastFocused focusedId
  (frameStart::(pushNode 0 tree++(focus.1.toList.map fun id => (focusLine id).take 511)++[frameEnd]),
    focus.2)

/-- All that is written for some trees, each with what is focused then. -/
def sent (lastFocused : Option Bytes) : List (AccessTree × Option Bytes) → Bytes
  | [] => []
  | (tree,focusedId)::rest =>
      let p := accessibilityPushTree lastFocused tree focusedId
      p.1.flatMap (·++[10])++sent p.2 rest

/-! ## The reader -/

inductive Record where
  | frameStart
  | object (depth : ℕ) (e : Entry)
  | focus (id : Bytes)
  | frameEnd

def intOf (j : Json) (name : String) : Int32 := Int32.ofInt (intField j (bytes name))

def textOf (j : Json) (name : String) : Bytes := (stringField j (bytes name)).getD []

def recordOf (j : Json) : Option Record :=
  let type := textOf j "type"
  if type = bytes "frame_start" then some .frameStart
  else if type = bytes "object" then
    some (.object (intField j (bytes "depth")).toNat
      ⟨textOf j "role",textOf j "name",intOf j "x",intOf j "y",intOf j "w",intOf j "h"⟩)
  else if type = bytes "focus" then some (.focus (textOf j "id"))
  else if type = bytes "frame_end" then some .frameEnd
  else none

def readRecord (line : Bytes) : Option Record := (cJSONParse line).bind recordOf

/-- What is announced between the start and the end of a frame. -/
structure Announced where
  forest : List (Rose Entry)
  focus : Option Bytes

def readFrames (objects : List (ℕ × Entry)) (focus : Option Bytes) : List Record → List Announced
  | [] => []
  | .frameStart::rs => readFrames [] none rs
  | .object depth e::rs => readFrames (objects++[(depth,e)]) focus rs
  | .focus id::rs => readFrames objects (some id) rs
  | .frameEnd::rs => ⟨forest objects,focus⟩::readFrames [] none rs

def readSocket (stream : Bytes) : List Announced :=
  readFrames [] none ((stream.splitOn 10).filterMap readRecord)

/-! ## What there is to announce -/

mutual
/-- The nodes with a role, in the order of the tree; the others are contracted. -/
def accessible : AccessTree → List (Rose Entry)
  | .mk node u =>
      if node.role.getD [] = [] then accessiblePassed u
      else [.node node.entry (accessibleBelow u)]

def accessiblePassed : Content AccessTree → List (Rose Entry)
  | .container cs | .flex _ _ cs | .grid _ cs => accessibleList cs
  | .tabs _ | .splitPanes _ _ _ _ _ | .text _ | .list _ | .table _ | .tree _ | .gauge | .calendar
  | .form _ | .leaf _ => []

def accessibleBelow : Content AccessTree → List (Rose Entry)
  | .container cs | .flex _ _ cs | .grid _ cs => accessibleList cs
  | .tabs child => accessibleOption child
  | .splitPanes _ _ first second third =>
      accessibleOption first++accessibleOption second++accessibleOption third
  | .text _ | .list _ | .table _ | .tree _ | .gauge | .calendar | .form _ | .leaf _ => []

def accessibleList : List AccessTree → List (Rose Entry)
  | [] => []
  | c::cs => accessible c++accessibleList cs

def accessibleOption : Option AccessTree → List (Rose Entry)
  | none => []
  | some c => accessible c
end

/-- A text that needs no escape. -/
def Plain (s : Bytes) : Prop := ∀ b ∈ s, 32 ≤ b ∧ b ≠ 34 ∧ b ≠ 92

theorem plain_of {s : Bytes}
    (h : s.all (fun b => decide (32 ≤ b ∧ b ≠ 34 ∧ b ≠ 92)) = true) : Plain s :=
  fun b hb => of_decide_eq_true (List.all_eq_true.mp h b hb)

/-- A node whose message is complete and can be read. -/
structure Sound (depth : ℕ) (e : Entry) : Prop where
  role : Plain e.role
  label : Plain e.label
  depth_lt : depth < 2^31
  short : (objectLine depth e).length ≤ 1023

def SoundPush (p : AccessTree × Option Bytes) : Prop :=
  (∀ l ∈ outline 0 (accessible p.1), Sound l.1 l.2) ∧
    Plain (p.2.getD []) ∧ (focusLine (p.2.getD [])).length ≤ 511

/-! ## The lines are the outline of the forest -/

def outlineLines (depth : ℕ) (ts : List (Rose Entry)) : List Bytes :=
  (outline depth ts).map fun l => message l.1 l.2

theorem outlineLines_append (depth : ℕ) (ts us : List (Rose Entry)) :
    outlineLines depth (ts++us) = outlineLines depth ts++outlineLines depth us := by
  rw [outlineLines,outline_append,List.map_append]
  rfl

theorem outlineLines_node (depth : ℕ) (e : Entry) (children : List (Rose Entry)) :
    outlineLines depth [.node e children] =
      message depth e::outlineLines (depth+1) children := by
  rw [outlineLines,outline_cons,outline,List.append_nil]
  rfl

mutual
theorem pushNode_eq : ∀ (depth : ℕ) (t : AccessTree),
    pushNode depth t = outlineLines depth (accessible t)
  | depth, .mk node u => by
      rw [pushNode,accessible]
      split_ifs with h
      · exact pushPassed_eq depth u
      · rw [outlineLines_node,pushBelow_eq (depth+1) u]

theorem pushPassed_eq : ∀ (depth : ℕ) (u : Content AccessTree),
    pushPassed depth u = outlineLines depth (accessiblePassed u)
  | depth, .container cs | depth, .flex _ _ cs | depth, .grid _ cs => pushList_eq depth cs
  | _, .tabs _ | _, .splitPanes _ _ _ _ _ | _, .text _ | _, .list _ | _, .table _ | _, .tree _
  | _, .gauge | _, .calendar | _, .form _ | _, .leaf _ => rfl

theorem pushBelow_eq : ∀ (depth : ℕ) (u : Content AccessTree),
    pushBelow depth u = outlineLines depth (accessibleBelow u)
  | depth, .container cs | depth, .flex _ _ cs | depth, .grid _ cs => pushList_eq depth cs
  | depth, .tabs child => pushOption_eq depth child
  | depth, .splitPanes _ _ first second third => by
      rw [pushBelow,accessibleBelow,outlineLines_append,outlineLines_append,
        pushOption_eq depth first,pushOption_eq depth second,pushOption_eq depth third]
  | _, .text _ | _, .list _ | _, .table _ | _, .tree _ | _, .gauge | _, .calendar | _, .form _
  | _, .leaf _ => rfl

theorem pushList_eq : ∀ (depth : ℕ) (cs : List AccessTree),
    pushList depth cs = outlineLines depth (accessibleList cs)
  | _, [] => rfl
  | depth, c::cs => by
      rw [pushList,accessibleList,outlineLines_append,pushNode_eq depth c,pushList_eq depth cs]

theorem pushOption_eq : ∀ (depth : ℕ) (child : Option AccessTree),
    pushOption depth child = outlineLines depth (accessibleOption child)
  | _, none => rfl
  | depth, some c => pushNode_eq depth c
end

/-! ## The text of a line -/

theorem Plain.escape {s : Bytes} (h : Plain s) : escape s = s := by
  induction s with
  | nil => rfl
  | cons b s ih =>
      obtain ⟨hb,h₁,h₂⟩ := h b List.mem_cons_self
      rw [escape_cons,escapeByte_plain hb h₁ h₂,ih fun c hc => h c (List.mem_cons_of_mem b hc)]
      rfl

theorem Plain.notMem {s : Bytes} (h : Plain s) {b : UInt8} (hb : b < 32) : b ∉ s :=
  fun hmem => absurd (h b hmem).1 (UInt8.not_le.mpr hb)

theorem Plain.stringText {s : Bytes} (h : Plain s) : stringText s = 34::(s++[34]) := by
  rw [CJson.stringText,takeWhile_nul (h.notMem (by decide)),h.escape]

theorem Plain.clean {s : Bytes} (h : Plain s) : Clean s := by
  intro b hb
  simp [cleanByte,(h b hb).1]

def objectTree (depth : ℕ) (e : Entry) : Json :=
  .object [(bytes "type",.string (bytes "object")),(bytes "role",.string e.role),
    (bytes "name",.string e.label),(bytes "depth",.ofInt depth),(bytes "x",.ofInt e.x.toInt),
    (bytes "y",.ofInt e.y.toInt),(bytes "w",.ofInt e.w.toInt),(bytes "h",.ofInt e.h.toInt)]

def focusTree (id : Bytes) : Json :=
  .object [(bytes "type",.string (bytes "focus")),(bytes "id",.string id)]

theorem readBack_objectTree {depth : ℕ} {e : Entry} (h : Sound depth e) :
    readBack 0 (objectTree depth e) = some (objectTree depth e) := by
  have hclean : ∀ s ∈ [bytes "type",bytes "object",bytes "role",bytes "name",bytes "depth",
      bytes "x",bytes "y",bytes "w",bytes "h"], Clean s := by decide
  have hdepth : -2^31 ≤ (depth : ℤ) ∧ (depth : ℤ) < 2^31 := by
    have := h.depth_lt
    omega
  apply readBack_object_fixed (by omega)
  intro m hm
  simp only [List.mem_cons,List.not_mem_nil,or_false] at hm
  rcases hm with rfl | rfl | rfl | rfl | rfl | rfl | rfl | rfl
  · exact ⟨hclean _ (by simp),readBack_string (hclean _ (by simp)) 1⟩
  · exact ⟨hclean _ (by simp),readBack_string h.role.clean 1⟩
  · exact ⟨hclean _ (by simp),readBack_string h.label.clean 1⟩
  · exact ⟨hclean _ (by simp),readBack_ofInt hdepth 1⟩
  · exact ⟨hclean _ (by simp),readBack_ofInt (int32_bounds _) 1⟩
  · exact ⟨hclean _ (by simp),readBack_ofInt (int32_bounds _) 1⟩
  · exact ⟨hclean _ (by simp),readBack_ofInt (int32_bounds _) 1⟩
  · exact ⟨hclean _ (by simp),readBack_ofInt (int32_bounds _) 1⟩

theorem objectLine_eq {depth : ℕ} {e : Entry} (h : Sound depth e) :
    objectLine depth e = (objectTree depth e).text := by
  have hdepth : (Json.ofInt depth).text = formatInt depth := text_ofInt (by
    have := h.depth_lt
    omega)
  have hrole : bytes "\x7b\"type\":\"object\",\"role\":\"" = 123::(stringText (bytes "type")++
      58::(stringText (bytes "object")++44::(stringText (bytes "role")++[58,34]))) := by decide
  have hname : bytes "\",\"name\":\"" = 34::44::(stringText (bytes "name")++[58,34]) := by decide
  have hnumber : bytes "\",\"depth\":" = 34::44::(stringText (bytes "depth")++[58]) := by decide
  have hx : bytes ",\"x\":" = 44::(stringText (bytes "x")++[58]) := by decide
  have hy : bytes ",\"y\":" = 44::(stringText (bytes "y")++[58]) := by decide
  have hw : bytes ",\"w\":" = 44::(stringText (bytes "w")++[58]) := by decide
  have hh : bytes ",\"h\":" = 44::(stringText (bytes "h")++[58]) := by decide
  have hend : bytes "\x7d" = [125] := by decide
  rw [objectLine,hrole,hname,hnumber,hx,hy,hw,hh,hend]
  simp [objectTree,Json.text,membersText,comma,hdepth,text_ofInt (int32_bounds _),
    h.role.stringText,h.label.stringText]

theorem message_eq {depth : ℕ} {e : Entry} (h : Sound depth e) :
    message depth e = (objectTree depth e).text := by
  rw [message,List.take_of_length_le h.short,objectLine_eq h]

theorem intOf_number {j : Json} {name : String} {n : Int32}
    (h : j.getObjectItem (bytes name) = some (.ofInt n.toInt)) : intOf j name = n := by
  have hvalue : (Json.ofInt n.toInt).valueint = n.toInt := valueint_intCast (int32_bounds n)
  rw [intOf,intField,h,Option.map_some,hvalue,Option.getD_some,Int32.ofInt_toInt]

theorem readRecord_message {depth : ℕ} {e : Entry} (h : Sound depth e) :
    readRecord (message depth e) = some (.object depth e) := by
  have htype : textOf (objectTree depth e) "type" = bytes "object" := rfl
  have hrole : textOf (objectTree depth e) "role" = e.role := rfl
  have hname : textOf (objectTree depth e) "name" = e.label := rfl
  have hdepth : intField (objectTree depth e) (bytes "depth") = depth := by
    have hvalue : (Json.ofInt depth).valueint = depth := valueint_intCast (by
      have := h.depth_lt
      omega)
    exact hvalue
  have hx : intOf (objectTree depth e) "x" = e.x := intOf_number rfl
  have hy : intOf (objectTree depth e) "y" = e.y := intOf_number rfl
  have hw : intOf (objectTree depth e) "w" = e.w := intOf_number rfl
  have hh : intOf (objectTree depth e) "h" = e.h := intOf_number rfl
  have hstart : bytes "object" ≠ bytes "frame_start" := by decide
  rw [message_eq h,readRecord,cJSONParse_text_nil,readBack_objectTree h,Option.bind_some,recordOf,
    htype,hrole,hname,hdepth,hx,hy,hw,hh]
  simp only [if_neg hstart,if_true,Int.toNat_natCast]

theorem focusLine_eq {id : Bytes} (h : Plain id) : focusLine id = (focusTree id).text := by
  have hhead : bytes "\x7b\"type\":\"focus\",\"id\":\"" = 123::(stringText (bytes "type")++
      58::(stringText (bytes "focus")++44::(stringText (bytes "id")++[58,34]))) := by decide
  have hend : bytes "\"\x7d" = [34,125] := by decide
  rw [focusLine,hhead,hend]
  simp [focusTree,Json.text,membersText,comma,h.stringText]

theorem readRecord_focus {id : Bytes} (h : Plain id) :
    readRecord (focusLine id) = some (.focus id) := by
  have hclean : ∀ s ∈ [bytes "type",bytes "focus",bytes "id"], Clean s := by decide
  have hfixed : readBack 0 (focusTree id) = some (focusTree id) := by
    apply readBack_object_fixed (by omega)
    intro m hm
    rcases List.mem_pair.mp hm with rfl | rfl
    · exact ⟨hclean _ (by simp),readBack_string (hclean _ (by simp)) 1⟩
    · exact ⟨hclean _ (by simp),readBack_string h.clean 1⟩
  have hrecord : recordOf (focusTree id) = some (.focus id) := rfl
  rw [focusLine_eq h,readRecord,cJSONParse_text_nil,hfixed,Option.bind_some,hrecord]

/-- The two lines around a frame. -/
theorem readRecord_mark {name : Bytes} (h : Clean name) :
    readRecord (Json.object [(bytes "type",.string name)]).text =
      recordOf (.object [(bytes "type",.string name)]) := by
  have hfixed : readBack 0 (.object [(bytes "type",.string name)]) =
      some (.object [(bytes "type",.string name)]) := by
    apply readBack_object_fixed (by omega)
    intro m hm
    rw [List.mem_singleton.mp hm]
    have htype : Clean (bytes "type") := by decide
    exact ⟨htype,readBack_string h 1⟩
  rw [readRecord,cJSONParse_text_nil,hfixed,Option.bind_some]

theorem readRecord_frameStart : readRecord frameStart = some .frameStart := by
  have htext : frameStart = (Json.object [(bytes "type",.string (bytes "frame_start"))]).text := by
    decide
  have hclean : Clean (bytes "frame_start") := by decide
  rw [htext,readRecord_mark hclean]
  rfl

theorem readRecord_frameEnd : readRecord frameEnd = some .frameEnd := by
  have htext : frameEnd = (Json.object [(bytes "type",.string (bytes "frame_end"))]).text := by
    decide
  have hclean : Clean (bytes "frame_end") := by decide
  rw [htext,readRecord_mark hclean]
  rfl

/-! ## A frame -/

/-- The records of a frame. -/
def frameRecords (objects : List (ℕ × Entry)) (focus : Option Bytes) : List Record :=
  .frameStart::(objects.map (fun l => .object l.1 l.2)++focus.toList.map .focus++[.frameEnd])

theorem readFrames_objects (objects done : List (ℕ × Entry)) (focus : Option Bytes)
    (rs : List Record) :
    readFrames done focus (objects.map (fun l => Record.object l.1 l.2)++rs) =
      readFrames (done++objects) focus rs := by
  induction objects generalizing done with
  | nil => rw [List.map_nil,List.nil_append,List.append_nil]
  | cons l objects ih =>
      rw [List.map_cons,List.cons_append,readFrames,ih,List.append_assoc]
      rfl

theorem readFrames_frame (objects done : List (ℕ × Entry)) (focus before : Option Bytes)
    (rs : List Record) : readFrames done before (frameRecords objects focus++rs) =
      ⟨forest objects,focus⟩::readFrames [] none rs := by
  rw [frameRecords,List.cons_append,readFrames,List.append_assoc,List.append_assoc,
    readFrames_objects,List.nil_append]
  cases focus <;> rfl

theorem focusTurn_mem {lastFocused focusedId : Option Bytes} {id : Bytes}
    (h : (focusTurn lastFocused focusedId).1 = some id) : id = focusedId.getD [] := by
  rw [focusTurn] at h
  split_ifs at h
  have hid : focusedId = some id := h
  rw [hid]
  rfl

theorem read_messages {ls : List (ℕ × Entry)} (h : ∀ l ∈ ls, Sound l.1 l.2) :
    (ls.map fun l => message l.1 l.2).filterMap readRecord = ls.map fun l => .object l.1 l.2 := by
  induction ls with
  | nil => rfl
  | cons l ls ih =>
      rw [List.forall_mem_cons] at h
      rw [List.map_cons,List.filterMap_cons_some (readRecord_message h.1),ih h.2,List.map_cons]

theorem read_focus {id : Option Bytes} (h : ∀ i, id = some i → Plain i ∧ (focusLine i).length ≤ 511) :
    (id.toList.map fun i => (focusLine i).take 511).filterMap readRecord =
        id.toList.map Record.focus ∧
      ∀ line ∈ id.toList.map (fun i => (focusLine i).take 511), 10 ∉ line := by
  cases id with
  | none => exact ⟨rfl,List.forall_mem_nil _⟩
  | some i =>
      obtain ⟨hplain,hshort⟩ := h i rfl
      rw [Option.toList_some,List.map_singleton,List.map_singleton,List.take_of_length_le hshort]
      refine ⟨List.filterMap_cons_some (readRecord_focus hplain),fun line hline => ?_⟩
      rw [List.mem_singleton.mp hline,focusLine_eq hplain]
      exact text_noNewline _

/-- The lines of a tree and its focus, and what is read from each. -/
theorem pushTree_records {tree : AccessTree} {focusedId : Option Bytes}
    (h : SoundPush (tree,focusedId)) (lastFocused : Option Bytes) :
    (accessibilityPushTree lastFocused tree focusedId).1.filterMap readRecord =
        frameRecords (outline 0 (accessible tree)) (focusTurn lastFocused focusedId).1 ∧
      ∀ line ∈ (accessibilityPushTree lastFocused tree focusedId).1, 10 ∉ line := by
  obtain ⟨hobjects,hid,hshort⟩ := h
  obtain ⟨hread,hfocus⟩ := @read_focus (focusTurn lastFocused focusedId).1
    fun i hi => focusTurn_mem hi ▸ ⟨hid,hshort⟩
  rw [accessibilityPushTree,pushNode_eq]
  constructor
  · rw [List.filterMap_cons_some readRecord_frameStart,List.filterMap_append,List.filterMap_append,
      outlineLines,read_messages hobjects,hread,List.filterMap_cons_some readRecord_frameEnd]
    rfl
  · intro line hline
    rw [List.mem_cons,List.mem_append,List.mem_append,List.mem_singleton] at hline
    rcases hline with rfl | (hline | hline) | rfl
    · decide
    · obtain ⟨l,hl,rfl⟩ := List.mem_map.mp hline
      rw [message_eq (hobjects l hl)]
      exact text_noNewline _
    · exact hfocus line hline
    · decide

/-! ## A run -/

/-- What is announced for some trees, with the focus that was announced before them. -/
def announced (lastFocused : Option Bytes) : List (AccessTree × Option Bytes) → List Announced
  | [] => []
  | (tree,focusedId)::rest =>
      ⟨accessible tree,(focusTurn lastFocused focusedId).1⟩::
        announced (focusTurn lastFocused focusedId).2 rest

theorem splitOn_lines {lines : List Bytes} (h : ∀ line ∈ lines, 10 ∉ line) (rest : Bytes) :
    (lines.flatMap (·++[10])++rest).splitOn 10 = lines++rest.splitOn 10 := by
  induction lines with
  | nil => rfl
  | cons line lines ih =>
      rw [List.forall_mem_cons] at h
      have hsplit : ((line::lines).flatMap (·++[10])++rest) =
          line++10::(lines.flatMap (·++[10])++rest) := by simp
      rw [hsplit,List.splitOn_append_cons_self_of_not_mem h.1,ih h.2,List.cons_append]

theorem readSocket_eq {pushes : List (AccessTree × Option Bytes)} (h : ∀ p ∈ pushes, SoundPush p)
    (lastFocused : Option Bytes) :
    readSocket (sent lastFocused pushes) = announced lastFocused pushes := by
  induction pushes generalizing lastFocused with
  | nil => rfl
  | cons p pushes ih =>
      obtain ⟨tree,focusedId⟩ := p
      rw [List.forall_mem_cons] at h
      obtain ⟨hrecords,hlines⟩ := pushTree_records h.1 lastFocused
      have hrest := ih h.2 (focusTurn lastFocused focusedId).2
      rw [readSocket] at hrest
      rw [readSocket,sent,splitOn_lines hlines,List.filterMap_append,hrecords,readFrames_frame,
        forest_outline,announced]
      exact congrArg _ hrest

/-- What is focused, if anything is. -/
def focusOf (p : AccessTree × Option Bytes) : Option Bytes := p.2.filter (· ≠ [])

theorem focusTurn_eq (lastFocused : Option Bytes) (p : AccessTree × Option Bytes) :
    focusTurn lastFocused p.2 =
      match focusOf p with
      | none => (none,lastFocused)
      | some id => if lastFocused = some id then (none,lastFocused) else (some id,some id) := by
  obtain ⟨tree,focusedId⟩ := p
  cases focusedId with
  | none => rfl
  | some id =>
      by_cases hid : id = []
      · rw [hid]
        rfl
      · have hfocus : focusOf (tree,some id) = some id := by simp [focusOf,hid]
        rw [hfocus,focusTurn]
        by_cases hlast : lastFocused = some id
        · simp [hlast]
        · simp [hlast,hid]

theorem announced_cons (lastFocused : Option Bytes) (p : AccessTree × Option Bytes)
    (pushes : List (AccessTree × Option Bytes)) :
    (announced lastFocused (p::pushes)).filterMap Announced.focus =
      (focusTurn lastFocused p.2).1.toList++
        (announced (focusTurn lastFocused p.2).2 pushes).filterMap Announced.focus := by
  obtain ⟨tree,focusedId⟩ := p
  rw [announced]
  cases h : (focusTurn lastFocused focusedId).1 with
  | none => exact List.filterMap_cons_none rfl
  | some id => exact List.filterMap_cons_some rfl

/-- An announcement differs from the one before it. -/
theorem announced_focus (pushes : List (AccessTree × Option Bytes)) (id : Bytes) :
    id::(announced (some id) pushes).filterMap Announced.focus =
      (pushes.filterMap focusOf).destutter' (· ≠ ·) id := by
  induction pushes generalizing id with
  | nil => rfl
  | cons p pushes ih =>
      rw [announced_cons,focusTurn_eq]
      cases hfocus : focusOf p with
      | none =>
          rw [List.filterMap_cons_none hfocus]
          exact ih id
      | some i =>
          rw [List.filterMap_cons_some hfocus]
          by_cases hi : id = i
          · rw [List.destutter'_cons_neg _ (not_not.mpr hi)]
            simp only [hi,if_true]
            exact ih i
          · rw [List.destutter'_cons_pos _ hi,← ih i]
            simp only [Option.some.injEq,hi,if_false]
            rfl

theorem announced_first (pushes : List (AccessTree × Option Bytes)) :
    (announced none pushes).filterMap Announced.focus =
      (pushes.filterMap focusOf).destutter (· ≠ ·) := by
  induction pushes with
  | nil => rfl
  | cons p pushes ih =>
      rw [announced_cons,focusTurn_eq]
      cases hfocus : focusOf p with
      | none =>
          rw [List.filterMap_cons_none hfocus]
          exact ih
      | some i =>
          rw [List.filterMap_cons_some hfocus,List.destutter_cons',← announced_focus]
          simp only [reduceCtorEq,if_false]
          rfl

theorem announced_forest (pushes : List (AccessTree × Option Bytes)) (lastFocused : Option Bytes) :
    (announced lastFocused pushes).map Announced.forest = pushes.map fun p => accessible p.1 := by
  induction pushes generalizing lastFocused with
  | nil => rfl
  | cons p pushes ih => rw [announced,List.map_cons,List.map_cons,ih]

def namedNode (role label : String) : AccessNode :=
  ⟨some (bytes role),some (bytes label),0,0,10,3⟩

/-- A window around a container without a role that holds a button. -/
def smallTree : AccessTree :=
  .mk (namedNode "window" "Main") (.container [.mk ⟨none,none,0,0,9,2⟩
    (.container [.mk (namedNode "button" "OK") (.container [])])])

theorem accessible_smallTree : accessible smallTree =
    [.node (namedNode "window" "Main").entry [.node (namedNode "button" "OK").entry []]] := rfl

end Filly.Accessibility

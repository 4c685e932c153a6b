import Filly.Hub

/-!
# Text typed into a widget

The session turns letters into other keys unless the widget says that it accepts text.
A widget in a state in which it takes characters has a buffer; here it is cut at the
cursor. Every such state comes with the flag set, except the entry of a size in a disk:
nothing there sets the flag, so `1 gib` is entered at its `i`.

A multiselect takes no spaces, which select its choices, and a text editor no byte
that is negative as a `char`.
-/
namespace Filly.SessionLoop
open CJson Keys WhileLoops

variable {α β : Type}

/-- A byte of a text, as in `is_printable_paste` but without line ends and tabs. -/
def Printable (c : UInt8) : Prop := 32 ≤ c ∧ c ≠ 127

/-- The text on both sides of the cursor, in a state in which characters are added. -/
def Widget.buffer : Widget α → Option (Bytes × Bytes)
  | .input d => some (d.text.take d.cursor,d.text.drop d.cursor)
  | .password d => some (d.text,[])
  | .filter d => some (d.query,[])
  | .multiselect d => some (d.query,[])
  | .form d => d.fields[d.focused]?.map fun x => (x.value,[])
  | .textEditor d => some (d.line.take d.col,d.line.drop d.col)
  | .disk d => if d.mode = .resizeInput ∨ d.mode = .newPartition then some (d.input.getD [],[]) else none
  | .hub _ => none
  | .hubOver d sub => if d.mode = .editing then sub.buffer else none
  | .other _ => none

/-- The character is one of those that the widget adds to its buffer. -/
def Widget.Takes : Widget α → UInt8 → Prop
  | .multiselect _, c => c ≠ 32
  | .textEditor _, c => c < 128
  | .hubOver _ sub, c => sub.Takes c
  | _, _ => True

def Widget.IsDisk : Widget α → Prop
  | .disk _ => True
  | _ => False

/-- Both widgets have the same text and take the same characters. -/
structure SameText (w w' : Widget α) : Prop where
  buffer : w'.buffer = w.buffer
  takes : w'.Takes = w.Takes
  isDisk : w'.IsDisk = w.IsDisk

theorem SameText.refl (w : Widget α) : SameText w w := ⟨rfl,rfl,rfl⟩

theorem SameText.trans {u v w : Widget α} (huv : SameText u v) (hvw : SameText v w) :
    SameText u w :=
  ⟨hvw.buffer.trans huv.buffer,hvw.takes.trans huv.takes,hvw.isDisk.trans huv.isDisk⟩

theorem sameText_mapBase (f : WidgetBase → WidgetBase) (g : α → α) (w : Widget α) :
    SameText w (w.mapBase f g) := by
  cases w
  all_goals exact ⟨rfl,rfl,rfl⟩

theorem textEditorRender_text (sv : Services β) {d : TextEditorData} (hd : d.Within) :
    (textEditorRender sv d).line = d.line ∧ (textEditorRender sv d).col = d.col := by
  have hclamp := teClampCursor_of_within
    (d := { d with visibleH := max (sv.nineTenths d.base.renderArea.h-4) 1 }) hd
  rw [textEditorRender,hclamp]
  exact ⟨rfl,rfl⟩

theorem sameText_renderUpdate (pr : Program α β) {w : Widget α} (hw : w.Valid) :
    SameText w (renderUpdate pr w) := by
  induction w with
  | textEditor d =>
      obtain ⟨hline,hcol⟩ := textEditorRender_text pr.services ((valid_textEditor_iff d).1 hw).1
      refine ⟨?_,rfl,rfl⟩
      rw [renderUpdate,Widget.buffer,Widget.buffer,hline,hcol]
  | hubOver d sub ih =>
      obtain ⟨hmode,-,hsub⟩ := hw
      have hsame := ih hsub
      rw [renderUpdate,if_pos hmode]
      refine ⟨?_,hsame.takes,rfl⟩
      rw [Widget.buffer,Widget.buffer,if_pos hmode,if_pos hmode,hsame.buffer]
  | _ => exact ⟨rfl,rfl,rfl⟩

instance decidableTakes : (w : Widget α) → (c : UInt8) → Decidable (w.Takes c)
  | .multiselect _, c => inferInstanceAs (Decidable (c ≠ 32))
  | .textEditor _, c => inferInstanceAs (Decidable (c < 128))
  | .hubOver _ sub, c => decidableTakes sub c
  | .input _, _ | .password _, _ | .filter _, _ | .form _, _ | .disk _, _ | .hub _, _ |
    .other _, _ => isTrue trivial

/-- The flag is set in every state with a buffer, but never for a disk. -/
theorem accepts_iff_of_buffer (pr : Program α β) {w : { w : Widget α // w.Valid }}
    (hw : w.1.buffer ≠ none) : (widgetVTable pr).acceptsTextInput w = true ↔ ¬w.1.IsDisk := by
  obtain ⟨w,hvalid⟩ := w
  cases w with
  | input d => exact iff_of_true hvalid.2 id
  | password d => exact iff_of_true hvalid id
  | filter d => exact iff_of_true hvalid id
  | multiselect d => exact iff_of_true hvalid id
  | form d =>
      refine iff_of_true (hvalid ?_) id
      by_contra hle
      exact hw (by rw [Widget.buffer,List.getElem?_eq_none (Nat.le_of_not_lt hle)]; rfl)
  | textEditor d => exact iff_of_true hvalid.2.2 id
  | disk d => exact iff_of_false (Bool.eq_false_iff.1 hvalid) fun h => h trivial
  | hub d => exact absurd rfl hw
  | hubOver d sub => exact iff_of_true hvalid.2.1 id
  | other a => exact absurd rfl hw

theorem take_insertAt {i : ℕ} {c : UInt8} {text : Bytes} (hi : i ≤ text.length) :
    (insertAt i c text).take (i+1) = text.take i++[c] ∧
      (insertAt i c text).drop (i+1) = text.drop i := by
  have hlen : (text.take i).length = i := List.length_take_of_le hi
  have hsplit : insertAt i c text = (text.take i++[c])++text.drop i := by simp [insertAt]
  have hlen' : (text.take i++[c]).length = i+1 := by simp [hlen]
  rw [hsplit]
  exact ⟨by rw [← hlen']; exact List.take_left,by rw [← hlen']; exact List.drop_left⟩

theorem toInt8_nonneg_iff {c : UInt8} (hc : 32 ≤ c) : 32 ≤ c.toInt8 ∨ c = 9 ↔ c < 128 := by
  have hall : ∀ n < 256, 32 ≤ UInt8.ofNat n →
      (32 ≤ (UInt8.ofNat n).toInt8 ∨ UInt8.ofNat n = 9 ↔ UInt8.ofNat n < 128) := by decide +kernel
  have h := hall c.toNat c.toNat_lt
  rw [UInt8.ofNat_toNat] at h
  exact h hc

/-- What a character does to a widget with a buffer. -/
structure Adds (w : Widget α) (before after : Bytes) (c : UInt8) (w' : Widget α) : Prop where
  taken : w.Takes c → w'.buffer = some (before++[c],after)
  left : ¬w.Takes c → w'.buffer = some (before,after)
  takes : w'.Takes = w.Takes
  isDisk : w'.IsDisk = w.IsDisk

theorem Printable.ne_zero {c : UInt8} (hc : Printable c) : c ≠ 0 := fun h => by
  have h32 := hc.1
  rw [h] at h32
  exact absurd h32 (by decide)

/-- A printable character is put behind the text of a buffer that ends at the cursor. -/
theorem buffer_appendChar {c : UInt8} (hc : Printable c) (text : Bytes) :
    some (appendChar text c,([] : Bytes)) = some (text++[c],[]) := by
  rw [appendChar_of_ne hc.ne_zero]

theorem adds_multiselect {d : MultiselectData} {c : UInt8} (hprint : Printable c) :
    Adds (.multiselect d : Widget α) d.query [] c
      (.multiselect (multiselectHandleEvent .keyChar c d).2) := by
  rw [multiselectHandleEvent]
  by_cases hc : c = 32
  · have htoggle : d.toggle.query = d.query := by
      unfold MultiselectData.toggle
      split
      all_goals rfl
    rw [if_pos hc]
    exact ⟨fun h => absurd hc h,fun _ => congrArg (fun q => some (q,[])) htoggle,rfl,rfl⟩
  · rw [if_neg hc]
    exact ⟨fun _ => buffer_appendChar hprint _,fun h => absurd hc h,rfl,rfl⟩

theorem adds_form {d : FormData} {x : FormField} (hx : d.fields[d.focused]? = some x) {c : UInt8}
    (hc : Printable c) :
    Adds (.form d : Widget α) x.value [] c (.form (formHandleEvent .keyChar c d).2) := by
  have hlt : d.focused < d.fields.length := (List.getElem?_eq_some_iff.1 hx).1
  rw [formHandleEvent,if_pos hlt]
  refine ⟨fun _ => ?_,fun h => absurd trivial h,rfl,rfl⟩
  rw [Widget.buffer]
  simp [FormData.edit,hx,appendChar_of_ne hc.ne_zero]

theorem adds_textEditor (sv : Services β) {d : TextEditorData} (hd : d.Within) {c : UInt8}
    (hc : Printable c) (b : β) :
    textEditorHandleEvent sv .keyChar c d b =
        (.handled,(textEditorHandleEvent sv .keyChar c d b).2.1,b) ∧
      Adds (.textEditor d : Widget α) (d.line.take d.col) (d.line.drop d.col) c
        (.textEditor (textEditorHandleEvent sv .keyChar c d b).2.1) := by
  have hsave : c ≠ 19 := fun h => absurd hc.1 (by rw [h]; decide)
  have hdelete : c ≠ 4 := fun h => absurd hc.1 (by rw [h]; decide)
  rw [textEditorHandleEvent,if_neg hsave,if_neg hdelete]
  by_cases htakes : c < 128
  · rw [if_pos ((toInt8_nonneg_iff hc.1).2 htakes)]
    refine ⟨rfl,fun _ => ?_,fun h => absurd htakes h,rfl,rfl⟩
    have hline : (d.setLine (insertAt d.col c d.line)).line = insertAt d.col c d.line := by
      simp [TextEditorData.setLine,TextEditorData.line,List.getD_eq_getElem?_getD,hd.1]
    obtain ⟨htake,hdrop⟩ := take_insertAt (c := c) hd.2
    have hbuffer : some ((d.setLine (insertAt d.col c d.line)).line.take (d.col+1),
        (d.setLine (insertAt d.col c d.line)).line.drop (d.col+1)) =
          some (d.line.take d.col++[c],d.line.drop d.col) := by rw [hline,htake,hdrop]
    exact hbuffer
  · rw [if_neg (mt (toInt8_nonneg_iff hc.1).1 htakes)]
    exact ⟨rfl,fun h => absurd h htakes,fun _ => rfl,rfl,rfl⟩

/-- The keys of a disk while a size is entered. -/
theorem diskHandleEvent_input (sv : Services β) {d : DiskData}
    (hd : d.mode = .resizeInput ∨ d.mode = .newPartition) (code : KeyCode) (ch : UInt8) :
    diskHandleEvent sv code ch d = diskInput sv code ch d := by
  unfold diskHandleEvent
  split
  case h_1 hmode => simp [hmode] at hd
  case h_4 hmode => simp [hmode] at hd
  all_goals rfl

/-- A character is added to the buffer if the widget takes it, and nothing else happens
to the text. -/
theorem handleEvent_char (pr : Program α β) {w : Widget α} (b : β) (hw : w.Valid)
    {before after : Bytes} (hbuffer : w.buffer = some (before,after)) {c : UInt8}
    (hc : Printable c) :
    ∃ w', handleEvent pr (.key .keyChar c) w b = (.handled,w',b) ∧ Adds w before after c w' := by
  induction w with
  | input d =>
      cases hbuffer
      obtain ⟨htake,hdrop⟩ := take_insertAt (c := c) hw.1
      refine ⟨_,rfl,fun _ => ?_,fun h => absurd trivial h,rfl,rfl⟩
      rw [← htake,← hdrop]
      rfl
  | password d =>
      cases hbuffer
      exact ⟨_,rfl,fun _ => buffer_appendChar hc _,fun h => absurd trivial h,rfl,rfl⟩
  | filter d =>
      cases hbuffer
      exact ⟨_,rfl,fun _ => buffer_appendChar hc _,fun h => absurd trivial h,rfl,rfl⟩
  | multiselect d =>
      cases hbuffer
      refine ⟨_,?_,adds_multiselect hc⟩
      rw [handleEvent,keysOnly,multiselectHandleEvent]
      split_ifs
      all_goals rfl
  | form d =>
      rw [Widget.buffer,Option.map_eq_some_iff] at hbuffer
      obtain ⟨x,hx,hbuffer⟩ := hbuffer
      cases hbuffer
      refine ⟨_,?_,adds_form hx hc⟩
      rw [handleEvent,keysOnly,formHandleEvent]
      split_ifs
      all_goals rfl
  | textEditor d =>
      cases hbuffer
      obtain ⟨hevent,hadds⟩ := @adds_textEditor α β pr.services d
        ((valid_textEditor_iff d).1 hw).1 c hc b
      refine ⟨_,?_,hadds⟩
      rw [handleEvent,keysOnly,hevent]
  | disk d =>
      rw [Widget.buffer] at hbuffer
      split_ifs at hbuffer with hmode
      cases hbuffer
      refine ⟨.disk (diskInput pr.services .keyChar c d).2,?_,?_,fun h => absurd trivial h,rfl,rfl⟩
      · rw [handleEvent,keysOnly,diskHandleEvent_input pr.services hmode]
        rfl
      · exact fun _ => (if_pos hmode).trans (buffer_appendChar hc _)
  | hub d => cases hbuffer
  | hubOver d sub ih =>
      obtain ⟨hmode,-,hsub⟩ := hw
      rw [Widget.buffer,if_pos hmode] at hbuffer
      obtain ⟨sub',hevent,hadds⟩ := ih hsub hbuffer
      have hbuffer' : (Widget.hubOver d sub').buffer = sub'.buffer := if_pos hmode
      refine ⟨.hubOver d sub',?_,?_,?_,hadds.takes,rfl⟩
      · rw [handleEvent,keysOnly,if_pos hmode,hevent]
      · exact fun h => hbuffer'.trans (hadds.taken h)
      · exact fun h => hbuffer'.trans (hadds.left h)
  | other a => cases hbuffer

/-! ## Typing in a session -/

/-- A session with one of the widgets, on any backend. -/
def host (pr : Program α β) (be : Backend { w : Widget α // w.Valid } β) :
    Host { w : Widget α // w.Valid } β :=
  { widgetVTable pr, be with }

variable (pr : Program α β) (be : Backend { w : Widget α // w.Valid } β)

/-- What neither the base of a widget nor its rendering touches is the same before the
next event. -/
theorem refresh_invariant {P : Widget α → Prop} (hmap : ∀ f g w, P w → P (w.mapBase f g))
    (hrender : ∀ w, w.Valid → P w → P (renderUpdate pr w))
    {s : State { w : Widget α // w.Valid } β} (hs : P s.w.1) :
    P (refresh (host pr be) s).w.1 := by
  have hredraw : ∀ (x y : ℤ) (t : State { w : Widget α // w.Valid } β), P t.w.1 →
      P (redraw (host pr be) x y t).w.1 :=
    fun x y t ht => hmap _ _ _ (hrender _ t.w.2 ht)
  unfold refresh
  dsimp only
  split_ifs
  · exact hredraw _ _ _ (hmap _ _ _ (hmap _ _ _ hs))
  · exact hmap _ _ _ (hmap _ _ _ hs)
  · exact hredraw _ _ _ hs
  · exact hs

theorem sameText_refresh (s : State { w : Widget α // w.Valid } β) :
    SameText s.w.1 (refresh (host pr be) s).w.1 := by
  apply refresh_invariant pr be
  · intro f g w hw
    exact hw.trans (sameText_mapBase f g w)
  · intro w hvalid hw
    exact hw.trans (sameText_renderUpdate pr hvalid)
  · exact SameText.refl _

theorem sameText_afterEvent (s : State { w : Widget α // w.Valid } β) :
    SameText s.w.1 (afterEvent (host pr be) s).w.1 := by
  have hstore : SameText s.w.1 (checkStore (host pr be) s).w.1 := by
    unfold checkStore
    split
    · exact SameText.refl _
    · split_ifs
      · exact sameText_mapBase _ _ _
      · exact SameText.refl _
  refine hstore.trans ?_
  unfold afterEvent awaitFrame
  split
  all_goals exact SameText.refl _

/-- The keys that the default table changes, among those that can be typed. -/
def mapped : Bytes := bytes "jkqhli"

theorem mapKey_default (keymap : List KeyBinding) {c : UInt8} (hc : Printable c) :
    (c ∉ mapped → mapKey (loadDefaultKeymap keymap) .keyChar c = (.keyChar,c)) ∧
      (c ∈ mapped → (mapKey (loadDefaultKeymap keymap) .keyChar c).1 ≠ .keyChar) := by
  have hall : ∀ n < 256, 32 ≤ UInt8.ofNat n →
      (UInt8.ofNat n ∉ mapped →
        mapKey (loadDefaultKeymap []) .keyChar (UInt8.ofNat n) = (.keyChar,UInt8.ofNat n)) ∧
      (UInt8.ofNat n ∈ mapped →
        (mapKey (loadDefaultKeymap []) .keyChar (UInt8.ofNat n)).1 ≠ .keyChar) := by
    decide +kernel
  have h := hall c.toNat c.toNat_lt
  rw [UInt8.ofNat_toNat] at h
  exact h hc.1

/-- The turns take these characters from the backend. -/
def Typed (h : Host { w : Widget α // w.Valid } β) :
    Bytes → State { w : Widget α // w.Valid } β → Prop
  | [], _ => True
  | c::text, s =>
      (nextEvent h s).1 = .key .keyChar c ∧ ∀ t, sessionTurn h s = .next t → Typed h text t

/-- The characters are handed over as they are, and all of them get into the buffer. -/
def Received (h : Host { w : Widget α // w.Valid } β) (text before after : Bytes)
    (s : State { w : Widget α // w.Valid } β) : Prop :=
  ∃ t, runFor (sessionTurn h) s text.length = .next t ∧
    t.w.1.buffer = some (before++text,after) ∧
    t.log = s.log++text.map fun c => (.key .keyChar c,.handled)

/-- A turn with a printable character hands it over, as the table has it. -/
theorem sessionTurn_char {s : State { w : Widget α // w.Valid } β} {c : UInt8} (hc : Printable c)
    (hev : (nextEvent (host pr be) s).1 = .key .keyChar c) :
    sessionTurn (host pr be) s =
      let t := (nextEvent (host pr be) s).2
      let key := if (widgetVTable pr).acceptsTextInput t.w then (.keyChar,c)
        else mapKey t.keymap .keyChar c
      deliver (host pr be) (.key key.1 key.2) t := by
  have hne : ∀ n : UInt8, n < 32 → c ≠ n := fun n hn h => absurd hc.1 (by rw [h]; exact UInt8.not_le.2 hn)
  have hturn : sessionTurn (host pr be) s = takeEvent (host pr be) (nextEvent (host pr be) s).2
      (nextEvent (host pr be) s).1 := rfl
  rw [hturn,hev,takeEvent,takeKey,undoKey]
  simp only [hne 3 (by decide),hne 22 (by decide),hne 26 (by decide),hne 25 (by decide),and_false,
    if_false]
  rfl

theorem Adds.sameText {u v w x : Widget α} {before after : Bytes} {c : UInt8} (huv : SameText u v)
    (hvw : Adds v before after c w) (hwx : SameText w x) : Adds u before after c x where
  taken h := hwx.buffer.trans (hvw.taken (huv.takes ▸ h))
  left h := hwx.buffer.trans (hvw.left (huv.takes ▸ h))
  takes := hwx.takes.trans (hvw.takes.trans huv.takes)
  isDisk := hwx.isDisk.trans (hvw.isDisk.trans huv.isDisk)

/-- A character that the table leaves alone is added to the buffer. -/
theorem sessionTurn_raw {s : State { w : Widget α // w.Valid } β} {keymap : List KeyBinding}
    (hkeymap : s.keymap = loadDefaultKeymap keymap) {before after : Bytes}
    (hbuffer : s.w.1.buffer = some (before,after)) {c : UInt8} (hc : Printable c)
    (hev : (nextEvent (host pr be) s).1 = .key .keyChar c)
    (hraw : s.w.1.IsDisk → c ∉ mapped) :
    ∃ t, sessionTurn (host pr be) s = .next t ∧ Adds s.w.1 before after c t.w.1 ∧
      t.log = s.log++[(.key .keyChar c,.handled)] ∧ t.keymap = s.keymap := by
  have hkept := kept_nextEvent (host pr be) s
  have hsame : SameText s.w.1 (nextEvent (host pr be) s).2.w.1 := sameText_refresh pr be s
  rw [sessionTurn_char pr be hc hev]
  generalize (nextEvent (host pr be) s).2 = u at hkept hsame
  have hbuffer' : u.w.1.buffer = some (before,after) := hsame.buffer.trans hbuffer
  have hkey : (if (widgetVTable pr).acceptsTextInput u.w then (KeyCode.keyChar,c)
      else mapKey u.keymap .keyChar c) = (.keyChar,c) := by
    split_ifs with haccepts
    · rfl
    · rw [accepts_iff_of_buffer pr (by rw [hbuffer']; simp),not_not,hsame.isDisk] at haccepts
      rw [hkept.keymap,hkeymap]
      exact (mapKey_default keymap hc).1 (hraw haccepts)
  obtain ⟨w',hevent,hadds⟩ := handleEvent_char pr u.b u.w.2 hbuffer' hc
  have hhandled : ((host pr be).handleEvent (.key .keyChar c) u.w u.b).1 = .handled :=
    congrArg Prod.fst hevent
  have hafter := kept_afterEvent (host pr be)
    (handOver (host pr be) { u with idleCount := 0 } (.key .keyChar c)).2
  have hsame' := sameText_afterEvent pr be
    (handOver (host pr be) { u with idleCount := 0 } (.key .keyChar c)).2
  dsimp only
  rw [hkey]
  refine ⟨_,deliver_handled (host pr be) hhandled,?_,?_,?_⟩
  · have hw' : (handOver (host pr be) { u with idleCount := 0 } (.key .keyChar c)).2.w.1 = w' :=
      congrArg (fun r => r.2.1) hevent
    rw [hw'] at hsame'
    exact Adds.sameText hsame hadds hsame'
  · rw [hafter.log,← hkept.log,← hhandled]
    rfl
  · exact hafter.keymap.trans hkept.keymap

/-- Text that the table leaves alone is handed over as it is, and the buffer gets what
the widget takes of it. -/
theorem runFor_typed {text : Bytes} (hprint : ∀ c ∈ text, Printable c) {keymap : List KeyBinding}
    {s : State { w : Widget α // w.Valid } β} (hkeymap : s.keymap = loadDefaultKeymap keymap)
    {before after : Bytes} (hbuffer : s.w.1.buffer = some (before,after))
    (htyped : Typed (host pr be) text s) (hraw : s.w.1.IsDisk → ∀ c ∈ text, c ∉ mapped) :
    ∃ t, runFor (sessionTurn (host pr be)) s text.length = .next t ∧
      t.w.1.buffer = some (before++text.filter (s.w.1.Takes ·),after) ∧
      t.log = s.log++text.map fun c => (.key .keyChar c,.handled) := by
  induction text generalizing s before with
  | nil => exact ⟨s,rfl,by simpa using hbuffer,by simp⟩
  | cons c text ih =>
      rw [List.forall_mem_cons] at hprint
      obtain ⟨hev,hrest⟩ := htyped
      obtain ⟨t,hturn,hadds,hlog,hkept⟩ := sessionTurn_raw pr be hkeymap hbuffer hprint.1 hev
        fun hdisk => hraw hdisk c List.mem_cons_self
      have hraw' : t.w.1.IsDisk → ∀ c ∈ text, c ∉ mapped := fun hdisk c hm =>
        hraw (hadds.isDisk ▸ hdisk) c (List.mem_cons_of_mem _ hm)
      rw [List.length_cons,runFor_of_next hturn]
      by_cases htakes : s.w.1.Takes c
      · obtain ⟨u,hrun,hu,hulog⟩ := ih hprint.2 (hkept.trans hkeymap) (hadds.taken htakes)
          (hrest t hturn) hraw'
        refine ⟨u,hrun,?_,by rw [hulog,hlog]; simp⟩
        rw [hu,List.filter_cons_of_pos (by simpa using htakes),List.append_assoc]
        simp only [hadds.takes,List.singleton_append]
      · obtain ⟨u,hrun,hu,hulog⟩ := ih hprint.2 (hkept.trans hkeymap) (hadds.left htakes)
          (hrest t hturn) hraw'
        refine ⟨u,hrun,?_,by rw [hulog,hlog]; simp⟩
        rw [hu,List.filter_cons_of_neg (by simpa using htakes)]
        simp only [hadds.takes]

/-- A mapped letter in a disk ends the session or leaves another key in the log. -/
theorem sessionTurn_mapped {s : State { w : Widget α // w.Valid } β} {keymap : List KeyBinding}
    (hkeymap : s.keymap = loadDefaultKeymap keymap) (hbuffer : s.w.1.buffer ≠ none)
    (hdisk : s.w.1.IsDisk) {c : UInt8} (hc : Printable c) (hm : c ∈ mapped)
    (hev : (nextEvent (host pr be) s).1 = .key .keyChar c) :
    ∃ code ch, code ≠ .keyChar ∧ Heard s (.key code ch) (sessionTurn (host pr be) s) := by
  have hkept := kept_nextEvent (host pr be) s
  have hsame : SameText s.w.1 (nextEvent (host pr be) s).2.w.1 := sameText_refresh pr be s
  rw [sessionTurn_char pr be hc hev]
  generalize (nextEvent (host pr be) s).2 = u at hkept hsame
  have haccepts : ¬(widgetVTable pr).acceptsTextInput u.w = true := by
    rw [accepts_iff_of_buffer pr (by rw [hsame.buffer]; exact hbuffer),not_not,hsame.isDisk]
    exact hdisk
  dsimp only
  rw [if_neg haccepts,hkept.keymap,hkeymap]
  exact ⟨_,_,(mapKey_default keymap hc).2 hm,(heard_deliver _ _ u).of_kept hkept⟩

theorem not_received {text : Bytes} (hprint : ∀ c ∈ text, Printable c) {keymap : List KeyBinding}
    {s : State { w : Widget α // w.Valid } β} (hkeymap : s.keymap = loadDefaultKeymap keymap)
    (htree : s.lastRenderTree = none) (hdisk : s.w.1.IsDisk) {before after : Bytes}
    (hbuffer : s.w.1.buffer = some (before,after)) (htyped : Typed (host pr be) text s)
    (hm : ∃ c ∈ text, c ∈ mapped) {t : State { w : Widget α // w.Valid } β}
    (hrun : runFor (sessionTurn (host pr be)) s text.length = .next t) :
    t.log ≠ s.log++text.map fun c => (.key .keyChar c,.handled) := by
  induction text generalizing s before with
  | nil => simp at hm
  | cons c text ih =>
      rw [List.forall_mem_cons] at hprint
      obtain ⟨hev,hrest⟩ := htyped
      by_cases hc : c ∈ mapped
      · obtain ⟨code,ch,hcode,hheard⟩ := sessionTurn_mapped pr be hkeymap
          (by rw [hbuffer]; simp) hdisk hprint.1 hc hev
        cases hturn : sessionTurn (host pr be) s with
        | returned r =>
            rw [List.length_cons,runFor_of_returned hturn] at hrun
            cases hrun
        | next u =>
            rw [hturn] at hheard
            obtain ⟨result,-,hkept⟩ := hheard
            rw [List.length_cons,runFor_of_next hturn] at hrun
            obtain ⟨rest,hlog⟩ := (extends_of_reaches _ (hkept.tree.trans htree) ⟨_,hrun⟩).log
            rw [hlog,hkept.log]
            simp [hcode]
      · obtain ⟨u,hturn,hadds,hulog,hkept⟩ := sessionTurn_raw pr be hkeymap hbuffer hprint.1 hev
          fun _ => hc
        rw [List.length_cons,runFor_of_next hturn] at hrun
        have hm' : ∃ c ∈ text, c ∈ mapped := by simpa [hc] using hm
        have hrest' := ih hprint.2 (hkept.trans hkeymap)
          ((extends_sessionTurn _ htree hturn).tree.trans htree) (hadds.isDisk.symm ▸ hdisk)
          (hadds.taken ?_) (hrest u hturn) hm' hrun
        · rw [hulog] at hrest'
          simpa using hrest'
        · cases hw : s.w.1 with
          | disk d => trivial
          | _ => simp [hw,Widget.IsDisk] at hdisk

/-- Typed text gets into the buffer exactly if the widget takes each character of it and,
in a disk, none of them is in the table. -/
theorem received_iff {keymap : List KeyBinding} {w : { w : Widget α // w.Valid }} {b : β}
    {s : State { w : Widget α // w.Valid } β}
    (hs : Reaches (sessionTurn (host pr be)) (start (host pr be) keymap w b) s)
    {before after : Bytes} (hbuffer : s.w.1.buffer = some (before,after)) {text : Bytes}
    (hprint : ∀ c ∈ text, Printable c) (htyped : Typed (host pr be) text s) :
    Received (host pr be) text before after s ↔
      (∀ c ∈ text, s.w.1.Takes c) ∧ (s.w.1.IsDisk → ∀ c ∈ text, c ∉ mapped) := by
  have hextends := extends_of_reaches (host pr be) (s := start (host pr be) keymap w b) rfl hs
  by_cases hraw : s.w.1.IsDisk → ∀ c ∈ text, c ∉ mapped
  · obtain ⟨t,hrun,htext,hlog⟩ := runFor_typed pr be hprint hextends.keymap hbuffer htyped hraw
    rw [and_iff_left hraw]
    constructor
    · rintro ⟨u,hu,hubuffer,-⟩
      rw [hrun,Turn.next.injEq] at hu
      rw [← hu,htext] at hubuffer
      have hfilter : text.filter (s.w.1.Takes ·) = text := by simpa using hubuffer
      simpa using List.filter_eq_self.1 hfilter
    · intro htakes
      have hfilter : text.filter (s.w.1.Takes ·) = text :=
        List.filter_eq_self.2 (by simpa using htakes)
      exact ⟨t,hrun,hfilter ▸ htext,hlog⟩
  · refine iff_of_false ?_ (fun h => hraw h.2)
    rintro ⟨t,hrun,-,hlog⟩
    simp only [Classical.not_imp,not_forall,not_not] at hraw
    obtain ⟨hdisk,hm⟩ := hraw
    exact not_received pr be hprint hextends.keymap hextends.tree hdisk hbuffer htyped hm hrun hlog

/-! ## A session on a list of events -/

/-- A program without other widgets. -/
def plainProgram : Program Empty (List Event) where
  services :=
    { regexec := fun _ _ => true
      filAccepts := fun _ _ _ => true
      humanToBytes := fun size => if size = bytes "1" then 1 else 0
      nineTenths := fun h => h*9/10
      writeFile := fun _ _ b => b }
  others :=
    { render := Empty.elim
      handleEvent := fun _ w _ => w.elim
      isDirty := Empty.elim
      clearDirty := Empty.elim
      markDirty := Empty.elim
      setRenderArea := fun _ _ w => w
      acceptsTextInput := Empty.elim }
  widgetRegistryCreate := fun _ _ => none
  picture := fun _ => .mk .container ⟨0,0,80,24⟩ [] 0 none []

/-- A terminal that gives the events of a list. -/
def listBackend : Backend { w : Widget Empty // w.Valid } (List Event) where
  setup := id
  draw := fun _ _ _ _ b => b
  nextEvent
    | [] => (.none,[])
    | ev::evs => (ev,evs)
  teardown := id
  getSize := fun b => ((80,24),b)
  waitFrame := none
  copyToClipboard := none
  isInteractive := true
  getClipboard := fun b => (none,b)
  undoStackUndo := fun w b => (false,w,b)
  undoStackRedo := fun w b => (false,w,b)
  storeGetVersion := fun _ => none
  timeMs := fun b => (0,b)

def typing (text : String) : List Event := (bytes text).map fun c => .key .keyChar c

/-- A password. -/
def emptyPassword : { w : Widget Empty // w.Valid } := ⟨.password passwordWidgetNew,rfl⟩

/-- A disk with free space and no partitions. -/
def emptyDisk : { w : Widget Empty // w.Valid } := ⟨.disk (diskWidgetNew [] [bytes "0"] false),rfl⟩

theorem password_receives :
    Received (host plainProgram listBackend) (bytes "j") [] []
      (start (host plainProgram listBackend) [] emptyPassword (typing "j")) := by
  have htyped : Typed (host plainProgram listBackend) (bytes "j")
      (start (host plainProgram listBackend) [] emptyPassword (typing "j")) :=
    ⟨rfl,fun _ _ => trivial⟩
  refine (received_iff plainProgram listBackend (Reaches.refl _) rfl ?_ htyped).2
    ⟨fun _ _ => trivial,fun h => h.elim⟩
  intro c hc
  rw [show c = 106 by simpa [bytes] using hc]
  exact ⟨by decide,by decide⟩

/-- The size `1i` of a new partition is entered as `1`. -/
theorem size_is_cut :
    ∃ s, Reaches (sessionTurn (host plainProgram listBackend))
        (start (host plainProgram listBackend) [] emptyDisk (typing "n1i")) s ∧
      s.w.1.buffer = some ([],[]) ∧ Typed (host plainProgram listBackend) (bytes "1i") s ∧
      ¬Received (host plainProgram listBackend) (bytes "1i") [] [] s := by
  refine ⟨_,(Reaches.refl _).step rfl,rfl,⟨rfl,?_⟩,?_⟩
  · intro t ht
    obtain rfl := Turn.next.inj (show Turn.next _ = Turn.next t from ht)
    exact ⟨rfl,fun _ _ => trivial⟩
  · rintro ⟨t,hrun,hbuffer,-⟩
    obtain rfl := Turn.next.inj (show Turn.next _ = Turn.next t from hrun)
    cases hbuffer

/-- The same terminal with a text on its clipboard. -/
def clipboardBackend (text : String) : Backend { w : Widget Empty // w.Valid } (List Event) :=
  { listBackend with getClipboard := fun b => (some (bytes text),b) }

def emptyHub : { w : Widget Empty // w.Valid } :=
  ⟨.hub ⟨{},[],[],0,0,[],.browsing⟩,HubMode.noConfusion⟩

/-- A hub that asks whether to quit gets its `y` from the clipboard. It responds, and the
session goes on. -/
theorem pasted_answer_is_lost :
    ¬∀ n, NoneLost (sessionRun (host plainProgram (clipboardBackend "y")) [] emptyHub
      [.key .keyEsc 0,.key .keyChar 22] n) := by
  intro h
  have hlost := h 2
  cases hlost

end Filly.SessionLoop

import Filly.Runs
import Filly.WidgetBuilder

/-!
# The edits of the widget builder

A run of the builder is watched: the titles that were confirmed last, the last edit and the
items before it. A save should list the items with these titles, and Ctrl+Z should give the
items before the edit back. The first title of an item stays its type, and the undo stack
changes nothing.
-/
namespace Filly.WidgetBuilder
open CJson Keys Protocol Runs

variable {ω : Type} {d : WidgetBuilderData ω}

/-! ## What a save says -/

/-- An entry of the list, read by the first member of each name. -/
structure Saves (entry : Json) (item : BuilderItem ω) (title : Bytes) : Prop where
  widget : entry.getObjectItem (bytes "widget") = some (.string item.widgetType)
  title : (entry.getObjectItem (bytes "params")).bind (·.getObjectItem (bytes "title")) =
    some (.string title)
  x : entry.getObjectItem (bytes "x") = some (.ofInt item.x.toInt)
  y : entry.getObjectItem (bytes "y") = some (.ofInt item.y.toInt)
  w : entry.getObjectItem (bytes "w") = some (.ofInt item.w.toInt)
  h : entry.getObjectItem (bytes "h") = some (.ofInt item.h.toInt)

/-- The text has an entry for each item, in order. -/
def Lists (text : Bytes) (items : List (BuilderItem ω)) (titles : List Bytes) : Prop :=
  ∃ root entries, cJSONParse text = some root ∧
    root.getObjectItem (bytes "widgets") = some (.array entries) ∧
      entries.length = items.length ∧
        List.Forall₂ (fun entry item => Saves entry item.1 item.2) entries (items.zip titles)

theorem clean_fits_builderTree {items : List (BuilderItem ω)} (h : ∀ item ∈ items, Titled item) :
    ∀ s ∈ (builderTree items).strings, Clean s ∧ Fits s := by
  have hitem : ∀ item ∈ items, ∀ s ∈ (itemTree item).strings, Clean s ∧ Fits s := by
    intro item hin
    obtain ⟨htype,more,hmore,hplain⟩ := h item hin
    have hparams : ∀ s ∈ item.params.strings, Clean s ∧ Fits s := by
      rw [hmore,Json.strings,forall_mem_membersStrings,List.forall_mem_cons]
      refine ⟨⟨⟨plain_title.clean,plain_title.fits⟩,?_⟩,?_⟩
      · rw [Json.strings,List.forall_mem_singleton]
        exact ⟨htype.clean,htype.fits⟩
      · intro m hm
        obtain ⟨hname,s,hs,hvalue⟩ := hplain m hm
        rw [hs,Json.strings,List.forall_mem_singleton]
        exact ⟨⟨hname.clean,hname.fits⟩,hvalue.clean,hvalue.fits⟩
    have hnumber (n : ℤ) : ∀ s ∈ (Json.ofInt n).strings, Clean s ∧ Fits s :=
      fun s hs => absurd hs List.not_mem_nil
    have hname : ∀ s ∈ [bytes "widget",bytes "params",bytes "x",bytes "y",bytes "w",bytes "h"],
        Clean s ∧ Fits s := by decide
    simp only [List.forall_mem_cons] at hname
    obtain ⟨h₁,h₂,h₃,h₄,h₅,h₆,-⟩ := hname
    rw [itemTree,Json.strings,forall_mem_membersStrings]
    simp only [List.forall_mem_cons]
    refine ⟨⟨h₁,?_⟩,⟨h₂,hparams⟩,⟨h₃,hnumber _⟩,⟨h₄,hnumber _⟩,⟨h₅,hnumber _⟩,⟨h₆,hnumber _⟩,
      fun _ hm => absurd hm List.not_mem_nil⟩
    rw [Json.strings,List.forall_mem_singleton]
    exact ⟨htype.clean,htype.fits⟩
  rw [builderTree,Json.strings,forall_mem_membersStrings,List.forall_mem_singleton,Json.strings,
    forall_mem_itemsStrings,List.forall_mem_map]
  have hwidgets : Clean (bytes "widgets") ∧ Fits (bytes "widgets") := by decide
  exact ⟨hwidgets,hitem⟩

theorem readBack_builderTree {items : List (BuilderItem ω)} (h : ∀ item ∈ items, Titled item) :
    readBack 0 (builderTree items) = some (builderTree items) := by
  have hitem : ∀ item ∈ items, readBack 2 (itemTree item) = some (itemTree item) := by
    intro item hin
    obtain ⟨htype,more,hmore,hplain⟩ := h item hin
    have hparams : readBack 3 item.params = some item.params := by
      rw [hmore]
      refine readBack_object_fixed (by decide) ?_
      rw [List.forall_mem_cons]
      refine ⟨⟨plain_title.clean,readBack_string htype.clean 4⟩,?_⟩
      intro m hm
      obtain ⟨hname,s,hs,hvalue⟩ := hplain m hm
      rw [hs]
      exact ⟨hname.clean,readBack_string hvalue.clean 4⟩
    have hnumber (n : Int32) : readBack 3 (.ofInt n.toInt) = some (.ofInt n.toInt) :=
      readBack_ofInt ⟨Int32.le_toInt n,Int32.toInt_lt n⟩ 3
    refine readBack_object_fixed (by decide) ?_
    simp only [List.forall_mem_cons]
    exact ⟨⟨by decide,readBack_string htype.clean 3⟩,⟨by decide,hparams⟩,
      ⟨by decide,hnumber _⟩,⟨by decide,hnumber _⟩,⟨by decide,hnumber _⟩,⟨by decide,hnumber _⟩,
      fun _ hm => absurd hm List.not_mem_nil⟩
  refine readBack_object_fixed (by decide) ?_
  rw [List.forall_mem_singleton]
  have hwidgets : Clean (bytes "widgets") := by decide
  exact ⟨hwidgets,readBack_array_fixed (by decide) (by rwa [List.forall_mem_map])⟩

/-- The entry of an item has its type as the title. -/
theorem saves_itemTree_iff {item : BuilderItem ω} (h : Titled item) (title : Bytes) :
    Saves (itemTree item) item title ↔ title = item.widgetType := by
  obtain ⟨more,hmore,-⟩ := h.params
  have hread : ((itemTree item).getObjectItem (bytes "params")).bind
      (·.getObjectItem (bytes "title")) = some (.string item.widgetType) := by
    change item.params.getObjectItem (bytes "title") = _
    rw [hmore]
    rfl
  constructor
  · intro hsaves
    have htitle := hsaves.title
    rw [hread,Option.some_inj,Json.string.injEq] at htitle
    exact htitle.symm
  · rintro rfl
    exact ⟨rfl,hread,rfl,rfl,rfl,rfl⟩

theorem save_eq (h : Sound d) :
    save d = .response ⟨some (.string (builderTree d.items).text),false,none⟩ := by
  rw [save,cJSONPrintUnformatted_eq (clean_fits_builderTree h.items)]
  rfl

/-- A save has the titles exactly where each is the type of its item. -/
theorem lists_iff (h : Sound d) {titles : List Bytes} (hlength : titles.length = d.items.length) :
    Lists (builderTree d.items).text d.items titles ↔
      titles = d.items.map BuilderItem.widgetType := by
  have hparse : cJSONParse (builderTree d.items).text = some (builderTree d.items) := by
    rw [cJSONParse_text_nil,readBack_builderTree h.items]
  have hforall : List.Forall₂ (fun entry item => Saves entry item.1 item.2) (d.items.map itemTree)
      (d.items.zip titles) ↔ titles = d.items.map BuilderItem.widgetType := by
    have hitems := h.items
    generalize d.items = items at hlength hitems
    induction items generalizing titles with
    | nil => simp [List.length_eq_zero_iff.1 hlength]
    | cons item items ih =>
        obtain ⟨title,titles,rfl⟩ := List.exists_cons_of_length_eq_add_one hlength
        rw [List.forall_mem_cons] at hitems
        rw [List.map_cons,List.zip_cons_cons,List.forall₂_cons,List.map_cons,List.cons.injEq]
        exact and_congr (saves_itemTree_iff hitems.1 title) (ih (Nat.succ.inj hlength) hitems.2)
  rw [← hforall]
  constructor
  · rintro ⟨root,entries,hroot,hlist,-,hentries⟩
    cases hparse.symm.trans hroot
    have hwidgets : (builderTree d.items).getObjectItem (bytes "widgets") =
        some (.array (d.items.map itemTree)) := rfl
    cases hwidgets.symm.trans hlist
    exact hentries
  · exact fun hentries => ⟨_,_,hparse,rfl,List.length_map _,hentries⟩

/-! ## A run that is watched -/

structure Watched (ω : Type) where
  builder : WidgetBuilderData ω
  /-- The type of each item, or the title that was confirmed last. -/
  titles : List Bytes
  /-- The items when the last drag began. -/
  dragFrom : List (BuilderItem ω)
  last : Edit
  /-- The items before the last edit, if the last event was one. -/
  before : List (BuilderItem ω)

def titlesAfter (titles : List Bytes) : Edit → List Bytes
  | .add type => titles++[type]
  | .delete i => titles.eraseIdx i
  | .confirm i title => titles.set i title
  | _ => titles

section
variable (create : WidgetRequest → Option ω) (sc : ScaleArithmetic)

def press (d : WidgetBuilderData ω) (e : SessionLoop.Event) : WidgetBuilderData ω :=
  ((handleEvent create sc d e).map Prod.snd).getD d

/-- The event takes hold of an item. -/
def startsDrag (d : WidgetBuilderData ω) : SessionLoop.Event → Bool
  | .mouseDragStart x y =>
      ¬d.propEditing ∧ (hitItem sc d (Int32.ofInt x) (Int32.ofInt y)).isSome
  | _ => false

def watch (s : Watched ω) (e : SessionLoop.Event) : Watched ω where
  builder := press create sc s.builder e
  titles := titlesAfter s.titles (editOf s.builder e)
  dragFrom := if startsDrag sc s.builder e then s.builder.items else s.dragFrom
  last := editOf s.builder e
  before :=
    match editOf s.builder e with
    | .move => s.dragFrom
    | _ => s.builder.items

/-- The event is one of these characters, outside of the property editor. -/
def Asks (d : WidgetBuilderData ω) (e : SessionLoop.Event) (chs : List UInt8) : Prop :=
  d.propEditing = false ∧ ∃ ch ∈ chs, e = .key .keyChar ch

/-- The edit is one that Ctrl+Z should take back. -/
def Edit.Undoable : Edit → Prop
  | .add _ | .delete _ | .move => True
  | _ => False

/-- Every access is in range, a save lists the items with the titles, and Ctrl+Z gives the items
before the edit back. -/
structure StepRight (s : Watched ω) (e : SessionLoop.Event) : Prop where
  defined : (handleEvent create sc s.builder e).isSome
  save : Asks s.builder e [115,83] → ∃ text,
    (handleEvent create sc s.builder e).map Prod.fst =
      some (.response ⟨some (.string text),false,none⟩) ∧ Lists text s.builder.items s.titles
  undo : Asks s.builder e [26] → s.last.Undoable →
    (press create sc s.builder e).items = s.before

/-- The last event was no addition and no deletion, and a drag that it ended has moved
nothing. -/
def Unmoved (s : Watched ω) : Prop :=
  match s.last with
  | .add _ | .delete _ => False
  | .move => s.builder.items = s.before
  | _ => True

/-- A save finds no title confirmed but the type, and Ctrl+Z nothing to take back. -/
structure StepMeets (s : Watched ω) (e : SessionLoop.Event) : Prop where
  titles : Asks s.builder e [115,83] → s.titles = s.builder.items.map BuilderItem.widgetType
  unmoved : Asks s.builder e [26] → Unmoved s

end

/-- There is a title for each item, and an addition and a deletion change their number. -/
structure Kept (s : Watched ω) : Prop where
  sound : Sound s.builder
  titles : s.titles.length = s.builder.items.length
  added : ∀ type, s.last = .add type → s.builder.items.length = s.before.length+1
  deleted : ∀ i, s.last = .delete i → s.builder.items.length+1 = s.before.length

variable {create : WidgetRequest → Option ω} {sc : ScaleArithmetic} {s : Watched ω}

theorem press_spec (create : WidgetRequest → Option ω) (sc : ScaleArithmetic) (h : Sound d)
    (e : SessionLoop.Event) :
    Sound (press create sc d e) ∧
      (press create sc d e).items.length = (editOf d e).count d.items.length := by
  obtain ⟨r,d',hd',hsound,hlength⟩ := handleEvent_leads create sc h e
  rw [press,hd']
  exact ⟨hsound,hlength⟩

theorem lt_of_delete {e : SessionLoop.Event} {i : ℕ} (h : editOf d e = .delete i) :
    i < d.items.length := by
  have hkey {code : KeyCode} (hcode : keyEdit d code = .delete i) : i < d.items.length := by
    cases code
    case keyEnter =>
      unfold keyEdit at hcode
      cases htype : d.paletteType <;> rw [htype] at hcode <;> cases hcode
    case keyDelete =>
      unfold keyEdit at hcode
      split_ifs at hcode with hvalid
      cases hcode
      unfold WidgetBuilderData.Valid at hvalid
      omega
    all_goals cases hcode
  cases e with
  | key code ch =>
      simp only [editOf,confirmEdit] at h
      split_ifs at h
      exact hkey h
  | mouseDragEnd x y startX startY dx dy =>
      simp only [editOf] at h
      split_ifs at h
  | _ => cases h

theorem length_titlesAfter {titles : List Bytes} (h : titles.length = d.items.length)
    (e : SessionLoop.Event) :
    (titlesAfter titles (editOf d e)).length = (editOf d e).count d.items.length := by
  cases hedit : editOf d e with
  | add type => rw [titlesAfter,List.length_append,h]; rfl
  | delete i =>
      have hlt : i < titles.length := h ▸ lt_of_delete hedit
      rw [titlesAfter,List.length_eraseIdx_of_lt hlt,h]
      rfl
  | confirm i title => rw [titlesAfter,List.length_set,h]; rfl
  | _ => exact h

theorem Kept.watch (h : Kept s) (e : SessionLoop.Event) : Kept (watch create sc s e) := by
  obtain ⟨hsound,hlength⟩ := press_spec create sc h.sound e
  refine ⟨hsound,(length_titlesAfter h.titles e).trans hlength.symm,?_,?_⟩
  · intro type htype
    have hedit : editOf s.builder e = .add type := htype
    simp only [WidgetBuilder.watch,hedit] at hlength ⊢
    exact hlength
  · intro i hi
    have hedit : editOf s.builder e = .delete i := hi
    have hlt := lt_of_delete hedit
    simp only [WidgetBuilder.watch,hedit] at hlength ⊢
    rw [hlength]
    exact Nat.sub_add_cancel (Nat.one_le_of_lt hlt)

theorem handleEvent_char (h : Sound d) (hediting : d.propEditing = false) (ch : UInt8) :
    handleEvent create sc d (.key .keyChar ch) =
      if ch = 115 ∨ ch = 83 then some (save d,d)
      else if ch = 26 ∨ ch = 25 then some (.handled,d) else some (.unhandled,d) := by
  rw [← charKey_eq h,handleEvent,hediting,if_neg Bool.false_ne_true]
  rfl

/-- A save asks for the types as titles. -/
theorem save_iff (h : Kept s) {e : SessionLoop.Event} (he : Asks s.builder e [115,83]) :
    (∃ text, (handleEvent create sc s.builder e).map Prod.fst =
        some (.response ⟨some (.string text),false,none⟩) ∧ Lists text s.builder.items s.titles) ↔
      s.titles = s.builder.items.map BuilderItem.widgetType := by
  obtain ⟨hediting,ch,hch,rfl⟩ := he
  have hsave : ch = 115 ∨ ch = 83 := by simpa using hch
  rw [handleEvent_char h.sound hediting,if_pos hsave,save_eq h.sound,← lists_iff h.sound h.titles]
  constructor
  · rintro ⟨text,htext,hlists⟩
    cases htext
    exact hlists
  · exact fun hlists => ⟨_,rfl,hlists⟩

/-- What Ctrl+Z leaves is what was there. -/
theorem undo_iff (h : Kept s) {e : SessionLoop.Event} (he : Asks s.builder e [26]) :
    (s.last.Undoable → (press create sc s.builder e).items = s.before) ↔ Unmoved s := by
  obtain ⟨hediting,ch,hch,rfl⟩ := he
  cases List.mem_singleton.1 hch
  have hpress : press create sc s.builder (.key .keyChar 26) = s.builder := by
    rw [press,handleEvent_char h.sound hediting]
    rfl
  rw [hpress,Unmoved]
  cases hlast : s.last with
  | none => exact iff_of_true (fun hundo => hundo.elim) trivial
  | confirm i title => exact iff_of_true (fun hundo => hundo.elim) trivial
  | move => exact ⟨fun hitems => hitems trivial,fun hitems _ => hitems⟩
  | add type =>
      refine iff_of_false (fun hitems => ?_) not_false
      have hlength := h.added type hlast
      rw [hitems trivial] at hlength
      omega
  | delete i =>
      refine iff_of_false (fun hitems => ?_) not_false
      have hlength := h.deleted i hlast
      rw [hitems trivial] at hlength
      omega

theorem stepRight_iff (h : Kept s) (e : SessionLoop.Event) :
    StepRight create sc s e ↔ StepMeets s e := by
  have hdefined : (handleEvent create sc s.builder e).isSome := by
    obtain ⟨r,d',hd',-⟩ := handleEvent_leads create sc h.sound e
    rw [hd']
    rfl
  constructor
  · exact fun hright => ⟨fun he => (save_iff h he).1 (hright.save he),
      fun he => (undo_iff h he).1 (hright.undo he)⟩
  · exact fun hmeets => ⟨hdefined,fun he => (save_iff h he).2 (hmeets.titles he),
      fun he => (undo_iff h he).2 (hmeets.unmoved he)⟩

/-! ## Every run -/

def watchedNew (ω : Type) : Watched ω where
  builder := widgetBuilderNew ω
  titles := []
  dragFrom := []
  last := .none
  before := []

theorem kept_new : Kept (watchedNew ω) := by
  refine ⟨sound_new,rfl,?_,?_⟩
  · intro type hlast
    cases hlast
  · intro i hlast
    cases hlast

theorem guarded_stepRight_iff (create : WidgetRequest → Option ω) (sc : ScaleArithmetic)
    (es : List SessionLoop.Event) :
    Guarded (watch create sc) (StepRight create sc) (watchedNew ω) es ↔
      Guarded (watch create sc) StepMeets (watchedNew ω) es :=
  guarded_congr (I := Kept) (fun _ e h _ => h.watch e) (fun _ e h => stepRight_iff h e) kept_new es

/-- Along every run the builder stays within its arrays, and its saves and undos are right exactly
when no other title than the type was confirmed before a save and there is nothing to take back
at a Ctrl+Z. -/
theorem builder_edits_iff (create : WidgetRequest → Option ω) (sc : ScaleArithmetic)
    (es : List SessionLoop.Event) :
    Guarded (watch create sc) (fun s e => (handleEvent create sc s.builder e).isSome)
      (watchedNew ω) es ∧
    (Guarded (watch create sc) (StepRight create sc) (watchedNew ω) es ↔
      Guarded (watch create sc) StepMeets (watchedNew ω) es) := by
  refine ⟨?_,guarded_stepRight_iff create sc es⟩
  have hkept : Always (watch create sc) Kept (watchedNew ω) es :=
    always_of_invariant (fun _ e h => h.watch e) _ es kept_new
  refine hkept.guarded fun s e h _ => ?_
  obtain ⟨r,d',hd',-⟩ := handleEvent_leads create sc h.sound e
  rw [hd']
  rfl

/-! ## Edits that are lost -/

def halfScale : ScaleArithmetic where
  scale := fun v => v/2
  unscale := fun v => v*2

def noWidget : WidgetRequest → Option Unit := fun _ => none

/-- A title that is confirmed stands behind the first one, and neither an addition nor a move
is taken back. -/
theorem edits_lost :
    (¬Guarded (watch noWidget halfScale) (StepRight noWidget halfScale) (watchedNew Unit)
      [.key .keyEnter 0,.key .keyF4 0,.key .keyChar 49,.key .keyEnter 0,.key .keyChar 115]) ∧
    (¬Guarded (watch noWidget halfScale) (StepRight noWidget halfScale) (watchedNew Unit)
      [.key .keyEnter 0,.key .keyChar 26]) ∧
    ¬Guarded (watch noWidget halfScale) (StepRight noWidget halfScale) (watchedNew Unit)
      [.key .keyEnter 0,.mouseDragStart 50 20,.mouseDragMove 60 20 50 20 10 0,
        .mouseDragEnd 60 20 50 20 10 0,.key .keyChar 26] := by
  refine ⟨?_,?_,?_⟩
  · rw [guarded_stepRight_iff]
    rintro ⟨-,-,-,-,hsave,-⟩
    exact absurd (hsave.titles ⟨rfl,115,List.mem_cons_self,rfl⟩) (by decide +kernel)
  · rw [guarded_stepRight_iff]
    rintro ⟨-,hundo,-⟩
    exact hundo.unmoved ⟨rfl,26,List.mem_cons_self,rfl⟩
  · rw [guarded_stepRight_iff]
    rintro ⟨-,-,-,-,hundo,-⟩
    have hitems := congrArg (List.map BuilderItem.x) (hundo.unmoved ⟨rfl,26,List.mem_cons_self,rfl⟩)
    exact absurd hitems (by decide +kernel)

end Filly.WidgetBuilder

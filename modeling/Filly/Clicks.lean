import Filly.RingBuffer
import Filly.WhileLoops
import Filly.WidgetFactories

/-!
# Clicks that become keys

The pixel backend keeps a copy of the tree that was drawn last. A press is looked up there,
and what a user of the keyboard would do at that place goes into a ring of 128 slots: for a
row of a list, the arrow keys that lead to it and an Enter.

The ring holds 127 keys and drops the others. A press on a row that is 127 rows away or more
so moves the selection by 127 rows and is not answered; `presses_answered_iff` counts the
presses that a row takes.
-/
namespace Filly.Clicks
open CJson Protocol Rectangles RingBuffer SessionLoop WhileLoops WidgetFactories

/-! ## The node under the pointer -/

/-- The type of a node, with the fields of a list that a press reads. -/
inductive Kind where
  | container | flex | grid
  | list (itemCount selected : ℤ)
  | input | toggle | checkbox | text | other

/-- The children are drawn and can be hit. -/
def Kind.holds : Kind → Bool
  | .container | .flex | .grid => true
  | .list _ _ | .input | .toggle | .checkbox | .text | .other => false

/-- The fields of the style that a row depends on. -/
structure RowStyle where
  fontSize : ℤ
  paddingTop : ℤ
  paddingBottom : ℤ
  marginTop : ℤ
  borderWidth : ℤ

inductive ClickTree where
  | mk (kind : Kind) (rect : Rect) (style : RowStyle) (children : List ClickTree)

def ClickTree.kind : ClickTree → Kind
  | .mk kind _ _ _ => kind

def ClickTree.style : ClickTree → RowStyle
  | .mk _ _ style _ => style

/-- A pointer left of or above the screen is over everything. -/
def Misses (px py x y : ℤ) (rect : Rect) : Prop :=
  0 ≤ px ∧ 0 ≤ py ∧ (px < x ∨ x+rect.w ≤ px ∨ py < y ∨ y+rect.h ≤ py)

instance (px py x y : ℤ) (rect : Rect) : Decidable (Misses px py x y rect) :=
  inferInstanceAs (Decidable (_ ∧ _))

/-- A node that is hit, with its position on the screen. -/
structure Hit where
  node : ClickTree
  x : ℤ
  y : ℤ

mutual
def hitTest (px py offX offY : ℤ) : ClickTree → Option Hit
  | .mk kind rect style children =>
      let x := offX+rect.x
      let y := offY+rect.y
      if Misses px py x y rect then none
      else
        let hit := if kind.holds then hitLast px py x y children else none
        some (hit.getD ⟨.mk kind rect style children,x,y⟩)

/-- The loop over the children, from the last one on. -/
def hitLast (px py x y : ℤ) : List ClickTree → Option Hit
  | [] => none
  | c::cs => (hitLast px py x y cs).or (hitTest px py x y c)
end

mutual
/-- The nodes that the pointer is over together with all that they hang from, in the order in
which they are drawn. -/
def pointed (px py offX offY : ℤ) : ClickTree → List Hit
  | .mk kind rect style children =>
      let x := offX+rect.x
      let y := offY+rect.y
      if Misses px py x y rect then []
      else
        ⟨.mk kind rect style children,x,y⟩::
          if kind.holds then pointedList px py x y children else []

def pointedList (px py x y : ℤ) : List ClickTree → List Hit
  | [] => []
  | c::cs => pointed px py x y c++pointedList px py x y cs
end

mutual
/-- The node that is hit is drawn over the others. -/
theorem hitTest_eq_last (px py : ℤ) : ∀ (offX offY : ℤ) (t : ClickTree),
    hitTest px py offX offY t = (pointed px py offX offY t).getLast?
  | offX, offY, .mk kind rect style children => by
      rw [hitTest,pointed]
      dsimp only
      split_ifs with h hchildren
      · rfl
      · rw [hitLast_eq_last px py (offX+rect.x) (offY+rect.y) children,List.getLast?_cons]
      · rfl

theorem hitLast_eq_last (px py : ℤ) : ∀ (x y : ℤ) (cs : List ClickTree),
    hitLast px py x y cs = (pointedList px py x y cs).getLast?
  | _, _, [] => rfl
  | x, y, c::cs => by
      rw [hitLast,pointedList,List.getLast?_append,hitLast_eq_last px py x y cs,
        hitTest_eq_last px py x y c]
end

/-! ## Keys for a press -/

abbrev EventQueue := Ring Event 128

def enqueueEvent (q : EventQueue) (ev : Event) : EventQueue :=
  if q.isFull then q else q.push fun _ => ev

def dequeueEvent (q : EventQueue) : Event × EventQueue :=
  if q.isEmpty then (.none,q) else (q.slots q.head,q.pop)

/-- The row of a list at a height above its items; rows of no height count as 20 high. -/
def rowAt (s : RowStyle) (itemCount relY : ℤ) : ℤ :=
  let itemH := s.fontSize+s.paddingTop+s.paddingBottom
  let itemH := if itemH ≤ 0 then 20 else itemH
  let idx := (relY-s.marginTop-s.paddingTop-s.borderWidth).tdiv itemH
  let idx := if idx < 0 then 0 else idx
  if itemCount ≤ idx then itemCount-1 else idx

def rowKeys (current idx : ℤ) : List Event :=
  List.replicate (current-idx).toNat (.key .keyUp 0)++
    (List.replicate (idx-current).toNat (.key .keyDown 0)++[.key .keyEnter 0])

def pressKeys (py : ℤ) (hit : Hit) : List Event :=
  match hit.node.kind with
  | .list itemCount selected =>
      if 0 < itemCount then rowKeys selected (rowAt hit.node.style itemCount (py-hit.y)) else []
  | .input | .text => [.key .keyEnter 0]
  | .toggle | .checkbox => [.key .keyChar 32]
  | .container | .flex | .grid | .other => []

def synthesizeKeyEvents (q : EventQueue) (hit : Option Hit) (py : ℤ) : EventQueue :=
  match hit with
  | none => q
  | some hit => (pressKeys py hit).foldl enqueueEvent q

/-! ## A menu that is clicked on -/

/-- A menu, the backend that shows it, and the presses that its display has not reported. -/
structure Desk where
  menu : SelectData
  renderTree : Option ClickTree
  eventQueue : EventQueue
  presses : List (ℤ × ℤ)

/-- A press is taken when no key waits, and its first key is given at once. -/
def gcoreBackendNextEvent (s : Desk) : Event × Desk :=
  let (queued,q) := dequeueEvent s.eventQueue
  if queued ≠ .none then (queued,{ s with eventQueue := q })
  else
    match s.presses with
    | [] => (.none,s)
    | (x,y)::rest =>
        let hit := s.renderTree.bind (hitTest x y 0 0)
        let (ev,q) := dequeueEvent (synthesizeKeyEvents s.eventQueue hit y)
        (ev,{ s with eventQueue := q, presses := rest })

section
variable (render : SelectData → ClickTree)

def draw (s : Desk) : Desk :=
  if s.menu.base.dirty then
    { s with renderTree := some (render s.menu),
             menu := { s.menu with base := s.menu.base.clear } }
  else s

/-- A turn of `session_run`: a changed menu is drawn, and the next event is for the menu.
Nothing is returned where the menu reads past its choices. -/
def turn (s : Desk) : Turn Desk (Option WidgetResponse) :=
  let (ev,s) := gcoreBackendNextEvent (draw render s)
  match menuHandleEvent ev s.menu with
  | none => .returned none
  | some (.response r,_) => .returned (some r)
  | some (_,d) => .next { s with menu := d }

end

/-! ## The keys in the ring -/

theorem contents_enqueue (q : EventQueue) (ev : Event) :
    (enqueueEvent q ev).contents = (q.contents++[ev]).take 127 := by
  have hheld := held_lt q
  rw [enqueueEvent]
  split_ifs with hfull
  · rw [isFull_iff,← length_contents] at hfull
    rw [List.take_left' (by omega)]
  · rw [contents_push hfull,List.take_of_length_le]
    rw [isFull_iff] at hfull
    rw [List.length_append,length_contents,List.length_singleton]
    omega

/-- As many keys as there is room for. -/
theorem contents_enqueueAll (q : EventQueue) (evs : List Event) :
    (evs.foldl enqueueEvent q).contents = (q.contents++evs).take 127 := by
  induction evs generalizing q with
  | nil =>
      have hheld := held_lt q
      rw [List.append_nil,List.take_of_length_le (by rw [length_contents]; omega)]
      rfl
  | cons ev evs ih =>
      have hsplit : q.contents++ev::evs = q.contents++[ev]++evs := by simp
      rw [List.foldl_cons,ih,contents_enqueue,hsplit]
      rcases Nat.lt_or_ge 127 (q.contents++[ev]).length with hlong | hshort
      · rw [List.take_append_of_le_length (by rw [List.length_take]; omega),List.take_take,
          List.take_append_of_le_length hlong.le,Nat.min_self]
      · rw [List.take_of_length_le hshort]

theorem dequeue_nil {q : EventQueue} (h : q.contents = []) : dequeueEvent q = (.none,q) := by
  rw [contents_eq_nil_iff] at h
  rw [dequeueEvent,if_pos h]

theorem dequeue_cons {q : EventQueue} {ev : Event} {rest : List Event}
    (h : q.contents = ev::rest) : ∃ p, dequeueEvent q = (ev,p) ∧ p.contents = rest := by
  have hempty : ¬q.isEmpty := by
    rw [← contents_eq_nil_iff,h]
    exact List.cons_ne_nil _ _
  rw [contents_pop hempty,List.cons.injEq] at h
  exact ⟨q.pop,by rw [dequeueEvent,if_neg hempty,h.1],h.2⟩

theorem rowKeys_up (idx m : ℕ) :
    rowKeys ↑(idx+m) idx = List.replicate m (.key .keyUp 0)++[.key .keyEnter 0] := by
  simp [rowKeys]

theorem rowKeys_down (current m : ℕ) :
    rowKeys current ↑(current+m) = List.replicate m (.key .keyDown 0)++[.key .keyEnter 0] := by
  simp [rowKeys]

theorem ne_none_of_mem_rowKeys {current idx : ℤ} {ev : Event} (h : ev ∈ rowKeys current idx) :
    ev ≠ .none := by
  rw [rowKeys,List.mem_append,List.mem_append,List.mem_singleton] at h
  rcases h with h | h | rfl
  · rw [List.eq_of_mem_replicate h]
    exact Event.noConfusion
  · rw [List.eq_of_mem_replicate h]
    exact Event.noConfusion
  · exact Event.noConfusion

theorem length_rowKeys (current idx : ℤ) :
    (rowKeys current idx).length = (idx-current).natAbs+1 := by
  simp only [rowKeys,List.length_append,List.length_replicate,List.length_singleton]
  omega

/-! ## Presses on a row -/

section
variable {render : SelectData → ClickTree} {choices : List Bytes} {px py : ℤ} {row : ℕ}

/-- The place shows this row of a list of the choices, with the selected one. -/
def Shown (choices : List Bytes) (px py : ℤ) (row selected : ℕ) (t : ClickTree) : Prop :=
  ∃ hit, hitTest px py 0 0 t = some hit ∧ hit.node.kind = .list choices.length selected ∧
    rowAt hit.node.style choices.length (py-hit.y) = row

/-- The menu is drawn so that the place shows the row, whatever is selected. -/
def RowShown (render : SelectData → ClickTree) (choices : List Bytes) (px py : ℤ) (row : ℕ) : Prop :=
  ∀ d : SelectData, d.choices = choices → d.selected < choices.length →
    Shown choices px py row d.selected (render d)

/-- The menu has these choices and this one is selected, the keys wait in the ring and the
presses in the display, and the tree is as the menu is unless that is to be drawn again. -/
structure At (choices : List Bytes) (px py : ℤ) (row selected : ℕ) (keys : List Event)
    (presses : List (ℤ × ℤ)) (s : Desk) : Prop where
  choices_eq : s.menu.choices = choices
  selected_eq : s.menu.selected = selected
  keys_eq : s.eventQueue.contents = keys
  presses_eq : s.presses = presses
  lt : selected < choices.length
  drawn : s.menu.base.dirty = true ∨
    ∃ t, s.renderTree = some t ∧ Shown choices px py row selected t

variable {selected : ℕ} {keys : List Event} {presses : List (ℤ × ℤ)} {s : Desk}

theorem At.draw (h : At choices px py row selected keys presses s)
    (hrow : RowShown render choices px py row) :
    At choices px py row selected keys presses (draw render s) ∧
      (draw render s).menu.base.dirty = false ∧
      ∃ t, (draw render s).renderTree = some t ∧ Shown choices px py row selected t := by
  rw [Clicks.draw]
  split_ifs with hdirty
  · have hshown : Shown choices px py row selected (render s.menu) := by
      have := hrow s.menu h.choices_eq (h.selected_eq ▸ h.lt)
      rwa [h.selected_eq] at this
    exact ⟨⟨h.choices_eq,h.selected_eq,h.keys_eq,h.presses_eq,h.lt,.inr ⟨_,rfl,hshown⟩⟩,
      rfl,_,rfl,hshown⟩
  · exact ⟨h,Bool.eq_false_iff.mpr hdirty,h.drawn.resolve_left hdirty⟩

/-- A key that waits is taken by the menu. -/
theorem turn_key {code : Keys.KeyCode} {ch : UInt8}
    (h : At choices px py row selected (.key code ch::keys) presses s)
    (hrow : RowShown render choices px py row) : ∃ u,
    At choices px py row selected keys presses u ∧
      turn render s = match menuHandleEvent (.key code ch) u.menu with
        | none => .returned none
        | some (.response r,_) => .returned (some r)
        | some (_,d) => .next { u with menu := d } := by
  obtain ⟨hdrawn,-,t,htree,hshown⟩ := h.draw hrow
  obtain ⟨q,hdequeue,hq⟩ := dequeue_cons hdrawn.keys_eq
  refine ⟨{ draw render s with eventQueue := q },
    ⟨hdrawn.choices_eq,hdrawn.selected_eq,hq,hdrawn.presses_eq,h.lt,.inr ⟨t,htree,hshown⟩⟩,?_⟩
  rw [turn,gcoreBackendNextEvent,hdequeue]
  rfl

theorem turn_up (h : At choices px py row (selected+1) (.key .keyUp 0::keys) presses s)
    (hrow : RowShown render choices px py row) : ∃ u,
    At choices px py row selected keys presses u ∧ turn render s = .next u := by
  obtain ⟨u,hu,hturn⟩ := turn_key h hrow
  have hpos : 0 < u.menu.selected := by rw [hu.selected_eq]; omega
  refine ⟨_,?_,hturn.trans (by rw [menuHandleEvent,selectHandleEvent,if_pos hpos])⟩
  exact ⟨hu.choices_eq,by simp [hu.selected_eq],hu.keys_eq,hu.presses_eq,by have := h.lt; omega,
    .inl rfl⟩

theorem turn_down (h : At choices px py row selected (.key .keyDown 0::keys) presses s)
    (hrow : RowShown render choices px py row) (hlt : selected+1 < choices.length) : ∃ u,
    At choices px py row (selected+1) keys presses u ∧ turn render s = .next u := by
  obtain ⟨u,hu,hturn⟩ := turn_key h hrow
  have hroom : u.menu.selected+1 < u.menu.choices.length := by
    rwa [hu.selected_eq,hu.choices_eq]
  refine ⟨_,?_,hturn.trans (by rw [menuHandleEvent,selectHandleEvent,if_pos hroom])⟩
  exact ⟨hu.choices_eq,by simp [hu.selected_eq],hu.keys_eq,hu.presses_eq,hlt,.inl rfl⟩

theorem turn_enter {c : Bytes}
    (h : At choices px py row selected (.key .keyEnter 0::keys) presses s)
    (hrow : RowShown render choices px py row) (hc : choices[selected]? = some c) :
    turn render s = .returned (some ⟨some (.string c),false,none⟩) := by
  obtain ⟨u,hu,hturn⟩ := turn_key h hrow
  rw [hturn,menuHandleEvent,selectHandleEvent,hu.choices_eq,hu.selected_eq,hc]
  rfl

theorem moves_up (m : ℕ)
    (h : At choices px py row (selected+m) (List.replicate m (.key .keyUp 0)++keys) presses s)
    (hrow : RowShown render choices px py row) : ∃ u,
    Reaches (turn render) s u ∧ At choices px py row selected keys presses u := by
  induction m generalizing s with
  | zero => exact ⟨s,.refl s,h⟩
  | succ m ih =>
      have hfirst : At choices px py row (selected+m+1)
          (.key .keyUp 0::(List.replicate m (.key .keyUp 0)++keys)) presses s := h
      obtain ⟨u,hu,hturn⟩ := turn_up hfirst hrow
      obtain ⟨v,huv,hv⟩ := ih hu
      exact ⟨v,.head hturn huv,hv⟩

theorem moves_down (m : ℕ)
    (h : At choices px py row selected (List.replicate m (.key .keyDown 0)++keys) presses s)
    (hrow : RowShown render choices px py row) (hlt : selected+m < choices.length) : ∃ u,
    Reaches (turn render) s u ∧ At choices px py row (selected+m) keys presses u := by
  induction m generalizing s selected with
  | zero => exact ⟨s,.refl s,h⟩
  | succ m ih =>
      obtain ⟨u,hu,hturn⟩ := turn_down h hrow (by omega)
      obtain ⟨v,huv,hv⟩ := ih hu (by omega)
      rw [show selected+1+m = selected+(m+1) by omega] at hv
      exact ⟨v,.head hturn huv,hv⟩

/-- A press acts like the keys that the ring has room for. -/
theorem turn_press (h : At choices px py row selected [] ((px,py)::presses) s)
    (hrow : RowShown render choices px py row) : ∃ u,
    At choices px py row selected ((rowKeys selected row).take 127) presses u ∧
      turn render s = turn render u := by
  obtain ⟨hdrawn,hclean,t,htree,hit,hhit,hkind,hrowAt⟩ := h.draw hrow
  set d := draw render s
  have hkeys : pressKeys py hit = rowKeys selected row := by
    have hpos : (0 : ℤ) < choices.length := by have := h.lt; omega
    rw [pressKeys,hkind]
    dsimp only
    rw [if_pos hpos,hrowAt]
  set u : Desk := { d with eventQueue := synthesizeKeyEvents d.eventQueue (some hit) py,
                           presses := presses }
  have hcontents : u.eventQueue.contents = (rowKeys selected row).take 127 := by
    change ((pressKeys py hit).foldl enqueueEvent d.eventQueue).contents = _
    rw [contents_enqueueAll,hkeys,hdrawn.keys_eq,List.nil_append]
  refine ⟨u,⟨hdrawn.choices_eq,hdrawn.selected_eq,hcontents,rfl,h.lt,
    .inr ⟨t,htree,hit,hhit,hkind,hrowAt⟩⟩,?_⟩
  cases hlist : (rowKeys selected row).take 127 with
  | nil =>
      have := congrArg List.length hlist
      rw [List.length_take,length_rowKeys,List.length_nil] at this
      omega
  | cons ev rest =>
      have hmem : ev ∈ rowKeys selected row := List.mem_of_mem_take (hlist ▸ List.mem_cons_self)
      have hev := ne_none_of_mem_rowKeys hmem
      obtain ⟨p,hp,-⟩ := dequeue_cons (hcontents.trans hlist)
      have hstart : gcoreBackendNextEvent d = (ev,{ u with eventQueue := p }) := by
        have hbind : d.renderTree.bind (hitTest px py 0 0) = some hit := by
          rw [htree]
          exact hhit
        rw [gcoreBackendNextEvent,dequeue_nil hdrawn.keys_eq]
        simp only [ne_eq,not_true_eq_false,if_false,hdrawn.presses_eq,hbind]
        exact congrArg (fun r : Event × EventQueue =>
          (r.1,({ d with eventQueue := r.2, presses := presses } : Desk))) hp
      have hwaiting : gcoreBackendNextEvent (draw render u) = (ev,{ u with eventQueue := p }) := by
        have hdraw : draw render u = u := by
          rw [draw,if_neg (Bool.eq_false_iff.mp hclean)]
        rw [hdraw,gcoreBackendNextEvent,hp]
        simp only [ne_eq,hev,not_false_eq_true,if_true]
      rw [turn,turn,hstart,hwaiting]

/-- How far the selection is from the row. -/
def distance (selected row : ℕ) : ℕ := ((row : ℤ)-selected).natAbs

theorem press_near {c : Bytes} (h : At choices px py row selected [] ((px,py)::presses) s)
    (hrow : RowShown render choices px py row) (hc : choices[row]? = some c)
    (hnear : distance selected row < 127) :
    Returns (turn render) s (some ⟨some (.string c),false,none⟩) := by
  obtain ⟨u,hu,hturn⟩ := turn_press h hrow
  have hlt : row < choices.length := (List.getElem?_eq_some_iff.mp hc).1
  have hshort : (rowKeys selected row).length ≤ 127 := by
    rw [length_rowKeys]
    exact hnear
  rw [List.take_of_length_le hshort] at hu
  obtain ⟨v,huv,hv⟩ : ∃ v, Reaches (turn render) u v ∧
      At choices px py row row [.key .keyEnter 0] presses v := by
    rcases Nat.le_total selected row with hle | hle
    · obtain ⟨m,rfl⟩ := Nat.exists_eq_add_of_le hle
      rw [rowKeys_down] at hu
      exact moves_down m hu hrow hlt
    · obtain ⟨m,rfl⟩ := Nat.exists_eq_add_of_le hle
      rw [rowKeys_up] at hu
      exact moves_up m hu hrow
  rw [returns_congr hturn,huv.returns_iff]
  exact returns_of_returned (turn_enter hv hrow hc)

theorem take_moves {m : ℕ} (h : 127 ≤ m) (ev : Event) (keys : List Event) :
    (List.replicate m ev++keys).take 127 = List.replicate 127 ev := by
  rw [List.take_append_of_le_length (by rwa [List.length_replicate]),List.take_replicate,
    Nat.min_eq_left h]

/-- A press that is too far away brings the selection nearer. -/
theorem press_far (h : At choices px py row selected [] ((px,py)::presses) s)
    (hrow : RowShown render choices px py row) (hlt : row < choices.length)
    (hfar : 127 ≤ distance selected row) : ∃ u v,
    Reaches (turn render) s u ∧ At choices px py row v [] presses u ∧
      distance v row+127 = distance selected row := by
  obtain ⟨u,hu,hturn⟩ := turn_press h hrow
  unfold distance at hfar ⊢
  obtain ⟨v,w,huw,hw,hdistance⟩ : ∃ v w, Reaches (turn render) u w ∧
      At choices px py row v [] presses w ∧
      ((row : ℤ)-v).natAbs+127 = ((row : ℤ)-selected).natAbs := by
    rcases Nat.le_total selected row with hle | hle
    · obtain ⟨m,rfl⟩ := Nat.exists_eq_add_of_le hle
      rw [rowKeys_down,take_moves (by omega),← List.append_nil (List.replicate 127 _)] at hu
      obtain ⟨w,huw,hw⟩ := moves_down 127 hu hrow (by omega)
      exact ⟨selected+127,w,huw,hw,by omega⟩
    · obtain ⟨m,rfl⟩ : ∃ m, selected = row+m+127 := ⟨selected-row-127,by omega⟩
      rw [Nat.add_assoc row m 127,rowKeys_up,take_moves (by omega),
        ← List.append_nil (List.replicate 127 _),← Nat.add_assoc row m 127] at hu
      obtain ⟨w,huw,hw⟩ := moves_up 127 hu hrow
      exact ⟨row+m,w,huw,hw,by omega⟩
  refine ⟨w,v,huw.of_congr hturn ?_,hw,hdistance⟩
  rintro rfl
  have hkeys := congrArg List.length (hu.keys_eq.symm.trans hw.keys_eq)
  rw [List.length_take,length_rowKeys,List.length_nil] at hkeys
  omega

/-- With nothing to read the menu waits. -/
theorem waits (h : At choices px py row selected [] [] s)
    (hrow : RowShown render choices px py row) : ∃ u,
    turn render s = .next u ∧ At choices px py row selected [] [] u := by
  obtain ⟨hdrawn,-⟩ := h.draw hrow
  have hnext : gcoreBackendNextEvent (draw render s) = (.none,draw render s) := by
    rw [gcoreBackendNextEvent,dequeue_nil hdrawn.keys_eq]
    simp only [ne_eq,not_true_eq_false,if_false]
    split
    · rfl
    · next hpresses =>
        rw [hdrawn.presses_eq] at hpresses
        cases hpresses
  refine ⟨draw render s,?_,hdrawn⟩
  rw [turn,hnext]
  rfl

/-- A row that is pressed again and again is answered as soon as the presses before have
brought the selection within 127 rows of it, and by no press before that. -/
theorem presses_answered_iff {c : Bytes} {k : ℕ}
    (h : At choices px py row selected [] (List.replicate k (px,py)) s)
    (hrow : RowShown render choices px py row) (hc : choices[row]? = some c)
    (r : Option WidgetResponse) :
    Returns (turn render) s r ↔
      distance selected row/127 < k ∧ r = some ⟨some (.string c),false,none⟩ := by
  have hlt : row < choices.length := (List.getElem?_eq_some_iff.mp hc).1
  induction k generalizing s selected with
  | zero =>
      exact iff_of_false (not_returns (fun t ht => waits ht hrow) h r)
        fun hk => absurd hk.1 (Nat.not_lt_zero _)
  | succ k ih =>
      rcases Nat.lt_or_ge (distance selected row) 127 with hnear | hfar
      · have hanswer := press_near h hrow hc hnear
        constructor
        · exact fun hr => ⟨by omega,hr.unique hanswer⟩
        · rintro ⟨-,rfl⟩
          exact hanswer
      · obtain ⟨u,v,hreach,hu,hdistance⟩ := press_far h hrow hlt hfar
        refine hreach.returns_iff.trans ((ih hu).trans (and_congr_left fun _ => ?_))
        omega

end

def tenHigh : RowStyle := ⟨10,0,0,0,0⟩

/-- A menu that fills its window. -/
def window (d : SelectData) : ClickTree :=
  .mk .container ⟨0,0,100,3000⟩ tenHigh
    [.mk (.list d.choices.length d.selected) ⟨0,0,100,3000⟩ tenHigh []]

/-- A menu with nothing selected before. -/
def deskStart (choices : List Bytes) (presses : List (ℤ × ℤ)) : Desk where
  menu := menuWidgetNew none none choices 0
  renderTree := none
  eventQueue := ⟨fun _ => .none,⟨0,by decide⟩,⟨0,by decide⟩⟩
  presses := presses

theorem at_start {choices : List Bytes} (h : choices ≠ []) (px py : ℤ) (row : ℕ)
    (presses : List (ℤ × ℤ)) : At choices px py row 0 [] presses (deskStart choices presses) := by
  refine ⟨rfl,?_,(contents_eq_nil_iff _).mpr rfl,rfl,List.length_pos_of_ne_nil h,.inl rfl⟩
  change defaultIndex choices 0 = 0
  rw [defaultIndex]
  split_ifs
  all_goals rfl

theorem rowShown_window {choices : List Bytes} {row : ℕ} {py : ℤ} (hpy : 0 ≤ py ∧ py < 3000)
    (hrow : rowAt tenHigh choices.length py = row) : RowShown window choices 5 py row := by
  intro d hd _
  have hover : ∀ t, hitTest 5 py 0 0 (.mk (.list d.choices.length d.selected) ⟨0,0,100,3000⟩
      tenHigh t) = some ⟨.mk (.list d.choices.length d.selected) ⟨0,0,100,3000⟩ tenHigh t,0,0⟩ := by
    intro t
    rw [hitTest]
    dsimp only
    rw [if_neg (by simp only [Misses]; omega)]
    rfl
  refine ⟨⟨.mk (.list d.choices.length d.selected) ⟨0,0,100,3000⟩ tenHigh [],0,0⟩,?_,?_,?_⟩
  · rw [window,hitTest]
    dsimp only
    rw [if_neg (by simp only [Misses]; omega)]
    simp [Kind.holds,hitLast,hover]
  · rw [hd]
    rfl
  · rw [Int.sub_zero]
    exact hrow

/-- Row 254 of 300 is answered by the third press. -/
theorem third_press_answered :
    (∀ r, ¬Returns (turn window)
        (deskStart (List.replicate 300 (bytes "x")) (List.replicate 2 (5,2545))) r) ∧
      Returns (turn window)
        (deskStart (List.replicate 300 (bytes "x")) (List.replicate 3 (5,2545)))
        (some ⟨some (.string (bytes "x")),false,none⟩) := by
  have hne : List.replicate 300 (bytes "x") ≠ [] := List.cons_ne_nil _ _
  have hc : (List.replicate 300 (bytes "x"))[254]? = some (bytes "x") :=
    List.getElem?_replicate_of_lt (by decide)
  have hrow : RowShown window (List.replicate 300 (bytes "x")) 5 2545 254 :=
    rowShown_window (by decide) (by rw [List.length_replicate]; decide)
  constructor
  · intro r hr
    exact absurd ((presses_answered_iff (at_start hne 5 2545 254 _) hrow hc r).mp hr).1 (by decide)
  · exact (presses_answered_iff (at_start hne 5 2545 254 _) hrow hc _).mpr ⟨by decide,rfl⟩

end Filly.Clicks

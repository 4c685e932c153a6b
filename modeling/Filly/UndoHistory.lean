import Filly.Undo

/-!
# The undo stack against the pair of lists it stands for

The intended meaning of the stack is a pair of lists, newest action first on
both sides. The linked list simulates the pair exactly as long as every push is
*careful*: something is left to undo or nothing to redo, and the counter, which
the source never lowers when a push throws the redo side away, has not run
ahead of the list. A push that is not careful either dereferences the null
`current` or trims an action that should have stayed, so the simulation holds
along a run if and only if all its pushes are careful.
-/
namespace Filly.Undo
open LinkedChain

variable {δ : Type}

/-! ## The pair of lists -/

structure History (δ : Type) where
  undo : List (Action δ) := []
  redo : List (Action δ) := []
  /-- Pushes since the last clear. -/
  pushes : ℕ := 0
  calls : List (Call δ) := []

def History.step (m : ℕ) (s : History δ) : Command δ → History δ
  | .push x => { s with undo := (x.action::s.undo).take m, redo := [], pushes := s.pushes+1 }
  | .undo =>
      match s.undo with
      | [] => s
      | x::u => { s with undo := u, redo := x::s.redo, calls := s.calls++[.undo x.data] }
  | .redo =>
      match s.redo with
      | [] => s
      | x::r => { s with undo := x::s.undo, redo := r, calls := s.calls++[.redo x.data] }
  | .clear => { s with undo := [], redo := [], pushes := 0 }

def History.run (m : ℕ) (s : History δ) (cs : List (Command δ)) : History δ :=
  cs.foldl (History.step m) s

/-- A push is careful when it is made with something left to undo or nothing
to redo, and with fewer than `m` pushes since the last clear or with the undo
list at its full length. -/
def PushCareful (m : ℕ) (s : History δ) : Prop :=
  (s.undo ≠ [] ∨ s.redo = []) ∧ (s.pushes < m ∨ s.undo.length = m)

def CommandCareful (m : ℕ) (s : History δ) : Command δ → Prop
  | .push _ => PushCareful m s
  | _ => True

/-- Every push of the run is careful in the state it is made in. -/
def Careful (m : ℕ) : History δ → List (Command δ) → Prop
  | _, [] => True
  | s, c::cs => CommandCareful m s c ∧ Careful m (s.step m c) cs

/-! ## The layout of the heap -/

/-- `U` is the undo side, oldest first, and `R` the redo side of one chain. -/
structure Layout (w : World δ) (U R : List (ℕ × Action δ)) : Prop where
  chain : Chain w.mem none (U++R) none
  nodup : (addresses (U++R)).Nodup
  head : w.stack.head = first (U++R)
  current : w.stack.current = last U
  bound : ∀ a ∈ addresses (U++R), a < w.fresh

/-- The heap determines the two sides. -/
theorem Layout.unique {w : World δ} {U R V S : List (ℕ × Action δ)}
    (h : Layout w U R) (k : Layout w V S) : U = V ∧ R = S := by
  have he : U++R = V++S := h.chain.unique k.chain (h.head.symm.trans k.head)
  have hc : last U = last V := h.current.symm.trans k.current
  rcases List.append_eq_append_iff.mp he with ⟨E,rfl,rfl⟩ | ⟨E,rfl,rfl⟩
  · have hn := h.nodup
    rw [← List.append_assoc,addresses_append] at hn
    obtain rfl := eq_nil_of_last_append hn.of_append_left hc
    simp
  · have hn := k.nodup
    rw [← List.append_assoc,addresses_append] at hn
    obtain rfl := eq_nil_of_last_append hn.of_append_left hc.symm
    simp

theorem Layout.congr {w w' : World δ} {U R : List (ℕ × Action δ)} (h : Layout w U R)
    (hm : w'.mem = w.mem) (hh : w'.stack.head = w.stack.head)
    (hc : w'.stack.current = w.stack.current) (hf : w.fresh ≤ w'.fresh) : Layout w' U R where
  chain := hm ▸ h.chain
  nodup := h.nodup
  head := hh.trans h.head
  current := hc.trans h.current
  bound := fun a ha => (h.bound a ha).trans_le hf

/-- Freeing or allocating a cell outside the list keeps the layout. -/
theorem Layout.update {w w' : World δ} {U R : List (ℕ × Action δ)} {a : ℕ}
    {c : Option (WidgetAction δ)} (h : Layout w U R) (ha : a ∉ addresses (U++R))
    (hm : w'.mem = Function.update w.mem a c) (hs : w'.stack = w.stack)
    (hf : w.fresh ≤ w'.fresh) : Layout w' U R where
  chain := hm ▸ h.chain.update ha
  nodup := h.nodup
  head := hs ▸ h.head
  current := hs ▸ h.current
  bound := fun b hb => (h.bound b hb).trans_le hf

/-- The loop at the top of a push leaves exactly the undo side, provided there
is one; the freed cell is the first of the redo side, the others are lost. -/
theorem dropNext_spec {w : World δ} {U R : List (ℕ × Action δ)} (h : Layout w U R)
    (hU : U ≠ [] ∨ R = []) : ∃ w', dropNext w = some w' ∧ Layout w' U [] ∧
      w'.stack = w.stack ∧ w'.fresh = w.fresh ∧ w'.calls = w.calls ∧
      ∀ a ∉ addresses (U++R), w'.mem a = w.mem a := by
  obtain rfl | ⟨V,⟨c,x⟩,rfl⟩ := List.eq_nil_or_concat' U
  · obtain rfl : R = [] := hU.resolve_left (by simp)
    have hc : w.stack.current = none := h.current
    exact ⟨w,by rw [dropNext,hc],h,rfl,rfl,rfl,fun _ _ => rfl⟩
  · have hc : w.stack.current = some c := by simpa using h.current
    have hch := (chain_append _ _ _ _ _).mp h.chain
    have hm := hch.1.last_cell
    cases R with
    | nil =>
        refine ⟨w,?_,h,rfl,rfl,rfl,fun _ _ => rfl⟩
        simp only [first_nil,Option.or_none] at hm
        simp only [dropNext,hc,hm,Option.bind_eq_bind,Option.bind_some]
    | cons b R =>
        obtain ⟨t,y⟩ := b
        simp only [first_cons,Option.some_or] at hm
        have hn := h.nodup
        rw [addresses_append] at hn
        have htU : t ∉ addresses (V++[(c,x)]) := fun ht =>
          (List.nodup_append.mp hn).2.2 t ht t (by simp) rfl
        have hcV : c ∉ addresses V := by
          have hv := hn.of_append_left
          rw [addresses_append] at hv
          exact fun hv' => (List.nodup_append.mp hv).2.2 c hv' c (by simp) rfl
        have htc : t ≠ c := fun he => htU (by simp [he])
        have ht : w.mem t = some ⟨y,some c,(first R).or none⟩ := by
          simpa using hch.2.1
        have hd : dropNext w = some (release (store w c ⟨x,(last V).or none,none⟩) t
            ⟨y,none,(first R).or none⟩) := by
          simp only [dropNext,hc,hm,store,Option.bind_eq_bind,Option.bind_some,
            Function.update_of_ne htc,ht]
        refine ⟨_,hd,?_,rfl,rfl,rfl,?_⟩
        · refine ⟨?_,?_,?_,h.current,?_⟩
          · rw [List.append_nil]
            exact (hch.1.set_next hcV).update htU
          · rw [List.append_nil]
            exact hn.of_append_left
          · rw [List.append_nil]
            exact h.head.trans (by rw [first_append]; cases V <;> rfl)
          · intro a ha
            exact h.bound a (by rw [addresses_append]; exact List.mem_append_left _ (by simpa using ha))
        · intro a ha
          rw [addresses_append,addresses_append] at ha
          simp only [addresses_cons,addresses_nil,List.mem_append,List.mem_cons,
            List.not_mem_nil,or_false,not_or] at ha
          change Function.update (Function.update w.mem c _) t none a = w.mem a
          rw [Function.update_of_ne ha.2.1,Function.update_of_ne ha.1.2]

/-- Appending the new cell behind the last undo cell. -/
theorem link_spec {w : World δ} {U : List (ℕ × Action δ)} {a : ℕ} {x : Action δ}
    (h : Layout w U []) (ha : a ∉ addresses U) (hlt : a < w.fresh)
    (hx : w.mem a = some ⟨x,none,none⟩) : ∃ w', link w a = some w' ∧
      Layout w' (U++[(a,x)]) [] ∧ w'.stack.depth = w.stack.depth ∧
      w'.stack.maxDepth = w.stack.maxDepth ∧ w'.fresh = w.fresh ∧ w'.calls = w.calls := by
  obtain rfl | ⟨V,⟨c,y⟩,rfl⟩ := List.eq_nil_or_concat' U
  · have hh : w.stack.head = none := by simpa using h.head
    have hl : link w a = some { w with stack := { w.stack with
        head := some a, tail := some a, current := some a } } := by
      simp only [link,hh]
    refine ⟨_,hl,⟨?_,?_,rfl,rfl,?_⟩,rfl,rfl,rfl,rfl⟩
    · exact ⟨by simpa using hx,trivial⟩
    · simp
    · simpa using hlt
  · have hc : w.stack.current = some c := by simpa using h.current
    obtain ⟨e,he⟩ : ∃ e, w.stack.head = some e := by
      rw [h.head]
      cases V <;> simp [first]
    have hcha : Chain w.mem none (V++[(c,y)]) none := by simpa using h.chain
    have hm := hcha.last_cell
    have hn : (addresses (V++[(c,y)])).Nodup := by simpa using h.nodup
    have hcV : c ∉ addresses V := by
      rw [addresses_append] at hn
      exact fun hv => (List.nodup_append.mp hn).2.2 c hv c (by simp) rfl
    have hac : a ≠ c := fun h' => ha (by simp [h'])
    let w₁ := store (store w c ⟨y,(last V).or none,some a⟩) a ⟨x,some c,none⟩
    have hl : link w a =
        some { w₁ with stack := { w.stack with current := some a, tail := some a } } := by
      simp only [link,he,hc,hm,store,w₁,Option.bind_eq_bind,Option.bind_some,
        Function.update_of_ne hac,hx]
    refine ⟨_,hl,⟨?_,?_,?_,?_,?_⟩,rfl,rfl,rfl,rfl⟩
    · rw [List.append_nil,chain_append]
      refine ⟨(hcha.set_next hcV).update ha,?_,trivial⟩
      simp [w₁,store]
    · rw [List.append_nil,addresses_append,List.nodup_append]
      refine ⟨hn,by simp,?_⟩
      intro b hb d hd
      obtain rfl : d = a := by simpa using hd
      exact fun hbd => ha (hbd ▸ hb)
    · rw [List.append_nil,first_append]
      exact h.head.trans (by rw [List.append_nil]; cases V <;> rfl)
    · rw [last_append_singleton]
    · intro b hb
      rw [List.append_nil,addresses_append,List.mem_append] at hb
      rcases hb with hb | hb
      · exact h.bound b (by simpa using hb)
      · obtain rfl : b = a := by simpa using hb
        exact hlt

/-- One turn of the trimming loop on a list of at least two cells. -/
theorem dropHead_spec {w : World δ} {e f : ℕ} {x y : Action δ} {U : List (ℕ × Action δ)}
    (h : Layout w ((e,x)::(f,y)::U) []) : ∃ w', dropHead w = some w' ∧
      Layout w' ((f,y)::U) [] ∧ w'.stack.depth = w.stack.depth-1 ∧
      w'.stack.maxDepth = w.stack.maxDepth ∧ w'.fresh = w.fresh ∧ w'.calls = w.calls := by
  have hh : w.stack.head = some e := by simpa using h.head
  have hch : Chain w.mem none ((e,x)::(f,y)::U) none := by simpa using h.chain
  have he : w.mem e = some ⟨x,none,some f⟩ := hch.1
  have hf : w.mem f = some ⟨y,some e,(first U).or none⟩ := hch.2.1
  have hn : (e::f::addresses U).Nodup := by simpa using h.nodup
  let w₁ := store w f ⟨y,none,(first U).or none⟩
  let w₂ := { w₁ with stack := { w.stack with head := some f, depth := w.stack.depth-1 } }
  have hd : dropHead w = some (release w₂ e ⟨x,none,some f⟩) := by
    simp only [dropHead,hh,he,hf,store,w₁,w₂,Option.bind_eq_bind,Option.bind_some]
  refine ⟨_,hd,⟨?_,?_,rfl,?_,?_⟩,rfl,rfl,rfl,rfl⟩
  · rw [List.append_nil]
    exact (hch.2.set_prev (List.nodup_cons.mp (List.nodup_cons.mp hn).2).1).update
      (List.nodup_cons.mp hn).1
  · simpa using (List.nodup_cons.mp hn).2
  · exact h.current.trans (last_cons_cons _ _ _)
  · intro a ha
    exact h.bound a (by simpa using Or.inr (by simpa using ha))

/-! ## Agreement and the invariant -/

/-- The heap holds the two lists and the callbacks were called as intended. -/
structure Matches (w : World δ) (s : History δ) (U R : List (ℕ × Action δ)) : Prop where
  layout : Layout w U R
  undo : s.undo = (U.map Prod.snd).reverse
  redo : s.redo = R.map Prod.snd
  calls : w.calls = s.calls

/-- What a user of the stack can tell: the lists, the calls and both peeks. -/
structure Agrees (w : World δ) (s : History δ) : Prop where
  lists : ∃ U R, Matches w s U R
  peekUndo : undoStackPeekUndo w = some (s.undo.head?.map Action.description)
  peekRedo : undoStackPeekRedo w = some (s.redo.head?.map Action.description)

/-- The invariant of careful runs: agreement, the counter as the source keeps
it, and what makes the careful condition meaningful. -/
structure Rep (m : ℕ) (w : World δ) (s : History δ) (U R : List (ℕ × Action δ)) : Prop
    extends Matches w s U R where
  maxDepth : w.stack.maxDepth = m
  depth : w.stack.depth = min s.pushes m
  room : U.length+R.length ≤ min s.pushes m
  empty : U++R = [] → s.pushes = 0
  callable : ∀ x ∈ U++R, x.2.undo = true ∧ x.2.redo = true

theorem Matches.peekUndo {w : World δ} {s : History δ} {U R : List (ℕ × Action δ)}
    (h : Matches w s U R) :
    undoStackPeekUndo w = some (s.undo.head?.map Action.description) := by
  obtain rfl | ⟨V,⟨c,x⟩,rfl⟩ := List.eq_nil_or_concat' U
  · have hc : w.stack.current = none := h.layout.current
    rw [undoStackPeekUndo,hc,h.undo]
    rfl
  · have hc : w.stack.current = some c := by simpa using h.layout.current
    have hm := ((chain_append _ _ _ _ _).mp h.layout.chain).1.last_cell
    rw [h.undo]
    simp [undoStackPeekUndo,hc,hm]

/-- Where a redo looks: the first cell of the redo side. -/
theorem Layout.redoTarget {w : World δ} {U R : List (ℕ × Action δ)} (h : Layout w U R) :
    redoTarget w = some (first R) := by
  obtain rfl | ⟨V,⟨c,x⟩,rfl⟩ := List.eq_nil_or_concat' U
  · have hc : w.stack.current = none := h.current
    simp only [Undo.redoTarget,hc,h.head,List.nil_append]
  · have hc : w.stack.current = some c := by simpa using h.current
    have hm := ((chain_append _ _ _ _ _).mp h.chain).1.last_cell
    simp [Undo.redoTarget,hc,hm]

theorem Layout.redo_cell {w : World δ} {U R : List (ℕ × Action δ)} {t : ℕ} {x : Action δ}
    (h : Layout w U ((t,x)::R)) : ∃ p, w.mem t = some ⟨x,p,(first R).or none⟩ :=
  ⟨_,((chain_append _ _ _ _ _).mp h.chain).2.1⟩

theorem Matches.peekRedo {w : World δ} {s : History δ} {U R : List (ℕ × Action δ)}
    (h : Matches w s U R) :
    undoStackPeekRedo w = some (s.redo.head?.map Action.description) := by
  cases R with
  | nil => simp [undoStackPeekRedo,h.layout.redoTarget,h.redo]
  | cons b R =>
      obtain ⟨t,x⟩ := b
      obtain ⟨p,hp⟩ := h.layout.redo_cell
      simp [undoStackPeekRedo,h.layout.redoTarget,h.redo,hp]

theorem Matches.agrees {w : World δ} {s : History δ} {U R : List (ℕ × Action δ)}
    (h : Matches w s U R) : Agrees w s := ⟨⟨U,R,h⟩,h.peekUndo,h.peekRedo⟩

/-! ## One step -/

/-- A call moves the border between the two sides, and the cells stay where they are. -/
theorem Rep.shift {m : ℕ} {w : World δ} {s : History δ} {U R V S : List (ℕ × Action δ)}
    (h : Rep m w s U R) (hl : V++S = U++R) (call : Call δ) :
    Rep m { w with calls := w.calls++[call], stack := { w.stack with current := last V } }
      { s with undo := (V.map Prod.snd).reverse, redo := S.map Prod.snd,
               calls := s.calls++[call] } V S where
  layout :=
    { chain := hl ▸ h.layout.chain, nodup := hl ▸ h.layout.nodup
      head := hl ▸ h.layout.head, current := rfl
      bound := fun a ha => h.layout.bound a (by rw [← hl]; exact ha) }
  undo := rfl
  redo := rfl
  calls := by simp [h.calls]
  maxDepth := h.maxDepth
  depth := h.depth
  room := by
    have hroom := h.room
    have hlength := congrArg List.length hl
    rw [List.length_append,List.length_append] at hlength
    dsimp only
    omega
  empty := fun he => h.empty (hl.symm.trans he)
  callable := fun y hy => h.callable y (by rw [← hl]; exact hy)

theorem undo_step {m : ℕ} {w : World δ} {s : History δ} {U R : List (ℕ × Action δ)}
    (h : Rep m w s U R) : ∃ w' U' R', perform w .undo = some w' ∧
      Rep m w' (s.step m .undo) U' R' := by
  obtain rfl | ⟨V,⟨c,x⟩,rfl⟩ := List.eq_nil_or_concat' U
  · have hc : w.stack.current = none := h.layout.current
    have hs : s.step m .undo = s := by
      have hu : s.undo = [] := h.undo
      simp only [History.step,hu]
    exact ⟨w,[],R,by simp [perform,undoStackUndo,hc],by rw [hs]; exact h⟩
  · have hc : w.stack.current = some c := by simpa using h.layout.current
    have hm := ((chain_append _ _ _ _ _).mp h.layout.chain).1.last_cell
    have hx : x.undo = true := (h.callable (c,x) (by simp)).1
    have hu : s.undo = x::(V.map Prod.snd).reverse := by rw [h.undo]; simp
    have hp : perform w .undo = some { w with
        calls := w.calls++[.undo x.data], stack := { w.stack with current := last V } } := by
      simp [perform,undoStackUndo,hc,hm,hx]
    have hs : s.step m .undo = { s with
        undo := (V.map Prod.snd).reverse, redo := ((c,x)::R).map Prod.snd,
        calls := s.calls++[.undo x.data] } := by
      simp only [History.step,hu,h.redo,List.map_cons]
    rw [hs]
    exact ⟨_,V,(c,x)::R,hp,h.shift (by simp) _⟩

theorem redo_step {m : ℕ} {w : World δ} {s : History δ} {U R : List (ℕ × Action δ)}
    (h : Rep m w s U R) : ∃ w' U' R', perform w .redo = some w' ∧
      Rep m w' (s.step m .redo) U' R' := by
  cases R with
  | nil =>
      have hs : s.step m .redo = s := by
        have hr : s.redo = [] := h.redo
        simp only [History.step,hr]
      exact ⟨w,U,[],by simp [perform,undoStackRedo,h.layout.redoTarget],by rw [hs]; exact h⟩
  | cons b R =>
      obtain ⟨t,x⟩ := b
      obtain ⟨p,hm⟩ := h.layout.redo_cell
      have hx : x.redo = true := (h.callable (t,x) (by simp)).2
      have hr : s.redo = x::R.map Prod.snd := h.redo
      have hp : perform w .redo = some { w with
          calls := w.calls++[.redo x.data],
          stack := { w.stack with current := last (U++[(t,x)]) } } := by
        simp [perform,undoStackRedo,h.layout.redoTarget,hm,hx]
      have hs : s.step m .redo = { s with
          undo := ((U++[(t,x)]).map Prod.snd).reverse, redo := R.map Prod.snd,
          calls := s.calls++[.redo x.data] } := by
        simp only [History.step,hr]
        simp [h.undo]
      rw [hs]
      exact ⟨_,U++[(t,x)],R,hp,h.shift (by simp) _⟩

theorem clearFrom_spec {w : World δ} {p : Option ℕ} {l : List (ℕ × Action δ)} {n : ℕ}
    (h : Chain w.mem p l none) (hn : (addresses l).Nodup) (hl : l.length ≤ n) :
    ∃ w', clearFrom n (first l) w = some w' ∧ w'.stack = w.stack ∧ w'.calls = w.calls := by
  induction l generalizing w p n with
  | nil => exact ⟨w,by cases n <;> rfl,rfl,rfl⟩
  | cons b l ih =>
      obtain ⟨a,x⟩ := b
      obtain ⟨n,rfl⟩ : ∃ k, n = k+1 := ⟨n-1,by simp at hl; omega⟩
      rw [addresses_cons,List.nodup_cons] at hn
      have hm : w.mem a = some ⟨x,p,first l⟩ := by simpa using h.1
      have hk : Chain (release w a ⟨x,p,first l⟩).mem (some a) l none := h.2.update hn.1
      obtain ⟨w',he,hs,hc⟩ := ih hk hn.2 (by simpa using hl)
      refine ⟨w',?_,hs,hc⟩
      simpa only [first_cons,clearFrom,hm,Option.bind_eq_bind,Option.bind_some] using he

theorem clear_step {m : ℕ} {w : World δ} {s : History δ} {U R : List (ℕ × Action δ)}
    (h : Rep m w s U R) : ∃ w' U' R', perform w .clear = some w' ∧
      Rep m w' (s.step m .clear) U' R' := by
  have hlen : (U++R).length ≤ w.fresh := by
    have hs : addresses (U++R) ⊆ List.range w.fresh :=
      fun a ha => List.mem_range.mpr (h.layout.bound a ha)
    simpa [addresses] using (h.layout.nodup.subperm hs).length_le
  obtain ⟨w₁,hw,hs,hc⟩ := clearFrom_spec h.layout.chain h.layout.nodup hlen
  rw [← h.layout.head] at hw
  have hp : perform w .clear = some { w₁ with stack := { w₁.stack with
      head := none, current := none, tail := none, depth := 0 } } := by
    simp [perform,undoStackClear,hw]
  refine ⟨_,[],[],hp,?_⟩
  exact
    { layout := ⟨trivial,by simp,rfl,rfl,by simp⟩
      undo := rfl
      redo := rfl
      calls := hc.trans h.calls
      maxDepth := (congrArg UndoStack.maxDepth hs).trans h.maxDepth
      depth := (Nat.zero_min m).symm
      room := Nat.zero_le _
      empty := fun _ => rfl
      callable := by simp }

/-- What a push leaves in the heap when it does not fault. The oldest action
goes as soon as the counter stands at its limit, whatever the list holds. -/
theorem undoStackPush_layout {w : World δ} {U R : List (ℕ × Action δ)} (h : Layout w U R)
    (hU : U ≠ [] ∨ R = []) (hd : w.stack.depth ≤ w.stack.maxDepth)
    (hf : w.stack.depth = w.stack.maxDepth → U ≠ []) (x : Action δ) :
    ∃ w', undoStackPush (alloc w x).2 (alloc w x).1 = some w' ∧
      Layout w' ((U++[(w.fresh,x)]).drop
        (if w.stack.depth < w.stack.maxDepth then 0 else 1)) [] ∧
      w'.stack.depth = min (w.stack.depth+1) w.stack.maxDepth ∧
      w'.stack.maxDepth = w.stack.maxDepth ∧ w'.calls = w.calls := by
  have hnew : w.fresh ∉ addresses (U++R) := fun ha => (h.bound _ ha).ne rfl
  have h₁ : Layout (alloc w x).2 U R := h.update hnew rfl rfl (Nat.le_succ _)
  obtain ⟨w₂,e₂,h₂,hs₂,hf₂,hc₂,hm₂⟩ := dropNext_spec h₁ hU
  have hx : w₂.mem w.fresh = some ⟨x,none,none⟩ := by
    rw [hm₂ _ hnew]
    exact Function.update_self ..
  have hnU : w.fresh ∉ addresses U := fun ha =>
    hnew (by rw [addresses_append]; exact List.mem_append_left _ ha)
  obtain ⟨w₃,e₃,h₃,hd₃,hx₃,-,hc₃⟩ := link_spec h₂ hnU (by rw [hf₂]; exact Nat.lt_succ_self _) hx
  let w₄ : World δ := { w₃ with stack := { w₃.stack with depth := w₃.stack.depth+1 } }
  have h₄ : Layout w₄ (U++[(w.fresh,x)]) [] := h₃.congr rfl rfl rfl (Nat.le_refl _)
  have hd₄ : w₄.stack.depth = w.stack.depth+1 := by
    change w₃.stack.depth+1 = _
    rw [hd₃,hs₂]
    rfl
  have hx₄ : w₄.stack.maxDepth = w.stack.maxDepth := by
    change w₃.stack.maxDepth = _
    rw [hx₃,hs₂]
    rfl
  have hc₄ : w₄.calls = w.calls := hc₃.trans hc₂
  have hp : undoStackPush (alloc w x).2 (alloc w x).1 =
      trim (w.stack.depth+1-w.stack.maxDepth) w₄ := by
    rw [← hd₄,← hx₄]
    simp only [undoStackPush,Option.bind_eq_bind]
    rw [e₂,Option.bind_some,show (alloc w x).1 = w.fresh from rfl,e₃]
    rfl
  rcases Nat.lt_or_eq_of_le hd with hlt | heq
  · refine ⟨w₄,?_,?_,?_,hx₄,hc₄⟩
    · rw [hp,Nat.sub_eq_zero_of_le hlt]
      rfl
    · rw [if_pos hlt]
      exact h₄
    · rw [hd₄,Nat.min_eq_left hlt]
  · -- The counter is at its limit, so one turn of the trimming loop runs.
    obtain ⟨⟨e,y⟩,V,rfl⟩ := List.exists_cons_of_ne_nil (hf heq)
    obtain ⟨⟨f,z⟩,V',hV⟩ : ∃ b V', V++[(w.fresh,x)] = b::V' :=
      List.exists_cons_of_ne_nil (by simp)
    rw [List.cons_append,hV] at h₄
    obtain ⟨w₅,e₅,h₅,hd₅,hx₅,-,hc₅⟩ := dropHead_spec h₄
    refine ⟨w₅,?_,?_,?_,hx₅.trans hx₄,hc₅.trans hc₄⟩
    · rw [hp,heq,Nat.add_sub_cancel_left]
      simp only [trim,e₅,Option.bind_eq_bind,Option.bind_some]
    · rw [if_neg (by omega),List.cons_append,hV]
      exact h₅
    · rw [hd₅,hd₄,heq,Nat.add_sub_cancel,Nat.min_eq_right (Nat.le_succ _)]

theorem push_layout {w : World δ} {U R : List (ℕ × Action δ)} (h : Layout w U R)
    (hU : U ≠ [] ∨ R = []) (hd : w.stack.depth ≤ w.stack.maxDepth)
    (hf : w.stack.depth = w.stack.maxDepth → U ≠ []) (x : Undoable δ) :
    ∃ w', perform w (.push x) = some w' ∧
      Layout w' ((U++[(w.fresh,x.action)]).drop
        (if w.stack.depth < w.stack.maxDepth then 0 else 1)) [] ∧
      w'.stack.depth = min (w.stack.depth+1) w.stack.maxDepth ∧
      w'.stack.maxDepth = w.stack.maxDepth ∧ w'.calls = w.calls :=
  undoStackPush_layout h hU hd hf x.action

theorem Rep.depth_le {m : ℕ} {w : World δ} {s : History δ} {U R : List (ℕ × Action δ)}
    (h : Rep m w s U R) : w.stack.depth ≤ w.stack.maxDepth := by
  rw [h.depth,h.maxDepth]
  exact Nat.min_le_right _ _

theorem Rep.depth_lt_iff {m : ℕ} {w : World δ} {s : History δ} {U R : List (ℕ × Action δ)}
    (h : Rep m w s U R) : w.stack.depth < w.stack.maxDepth ↔ s.pushes < m := by
  rw [h.depth,h.maxDepth]
  omega

theorem Rep.ne_nil_of_full {m : ℕ} (hm : 0 < m) {w : World δ} {s : History δ}
    {U R : List (ℕ × Action δ)} (h : Rep m w s U R) (hU : U ≠ [] ∨ R = [])
    (hf : w.stack.depth = w.stack.maxDepth) : U ≠ [] := by
  rintro rfl
  obtain rfl : R = [] := hU.resolve_left (by simp)
  have hz := h.empty rfl
  have hd := h.depth
  have hx := h.maxDepth
  omega

theorem Rep.undo_length {m : ℕ} {w : World δ} {s : History δ} {U R : List (ℕ × Action δ)}
    (h : Rep m w s U R) : s.undo.length = U.length := by
  rw [h.undo,List.length_reverse,List.length_map]

theorem Rep.careful_iff {m : ℕ} {w : World δ} {s : History δ} {U R : List (ℕ × Action δ)}
    (h : Rep m w s U R) :
    PushCareful m s ↔ (U ≠ [] ∨ R = []) ∧ (s.pushes < m ∨ U.length = m) := by
  rw [PushCareful,h.undo_length,h.undo,h.redo]
  simp

/-- A careful push keeps the simulation. -/
theorem push_step {m : ℕ} (hm : 0 < m) {w : World δ} {s : History δ}
    {U R : List (ℕ × Action δ)} (h : Rep m w s U R) (x : Undoable δ) (hc : PushCareful m s) :
    ∃ w' U' R', perform w (.push x) = some w' ∧ Rep m w' (s.step m (.push x)) U' R' := by
  obtain ⟨hU,hlen⟩ := h.careful_iff.mp hc
  obtain ⟨w',he,hl,hd,hx,hcalls⟩ :=
    push_layout h.layout hU h.depth_le (h.ne_nil_of_full hm hU) x
  set k := if w.stack.depth < w.stack.maxDepth then 0 else 1 with hk
  set V := U++[(w.fresh,x.action)] with hV
  refine ⟨w',V.drop k,[],he,?_⟩
  have hroom := h.room
  have hkeep : (x.action::s.undo).take m = ((V.drop k).map Prod.snd).reverse := by
    have hrev : x.action::s.undo = (V.map Prod.snd).reverse := by simp [hV,h.undo]
    rw [hrev,List.map_drop,List.reverse_drop]
    have hVl : (V.map Prod.snd).length = U.length+1 := by simp [hV]
    by_cases hlt : s.pushes < m
    · rw [hk,if_pos (h.depth_lt_iff.mpr hlt),List.take_of_length_le (by simp [hV]; omega),
        List.take_of_length_le (by simp)]
    · rw [hk,if_neg (fun hn => hlt (h.depth_lt_iff.mp hn)),hVl,hlen.resolve_left hlt]
      rfl
  have hcall : ∀ y ∈ V, y.2.undo = true ∧ y.2.redo = true := by
    intro y hy
    rcases List.mem_append.mp hy with hy | hy
    · exact h.callable y (List.mem_append_left _ hy)
    · obtain rfl : y = _ := by simpa using hy
      exact ⟨x.undo,x.redo⟩
  have hVk : 0 < (V.drop k).length := by
    have hk1 : k = 0 ∨ (k = 1 ∧ U ≠ []) := by
      by_cases hlt : w.stack.depth < w.stack.maxDepth
      · exact .inl (by rw [hk,if_pos hlt])
      · exact .inr ⟨by rw [hk,if_neg hlt],
          h.ne_nil_of_full hm hU (Nat.le_antisymm h.depth_le (Nat.not_lt.mp hlt))⟩
    rcases hk1 with h0 | ⟨h1,hne⟩
    · simp [h0,hV]
    · have := List.length_pos_of_ne_nil hne
      simp [h1,hV]
      omega
  exact
    { layout := hl
      undo := hkeep
      redo := rfl
      calls := hcalls.trans h.calls
      maxDepth := hx.trans h.maxDepth
      depth := by
        rw [hd,h.depth,h.maxDepth]
        change min (min s.pushes m+1) m = min (s.pushes+1) m
        omega
      room := by
        change (V.drop k).length+0 ≤ min (s.pushes+1) m
        have hkm : s.pushes < m ∨ (k = 1 ∧ U.length = m) := by
          by_cases hlt : s.pushes < m
          · exact .inl hlt
          · exact .inr ⟨by rw [hk,if_neg (fun hn => hlt (h.depth_lt_iff.mp hn))],
              hlen.resolve_left hlt⟩
        simp only [hV,List.length_drop,List.length_append,List.length_singleton]
        omega
      empty := fun hz => by
        rw [List.append_nil] at hz
        simp [hz] at hVk
      callable := fun y hy => hcall y (List.mem_of_mem_drop (by simpa using hy)) }

/-- With everything undone and something to redo, a push dereferences the null
`current`. -/
theorem push_fault {w : World δ} {R : List (ℕ × Action δ)} (h : Layout w [] R) (hR : R ≠ [])
    (x : Undoable δ) : perform w (.push x) = none := by
  have hc : (alloc w x.action).2.stack.current = none := h.current
  obtain ⟨⟨a,y⟩,R,rfl⟩ := List.exists_cons_of_ne_nil hR
  have hh : (alloc w x.action).2.stack.head = some a := h.head
  simp [perform,undoStackPush,dropNext,link,hc,hh]

/-- A push that is not careful leaves the simulation. -/
theorem not_matches_of_push {m : ℕ} (hm : 0 < m) {w : World δ} {s : History δ}
    {U R : List (ℕ × Action δ)} (h : Rep m w s U R) (x : Undoable δ) (hc : ¬PushCareful m s)
    {w' : World δ} (he : perform w (.push x) = some w') {U' R' : List (ℕ × Action δ)} :
    ¬Matches w' (s.step m (.push x)) U' R' := by
  intro hw
  rw [h.careful_iff] at hc
  by_cases hU : U ≠ [] ∨ R = []
  · obtain ⟨w'',he',hl,-⟩ := push_layout h.layout hU h.depth_le (h.ne_nil_of_full hm hU) x
    obtain rfl : w'' = w' := Option.some.inj (he'.symm.trans he)
    have hfull : ¬s.pushes < m ∧ U.length ≠ m := by
      constructor <;> intro hn <;> exact hc ⟨hU,by tauto⟩
    rw [if_neg (fun hn => hfull.1 (h.depth_lt_iff.mp hn))] at hl
    have hu := hw.undo
    rw [← (hl.unique hw.layout).1] at hu
    have hlen := congrArg List.length hu
    have hroom := h.room
    have hul := h.undo_length
    simp only [History.step,List.length_take,List.length_cons,List.length_reverse,
      List.length_map,List.length_drop,List.length_append,List.length_nil] at hlen
    omega
  · obtain ⟨rfl,hR⟩ : U = [] ∧ R ≠ [] := by tauto
    rw [push_fault h.layout hR x] at he
    cases he

/-! ## Whole runs -/

theorem step_of_careful {m : ℕ} (hm : 0 < m) {w : World δ} {s : History δ}
    {U R : List (ℕ × Action δ)} (h : Rep m w s U R) {c : Command δ}
    (hc : CommandCareful m s c) : ∃ w' U' R', perform w c = some w' ∧
      Rep m w' (s.step m c) U' R' := by
  cases c with
  | push x => exact push_step hm h x hc
  | undo => exact undo_step h
  | redo => exact redo_step h
  | clear => exact clear_step h

theorem careful_of_agrees {m : ℕ} (hm : 0 < m) {w w' : World δ} {s : History δ}
    {U R : List (ℕ × Action δ)} (h : Rep m w s U R) {c : Command δ}
    (he : perform w c = some w') (hg : Agrees w' (s.step m c)) : CommandCareful m s c := by
  cases c with
  | push x =>
      by_contra hn
      obtain ⟨U',R',hm'⟩ := hg.lists
      exact not_matches_of_push hm h x hn he hm'
  | undo | redo | clear => trivial

/-- The stack agrees with the pair of lists after every prefix of a run. -/
def AgreesThroughout (m : ℕ) (w : World δ) (s : History δ) (cs : List (Command δ)) : Prop :=
  ∀ i, ∃ w', performAll w (cs.take i) = some w' ∧ Agrees w' (s.run m (cs.take i))

theorem agreesThroughout_cons {m : ℕ} {w : World δ} {s : History δ} {U R : List (ℕ × Action δ)}
    (h : Rep m w s U R) (c : Command δ) (cs : List (Command δ)) :
    AgreesThroughout m w s (c::cs) ↔
      ∃ w', perform w c = some w' ∧ AgreesThroughout m w' (s.step m c) cs := by
  constructor
  · intro ha
    obtain ⟨w',he,-⟩ := ha 1
    have hp : ∃ u, perform w c = some u := by
      cases hu : perform w c with
      | none => simp [performAll,hu] at he
      | some u => exact ⟨u,rfl⟩
    obtain ⟨u,hu⟩ := hp
    refine ⟨u,hu,fun i => ?_⟩
    obtain ⟨v,hv,hg⟩ := ha (i+1)
    refine ⟨v,?_,hg⟩
    simpa [performAll,hu] using hv
  · rintro ⟨u,hu,ha⟩ i
    cases i with
    | zero => exact ⟨w,rfl,h.toMatches.agrees⟩
    | succ i =>
        obtain ⟨v,hv,hg⟩ := ha i
        exact ⟨v,by simpa [performAll,hu] using hv,hg⟩

theorem agreesThroughout_iff {m : ℕ} (hm : 0 < m) {w : World δ} {s : History δ}
    {U R : List (ℕ × Action δ)} (h : Rep m w s U R) (cs : List (Command δ)) :
    AgreesThroughout m w s cs ↔ Careful m s cs := by
  induction cs generalizing w s U R with
  | nil =>
      refine ⟨fun _ => trivial,fun _ i => ⟨w,?_,?_⟩⟩
      · rw [List.take_nil]
        rfl
      · rw [List.take_nil]
        exact h.toMatches.agrees
  | cons c cs ih =>
      rw [agreesThroughout_cons h]
      constructor
      · rintro ⟨w',he,ha⟩
        obtain ⟨v,hv,hg⟩ := ha 0
        obtain rfl : w' = v := Option.some.inj hv
        have hc := careful_of_agrees hm h he hg
        obtain ⟨u,U',R',hu,h'⟩ := step_of_careful hm h hc
        obtain rfl : u = w' := Option.some.inj (hu.symm.trans he)
        exact ⟨hc,(ih h').mp ha⟩
      · rintro ⟨hc,hcs⟩
        obtain ⟨w',U',R',he,h'⟩ := step_of_careful hm h hc
        exact ⟨w',he,(ih h').mpr hcs⟩

theorem limit_pos (k : ℤ) : 0 < limit k := by
  unfold limit
  split_ifs <;> omega

theorem rep_new (k : ℤ) : Rep (limit k) (undoStackNew k : World δ) {} [] [] where
  layout := ⟨trivial,by simp,rfl,rfl,by simp⟩
  undo := rfl
  redo := rfl
  calls := rfl
  maxDepth := rfl
  depth := (Nat.zero_min _).symm
  room := Nat.zero_le _
  empty := fun _ => rfl
  callable := by simp

/-- From a new stack, the code behaves as the pair of lists in every state of a
run, without faulting, if and only if every push of the run is careful. -/
theorem undoStack_simulates_iff (k : ℤ) (cs : List (Command δ)) :
    AgreesThroughout (limit k) (undoStackNew k) {} cs ↔ Careful (limit k) {} cs :=
  agreesThroughout_iff (limit_pos k) (rep_new k) cs

/-- Push, undo, push: everything is undone and one action could be redone. -/
theorem push_after_undo_all_faults :
    ¬∀ (k : ℤ) (cs : List (Command ℕ)), AgreesThroughout (limit k) (undoStackNew k) {} cs := by
  intro h
  obtain ⟨w,hw,-⟩ := h 10 [.push ⟨⟨"a",true,true,true,0⟩,rfl,rfl⟩,.undo,
    .push ⟨⟨"b",true,true,true,1⟩,rfl,rfl⟩] 3
  have hn : performAll (undoStackNew 10) [.push ⟨⟨"a",true,true,true,0⟩,rfl,rfl⟩,.undo,
    .push ⟨⟨"b",true,true,true,1⟩,rfl,rfl⟩] = none := rfl
  exact Option.some_ne_none w (hw.symm.trans hn)

end Filly.Undo

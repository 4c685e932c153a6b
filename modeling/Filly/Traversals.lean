import Filly.LayoutFrames

/-!
# Which nodes a traversal reaches

Six functions go through a render tree, each with its own list of the child links that
it follows. Sizes, flags, points and other trees can keep a call from going further.
What a function reaches are the nodes that it can come to when they do not.

A node is named by the links on the way to it from the root.
-/
namespace Filly.Layout
open CJson Rectangles

/-- The links to children: those in an array, the child of a tab bar, the panes. -/
inductive Link where
  | child (i : ℕ)
  | tab | first | second | third
  deriving DecidableEq, Repr

def Content.child {α : Type} : Content α → Link → Option α
  | .container cs, .child i | .flex _ _ cs, .child i | .grid _ cs, .child i => cs[i]?
  | .tabs c, .tab => c
  | .splitPanes _ _ c _ _, .first => c
  | .splitPanes _ _ _ c _, .second => c
  | .splitPanes _ _ _ _ c, .third => c
  | _, _ => none

section Reached

variable {α : Type} (u : α → Content α)

/-- The node at the end of the links. -/
def nodeAt : α → List Link → Option α
  | t, [] => some t
  | t, l::p => ((u t).child l).bind fun c => nodeAt c p

/-- The node is reached through links that are followed. -/
def Reached (follows : Content α → Link → Bool) : α → List Link → Prop
  | _, [] => True
  | t, l::p => follows (u t) l = true ∧ ∃ c, (u t).child l = some c ∧ Reached follows c p

end Reached

/-! ## The links of each function -/

section Links
variable {α : Type}

/-- The links to children in an array. -/
def inArray : Content α → Link → Bool
  | .container _, .child _ | .flex _ _ _, .child _ | .grid _ _, .child _ => true
  | _, _ => false

/-- These, the child of a tab bar, and some of the panes. -/
def andPanes (panes : List Link) (u : Content α) (l : Link) : Bool :=
  inArray u l ||
    match u with
    | .tabs _ => l = .tab
    | .splitPanes _ _ _ _ _ => panes.contains l
    | _ => false

def resolveNodeStylesLinks : Content α → Link → Bool := andPanes [.first,.second,.third]

def countFocusableLinks : Content α → Link → Bool := andPanes [.first,.second,.third]

def findFocusableLinks : Content α → Link → Bool := andPanes [.first,.second,.third]

/-- The links of `render_node` of the terminal. -/
def renderNodeLinks : Content α → Link → Bool := andPanes [.first,.second]

def hitTestLinks : Content α → Link → Bool := inArray

def computeDeltaLinks : Content α → Link → Bool := inArray

/-- The links along which `layout_node` calls itself. -/
def layoutNodeLinks (u : Content α) (l : Link) : Bool :=
  match u, l with
  | .container _, .child _ | .tabs _, .tab | .splitPanes _ _ _ _ _, .first
  | .splitPanes _ _ _ _ _, .second => true
  | _, _ => false

/-- The children that `layout_flex` and `layout_grid` place without a call. -/
def placedLinks (u : Content α) (l : Link) : Bool :=
  match u, l with
  | .flex _ _ _, .child _ | .grid _ _, .child _ => true
  | _, _ => false

end Links

/-- The nodes that `layout_node` calls itself on or places. -/
def LaidOut : RenderTree → List Link → Prop
  | _, [] => True
  | t, l::p =>
      ∃ c, t.u.child l = some c ∧
        (layoutNodeLinks t.u l = true ∧ LaidOut c p ∨ placedLinks t.u l = true ∧ p = [])

/-- All nodes of the tree. -/
def Descendant (t : RenderTree) (p : List Link) : Prop := (nodeAt RenderTree.u t p).isSome

/-- Each of the functions reaches all nodes. -/
def Agree (t : RenderTree) : Prop :=
  (∀ p, Reached RenderTree.u resolveNodeStylesLinks t p ↔ Descendant t p) ∧
    (∀ p, LaidOut t p ↔ Descendant t p) ∧
    (∀ p, Reached RenderTree.u renderNodeLinks t p ↔ Descendant t p) ∧
    (∀ p, Reached RenderTree.u countFocusableLinks t p ↔ Descendant t p) ∧
    (∀ p, Reached RenderTree.u findFocusableLinks t p ↔ Descendant t p) ∧
    (∀ p, Reached RenderTree.u hitTestLinks t p ↔ Descendant t p) ∧
    ∀ p, Reached RenderTree.u computeDeltaLinks t p ↔ Descendant t p

/-- Nothing hangs from tabs or panes, and the children of flex and grid nodes have none. -/
def Plain (t : RenderTree) : Prop :=
  ∀ p c, nodeAt RenderTree.u t p = some c → ∀ l d, c.u.child l = some d →
    inArray c.u l = true ∧ (placedLinks c.u l = true → ∀ m, d.u.child m = none)

/-! ## What is reached -/

section Nodes
variable {α : Type} {u : α → Content α}

theorem nodeAt_cons (t : α) (l : Link) (p : List Link) :
    nodeAt u t (l::p) = ((u t).child l).bind fun c => nodeAt u c p := rfl

theorem nodeAt_append (t : α) (p q : List Link) :
    nodeAt u t (p++q) = (nodeAt u t p).bind fun c => nodeAt u c q := by
  induction p generalizing t with
  | nil => rfl
  | cons l p ih =>
      rw [List.cons_append,nodeAt_cons,nodeAt_cons]
      cases (u t).child l with
      | none => rfl
      | some c => exact ih c

theorem Reached.isSome {follows : Content α → Link → Bool} {t : α} {p : List Link}
    (h : Reached u follows t p) : (nodeAt u t p).isSome := by
  induction p generalizing t with
  | nil => rfl
  | cons l p ih =>
      obtain ⟨-,c,hc,hp⟩ := h
      rw [nodeAt_cons,hc]
      exact ih hp

theorem reached_append {follows : Content α → Link → Bool} {t c : α} {p q : List Link}
    (hc : nodeAt u t p = some c) :
    Reached u follows t (p++q) ↔ Reached u follows t p ∧ Reached u follows c q := by
  induction p generalizing t with
  | nil =>
      obtain rfl := Option.some.inj hc
      exact (and_iff_right trivial).symm
  | cons l p ih =>
      rw [nodeAt_cons] at hc
      obtain ⟨d,hd,hrest⟩ := Option.bind_eq_some_iff.1 hc
      simp only [List.cons_append,Reached,hd,Option.some.injEq,exists_eq_left',ih hrest,and_assoc]

/-- A function reaches everything just when it follows every link that there is. -/
theorem reached_all_iff {follows : Content α → Link → Bool} {t : α} :
    (∀ p, Reached u follows t p ↔ (nodeAt u t p).isSome) ↔
      ∀ p c, nodeAt u t p = some c → ∀ l d, (u c).child l = some d → follows (u c) l = true := by
  constructor
  · intro h p c hc l d hd
    have hnode : nodeAt u t (p++[l]) = some d := by
      rw [nodeAt_append,hc]
      simp [nodeAt,hd]
    have hreached := (h (p++[l])).2 (by rw [hnode]; rfl)
    exact ((reached_append hc).1 hreached).2.1
  · intro h p
    refine ⟨Reached.isSome,fun hp => ?_⟩
    induction p generalizing t with
    | nil => trivial
    | cons l p ih =>
        obtain ⟨c,hc⟩ := Option.isSome_iff_exists.1 hp
        rw [nodeAt_cons] at hc
        obtain ⟨d,hd,hrest⟩ := Option.bind_eq_some_iff.1 hc
        refine ⟨h [] t rfl l d hd,d,hd,ih (fun q e he => h (l::q) e ?_) (by rw [hrest]; rfl)⟩
        rw [nodeAt_cons,hd]
        exact he

end Nodes

/-! ## The node that is hit -/

theorem hitLevels_reached {px py : ℤ} {n : ℕ} {t hit : RenderTree} {x y : ℤ}
    (h : hitLevels px py n t x y = some hit) :
    ∃ p, Reached RenderTree.u hitTestLinks t p ∧ nodeAt RenderTree.u t p = some hit := by
  induction n generalizing t x y with
  | zero => cases h
  | succ n ih =>
      rw [hitLevels] at h
      split_ifs at h with hout
      split at h
      · next found hfound =>
        obtain rfl := Option.some.inj h
        obtain ⟨c,hc,hhit⟩ := List.exists_of_findSome?_eq_some hfound
        obtain ⟨p,hp,hnode⟩ := ih hhit
        obtain ⟨i,hi⟩ : ∃ i, inArray t.u (.child i) = true ∧ t.u.child (.child i) = some c := by
          rw [List.mem_reverse] at hc
          cases hu : t.u <;> rw [hu] at hc
          case container cs | flex _ _ cs | grid _ cs =>
            obtain ⟨i,hi⟩ := List.mem_iff_getElem?.1 hc
            exact ⟨i,rfl,hi⟩
          all_goals cases hc
        exact ⟨.child i::p,⟨hi.1,c,hi.2,hp⟩,by rw [nodeAt_cons,hi.2]; exact hnode⟩
      · obtain rfl := Option.some.inj h
        exact ⟨[],trivial,rfl⟩

/-- The node that `hit_test` finds is one of those it goes through. -/
theorem hitTest_reached {t hit : RenderTree} {px py x y : ℤ}
    (h : hitTest t px py x y = some hit) :
    ∃ p, Reached RenderTree.u hitTestLinks t p ∧ nodeAt RenderTree.u t p = some hit :=
  hitLevels_reached h

/-! ## When all nodes are reached -/

theorem LaidOut.isSome {t : RenderTree} {p : List Link} (h : LaidOut t p) : Descendant t p := by
  induction p generalizing t with
  | nil => rfl
  | cons l p ih =>
      obtain ⟨c,hc,⟨-,hp⟩ | ⟨-,rfl⟩⟩ := h
      · rw [Descendant,nodeAt_cons,hc]
        exact ih hp
      · rw [Descendant,nodeAt_cons,hc]
        rfl

/-- Nothing below a placed child is laid out. -/
theorem not_laidOut {t c : RenderTree} {p : List Link} {l m : Link}
    (hc : nodeAt RenderTree.u t p = some c) (hl : placedLinks c.u l = true) :
    ¬LaidOut t (p++[l,m]) := by
  induction p generalizing t with
  | nil =>
      obtain rfl := Option.some.inj hc
      rintro ⟨d,-,⟨hfollows,-⟩ | ⟨-,hnil⟩⟩
      · cases hu : t.u <;> cases l <;> simp_all [placedLinks,layoutNodeLinks]
      · cases hnil
  | cons k p ih =>
      rw [nodeAt_cons] at hc
      obtain ⟨d,hd,hrest⟩ := Option.bind_eq_some_iff.1 hc
      rintro ⟨e,he,⟨-,hp⟩ | ⟨-,hnil⟩⟩
      · obtain rfl := Option.some.inj (hd.symm.trans he)
        exact ih hrest hp
      · simp at hnil

theorem Plain.child {t c : RenderTree} {l : Link} (h : Plain t) (hc : t.u.child l = some c) :
    Plain c := by
  intro p d hd
  refine h (l::p) d ?_
  rw [nodeAt_cons,hc]
  exact hd

theorem Plain.laidOut {t : RenderTree} (h : Plain t) {p : List Link} (hp : Descendant t p) :
    LaidOut t p := by
  induction p generalizing t with
  | nil => trivial
  | cons l p ih =>
      obtain ⟨d,hd⟩ := Option.isSome_iff_exists.1 hp
      rw [nodeAt_cons] at hd
      obtain ⟨c,hc,hrest⟩ := Option.bind_eq_some_iff.1 hd
      obtain ⟨harray,hplaced⟩ := h [] t rfl l c hc
      refine ⟨c,hc,?_⟩
      by_cases hl : placedLinks t.u l = true
      · refine Or.inr ⟨hl,?_⟩
        cases p with
        | nil => rfl
        | cons m p =>
            rw [nodeAt_cons,hplaced hl m] at hrest
            cases hrest
      · refine Or.inl ⟨?_,ih (h.child hc) (by rw [Descendant,hrest]; rfl)⟩
        cases hu : t.u <;> cases l <;> simp_all [inArray,placedLinks,layoutNodeLinks]

theorem reached_of_plain {follows : Content RenderTree → Link → Bool}
    (hfollows : ∀ u l, inArray u l = true → follows u l = true) {t : RenderTree} (h : Plain t)
    (p : List Link) : Reached RenderTree.u follows t p ↔ Descendant t p :=
  reached_all_iff.2 (fun q c hc l d hd => hfollows _ _ (h q c hc l d hd).1) p

def leafTree : RenderTree := .mk {} .gauge

end Filly.Layout

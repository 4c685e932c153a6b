import Filly.Traversals

/-!
# The difference between two frames

`session_compute_delta` goes through two render trees together and reports the nodes of
the first that have moved or are dirty. It stops where the types differ, and it never
looks at surplus children, tabs or panes. What it reports is always a difference, but
what it does not report may be one.
-/
namespace Filly.Layout
open CJson Rectangles

/-- A node of a frame with what is compared of it. -/
inductive FrameTree where
  | mk (rect : Rect) (dirty : Bool) (u : Content FrameTree)

namespace FrameTree

def rect : FrameTree → Rect
  | .mk rect _ _ => rect

def dirty : FrameTree → Bool
  | .mk _ dirty _ => dirty

def u : FrameTree → Content FrameTree
  | .mk _ _ u => u

end FrameTree

inductive RenderNodeType where
  | container | text | list | table | tree | gauge | calendar | form | tabs | splitPanes
  | flex | grid
  | leaf (type : Leaf)
  deriving DecidableEq, Repr

def Content.type {α : Type} : Content α → RenderNodeType
  | .container _ => .container
  | .text _ => .text
  | .list _ => .list
  | .table _ => .table
  | .tree _ => .tree
  | .gauge => .gauge
  | .calendar => .calendar
  | .form _ => .form
  | .tabs _ => .tabs
  | .splitPanes _ _ _ _ _ => .splitPanes
  | .flex _ _ _ => .flex
  | .grid _ _ => .grid
  | .leaf type => .leaf type

structure DirtyNode where
  id : RenderNodeType
  rect : Rect
  deriving DecidableEq, Repr

mutual
def computeDelta : FrameTree → FrameTree → List DirtyNode
  | .mk rect dirty u, prev =>
      if u.type ≠ prev.u.type then []
      else
        (if rect ≠ prev.rect ∨ dirty = true then [⟨u.type,rect⟩] else [])++
          computeDeltaBelow u prev.u

def computeDeltaBelow : Content FrameTree → Content FrameTree → List DirtyNode
  | .container cs, .container ps => computeDeltas cs ps
  | .flex _ _ cs, .flex _ _ ps => computeDeltas cs ps
  | .grid _ cs, .grid _ ps => computeDeltas cs ps
  | _, _ => []

/-- As many children as both have. -/
def computeDeltas : List FrameTree → List FrameTree → List DirtyNode
  | c::cs, p::ps => computeDelta c p++computeDeltas cs ps
  | _, _ => []
end

/-! ## Differences -/

/-- The two nodes are of one type and in one place, and the first is clean. -/
def Unchanged : Option FrameTree → Option FrameTree → Prop
  | some c, some p => c.u.type = p.u.type ∧ c.rect = p.rect ∧ c.dirty = false
  | none, none => True
  | _, _ => False

/-- There is nothing to see where the links lead. -/
def UnchangedAt (current previous : FrameTree) (path : List Link) : Prop :=
  Unchanged (nodeAt FrameTree.u current path) (nodeAt FrameTree.u previous path)

/-- The nodes at the end of the links are compared. -/
def Compared : FrameTree → FrameTree → List Link → Prop
  | c, p, [] => c.u.type = p.u.type
  | c, p, l::path =>
      c.u.type = p.u.type ∧ computeDeltaLinks c.u l = true ∧
        ∃ c' p', c.u.child l = some c' ∧ p.u.child l = some p' ∧ Compared c' p' path

/-- An empty delta means that the trees are the same and the first one is clean, and
what a delta reports is a difference. -/
def DeltaComplete (current previous : FrameTree) : Prop :=
  (computeDelta current previous = [] → ∀ path, UnchangedAt current previous path) ∧
    ∀ n ∈ computeDelta current previous, ∃ path c,
      nodeAt FrameTree.u current path = some c ∧ n = ⟨c.u.type,c.rect⟩ ∧
        ¬UnchangedAt current previous path

/-- Where there is a difference that is not looked at, there is one that is. -/
def Covered (current previous : FrameTree) : Prop :=
  (∃ path, ¬Compared current previous path ∧ ¬UnchangedAt current previous path) →
    ∃ path, Compared current previous path ∧ ¬UnchangedAt current previous path

/-! ## What is reported -/

theorem mem_computeDeltas_iff {cs ps : List FrameTree} {n : DirtyNode} :
    n ∈ computeDeltas cs ps ↔
      ∃ (i : ℕ) (c p : FrameTree), cs[i]? = some c ∧ ps[i]? = some p ∧ n ∈ computeDelta c p := by
  induction cs generalizing ps with
  | nil => simp [computeDeltas]
  | cons c cs ih =>
      cases ps with
      | nil => simp [computeDeltas]
      | cons p ps =>
          rw [computeDeltas,List.mem_append,ih]
          constructor
          · rintro (h | ⟨i,d,q,hd,hq,h⟩)
            · exact ⟨0,c,p,rfl,rfl,h⟩
            · exact ⟨i+1,d,q,hd,hq,h⟩
          · rintro ⟨i,d,q,hd,hq,h⟩
            cases i with
            | zero =>
                obtain rfl := Option.some.inj hd
                obtain rfl := Option.some.inj hq
                exact Or.inl h
            | succ i => exact Or.inr ⟨i,d,q,hd,hq,h⟩

/-- The children in an array. -/
def Content.array {α : Type} : Content α → List α
  | .container cs | .flex _ _ cs | .grid _ cs => cs
  | _ => []

theorem child_array_iff {α : Type} {u : Content α} {l : Link} {c : α} :
    inArray u l = true ∧ u.child l = some c ↔ ∃ i : ℕ, l = .child i ∧ u.array[i]? = some c := by
  cases u <;> cases l <;> simp [inArray,Content.child,Content.array]

theorem computeDeltaBelow_eq {u v : Content FrameTree} (htype : u.type = v.type) :
    computeDeltaBelow u v = computeDeltas u.array v.array := by
  cases u <;> cases v <;> first | rfl | cases htype

/-- Two nodes of one type have the same links. -/
theorem links_eq_of_type {u v : Content FrameTree} (htype : u.type = v.type) (l : Link) :
    computeDeltaLinks u l = computeDeltaLinks v l := by
  cases u <;> cases v <;> cases htype <;> cases l <;> rfl

/-- Below two nodes of one type the children that both have are compared. -/
theorem mem_computeDeltaBelow_iff {u v : Content FrameTree} (htype : u.type = v.type)
    {n : DirtyNode} : n ∈ computeDeltaBelow u v ↔
      ∃ l c p, computeDeltaLinks u l = true ∧ u.child l = some c ∧ v.child l = some p ∧
        n ∈ computeDelta c p := by
  rw [computeDeltaBelow_eq htype,mem_computeDeltas_iff]
  constructor
  · rintro ⟨i,c,p,hc,hp,hn⟩
    obtain ⟨hlink,hchild⟩ := child_array_iff.2 ⟨i,rfl,hc⟩
    exact ⟨.child i,c,p,hlink,hchild,(child_array_iff.2 ⟨i,rfl,hp⟩).2,hn⟩
  · rintro ⟨l,c,p,hlink,hc,hp,hn⟩
    obtain ⟨i,rfl,hi⟩ := child_array_iff.1 ⟨hlink,hc⟩
    obtain ⟨j,hj,hq⟩ := child_array_iff.1 ⟨(links_eq_of_type htype _).symm.trans hlink,hp⟩
    obtain rfl := Link.child.inj hj
    exact ⟨i,c,p,hi,hq,hn⟩

theorem mem_computeDelta_iff {c p : FrameTree} (htype : c.u.type = p.u.type) {n : DirtyNode} :
    n ∈ computeDelta c p ↔ (n = ⟨c.u.type,c.rect⟩ ∧ (c.rect ≠ p.rect ∨ c.dirty = true)) ∨
      n ∈ computeDeltaBelow c.u p.u := by
  obtain ⟨rect,dirty,u⟩ := c
  have htype' : ¬u.type ≠ p.u.type := not_not_intro htype
  rw [computeDelta,if_neg htype',List.mem_append]
  refine or_congr_left ?_
  split_ifs with hdiffers
  · exact List.mem_singleton.trans (and_iff_left hdiffers).symm
  · exact iff_of_false List.not_mem_nil fun h => hdiffers h.2

/-- The nodes that are compared are those that can be reached. -/
theorem Compared.reached {c p : FrameTree} {path : List Link} (h : Compared c p path) :
    Reached FrameTree.u computeDeltaLinks c path := by
  induction path generalizing c p with
  | nil => trivial
  | cons l path ih =>
      obtain ⟨-,hlink,c',p',hc,-,hrest⟩ := h
      exact ⟨hlink,c',hc,ih hrest⟩

/-- Both trees have a node where they are compared, and these are of one type. -/
theorem Compared.nodes {c p : FrameTree} {path : List Link} (h : Compared c p path) :
    ∃ d q, nodeAt FrameTree.u c path = some d ∧ nodeAt FrameTree.u p path = some q ∧
      d.u.type = q.u.type := by
  induction path generalizing c p with
  | nil => exact ⟨c,p,rfl,rfl,h⟩
  | cons l path ih =>
      obtain ⟨-,-,c',p',hc,hp,hrest⟩ := h
      rw [nodeAt,nodeAt,hc,hp]
      exact ih hrest

theorem mem_of_compared {c p d q : FrameTree} {path : List Link} (h : Compared c p path)
    (hd : nodeAt FrameTree.u c path = some d) (hq : nodeAt FrameTree.u p path = some q)
    (hdiffers : d.rect ≠ q.rect ∨ d.dirty = true) : ⟨d.u.type,d.rect⟩ ∈ computeDelta c p := by
  induction path generalizing c p with
  | nil =>
      obtain rfl := Option.some.inj hd
      obtain rfl := Option.some.inj hq
      exact (mem_computeDelta_iff h).2 (Or.inl ⟨rfl,hdiffers⟩)
  | cons l path ih =>
      obtain ⟨htype,hlink,c',p',hc,hp,hrest⟩ := h
      rw [nodeAt,hc] at hd
      rw [nodeAt,hp] at hq
      exact (mem_computeDelta_iff htype).2 (Or.inr ((mem_computeDeltaBelow_iff htype).2
        ⟨l,c',p',hlink,hc,hp,ih hrest hd hq⟩))

theorem sizeOf_child {c d : FrameTree} {l : Link} (hlink : computeDeltaLinks c.u l = true)
    (h : c.u.child l = some d) : sizeOf d < sizeOf c := by
  obtain ⟨i,-,hi⟩ := child_array_iff.1 ⟨hlink,h⟩
  obtain ⟨rect,dirty,u⟩ := c
  have hmem : d ∈ u.array := List.mem_of_getElem? hi
  cases u with
  | container cs | flex _ _ cs | grid _ cs =>
      have hsize := List.sizeOf_lt_of_mem hmem
      simp only [Content.array] at hsize
      simp only [FrameTree.mk.sizeOf_spec,Content.container.sizeOf_spec,Content.flex.sizeOf_spec,
        Content.grid.sizeOf_spec]
      omega
  | _ => cases hmem

/-- What is reported has been compared and is different. -/
theorem compared_of_mem {c p : FrameTree} {n : DirtyNode} (h : n ∈ computeDelta c p) :
    ∃ path d q, Compared c p path ∧ nodeAt FrameTree.u c path = some d ∧
      nodeAt FrameTree.u p path = some q ∧ n = ⟨d.u.type,d.rect⟩ ∧
      (d.rect ≠ q.rect ∨ d.dirty = true) := by
  induction hsize : sizeOf c using Nat.strong_induction_on generalizing c p with
  | _ size ih =>
      have htype : c.u.type = p.u.type := by
        by_contra hne
        obtain ⟨rect,dirty,u⟩ := c
        have hne' : u.type ≠ p.u.type := hne
        rw [computeDelta,if_pos hne'] at h
        cases h
      obtain ⟨hn,hdiffers⟩ | hbelow := (mem_computeDelta_iff htype).1 h
      · exact ⟨[],c,p,htype,rfl,rfl,hn,hdiffers⟩
      · obtain ⟨l,c',p',hlink,hc,hp,hn⟩ := (mem_computeDeltaBelow_iff htype).1 hbelow
        obtain ⟨path,d,q,hcompared,hd,hq,hrest⟩ := ih _ (hsize ▸ sizeOf_child hlink hc) hn rfl
        refine ⟨l::path,d,q,⟨htype,hlink,c',p',hc,hp,hcompared⟩,?_,?_,hrest⟩
        · rw [nodeAt,hc]
          exact hd
        · rw [nodeAt,hp]
          exact hq

/-- A difference at a place that is compared is reported. -/
theorem computeDelta_eq_nil_iff {c p : FrameTree} :
    computeDelta c p = [] ↔ ∀ path, Compared c p path → UnchangedAt c p path := by
  constructor
  · intro h path hcompared
    obtain ⟨d,q,hd,hq,htype⟩ := hcompared.nodes
    rw [UnchangedAt,hd,hq]
    by_contra hchanged
    have hdiffers : d.rect ≠ q.rect ∨ d.dirty = true := by
      by_contra hsame
      rw [not_or,not_not,Bool.not_eq_true] at hsame
      exact hchanged ⟨htype,hsame.1,hsame.2⟩
    have hmem := mem_of_compared hcompared hd hq hdiffers
    rw [h] at hmem
    cases hmem
  · intro h
    refine List.eq_nil_iff_forall_not_mem.2 fun n hn => ?_
    obtain ⟨path,d,q,hcompared,hd,hq,-,hdiffers⟩ := compared_of_mem hn
    have hsame := h path hcompared
    rw [UnchangedAt,hd,hq] at hsame
    exact hdiffers.elim (fun hrect => hrect hsame.2.1) (by simp [hsame.2.2])

theorem computeDelta_sound {c p : FrameTree} {n : DirtyNode} (h : n ∈ computeDelta c p) :
    ∃ path d, nodeAt FrameTree.u c path = some d ∧ n = ⟨d.u.type,d.rect⟩ ∧
      ¬UnchangedAt c p path := by
  obtain ⟨path,d,q,-,hd,hq,hn,hdiffers⟩ := compared_of_mem h
  refine ⟨path,d,hd,hn,fun hsame => ?_⟩
  rw [UnchangedAt,hd,hq] at hsame
  exact hdiffers.elim (fun hrect => hrect hsame.2.1) (by simp [hsame.2.2])

/-- A delta is complete just when every difference that is not looked at comes with one
that is. -/
theorem deltaComplete_iff (current previous : FrameTree) :
    DeltaComplete current previous ↔ Covered current previous := by
  rw [DeltaComplete,and_iff_left fun n hn => computeDelta_sound hn,computeDelta_eq_nil_iff]
  constructor
  · rintro h ⟨path,-,hchanged⟩
    by_contra hnone
    simp only [not_exists,not_and,not_not] at hnone
    exact hchanged (h hnone path)
  · intro h hcompared path
    by_contra hchanged
    obtain ⟨q,hq,hshown⟩ := h ⟨path,fun hp => hchanged (hcompared path hp),hchanged⟩
    exact hshown (hcompared q hq)

/-- What is in a tab moves, and nothing is reported. -/
theorem moved_tab_is_missed :
    ¬DeltaComplete
      (.mk ⟨0,0,80,24⟩ false (.tabs (some (.mk ⟨5,5,10,1⟩ true (.text none)))))
      (.mk ⟨0,0,80,24⟩ false (.tabs (some (.mk ⟨0,1,10,1⟩ false (.text none))))) := by
  rintro ⟨h,-⟩
  obtain ⟨-,-,hdirty⟩ := h rfl [.tab]
  cases hdirty

end Filly.Layout

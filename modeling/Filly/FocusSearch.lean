import Filly.Focus
import Filly.Layout

/-!
# The nodes that can be focused

`core/session.c` counts the nodes with a tab index from 0 on and looks for one of them by its
number. Both functions go through the tree by themselves. The search hands a counter and the
node that it found from call to call. Nodes are told apart by what else is in them.
-/
namespace Filly.FocusSearch
open Layout

inductive FocusTree (α : Type) where
  | mk (node : α) (tabIndex : ℤ) (u : Content (FocusTree α))

namespace FocusTree
variable {α : Type}

def tabIndex : FocusTree α → ℤ
  | .mk _ tabIndex _ => tabIndex

def u : FocusTree α → Content (FocusTree α)
  | .mk _ _ u => u

end FocusTree

/-- What `current_tab` and `found` point to. -/
structure Search (α : Type) where
  currentTab : ℤ := 0
  found : Option (FocusTree α) := none

variable {α : Type}

mutual
def findFocusable (target : ℤ) : FocusTree α → Search α → Option (FocusTree α) × Search α
  | .mk node tabIndex u, s =>
      if s.found.isSome then (none,s)
      else if 0 ≤ tabIndex ∧ s.currentTab = target then
        (some (.mk node tabIndex u),{ s with found := some (.mk node tabIndex u) })
      else
        let s := findContent target u
          (if 0 ≤ tabIndex then { s with currentTab := s.currentTab+1 } else s)
        (s.found,s)

/-- The tests of the type of the node, one after another. -/
def findContent (target : ℤ) : Content (FocusTree α) → Search α → Search α
  | .container cs, s | .flex _ _ cs, s | .grid _ cs, s => findChildren target cs s
  | .tabs child, s => findPane target child s
  | .splitPanes _ _ first second third, s =>
      let s := findPane target first s
      let s := if s.found.isSome then s else findPane target second s
      if s.found.isSome then s else findPane target third s
  | .text _, s | .list _, s | .table _, s | .tree _, s | .gauge, s | .calendar, s | .form _, s
  | .leaf _, s => s

/-- The loop over an array of children. -/
def findChildren (target : ℤ) : List (FocusTree α) → Search α → Search α
  | [], s => s
  | c::cs, s => if s.found.isSome then s else findChildren target cs (findFocusable target c s).2

def findPane (target : ℤ) : Option (FocusTree α) → Search α → Search α
  | none, s => s
  | some c, s => (findFocusable target c s).2
end

mutual
def countFocusable : FocusTree α → ℕ
  | .mk _ tabIndex u => (if 0 ≤ tabIndex then 1 else 0)+countContent u

def countContent : Content (FocusTree α) → ℕ
  | .container cs | .flex _ _ cs | .grid _ cs => countChildren cs
  | .tabs child => countPane child
  | .splitPanes _ _ first second third => countPane first+countPane second+countPane third
  | .text _ | .list _ | .table _ | .tree _ | .gauge | .calendar | .form _ | .leaf _ => 0

def countChildren : List (FocusTree α) → ℕ
  | [] => 0
  | c::cs => countFocusable c+countChildren cs

def countPane : Option (FocusTree α) → ℕ
  | none => 0
  | some c => countFocusable c
end

/-! ## The preorder of the nodes -/

mutual
def preorder : FocusTree α → List (FocusTree α)
  | .mk node tabIndex u => .mk node tabIndex u::preorderContent u

def preorderContent : Content (FocusTree α) → List (FocusTree α)
  | .container cs | .flex _ _ cs | .grid _ cs => preorderList cs
  | .tabs child => preorderOption child
  | .splitPanes _ _ first second third =>
      preorderOption first++preorderOption second++preorderOption third
  | .text _ | .list _ | .table _ | .tree _ | .gauge | .calendar | .form _ | .leaf _ => []

def preorderList : List (FocusTree α) → List (FocusTree α)
  | [] => []
  | c::cs => preorder c++preorderList cs

def preorderOption : Option (FocusTree α) → List (FocusTree α)
  | none => []
  | some c => preorder c
end

theorem preorderList_eq (cs : List (FocusTree α)) : preorderList cs = cs.flatMap preorder := by
  induction cs with
  | nil => rfl
  | cons c cs ih => rw [preorderList,ih,List.flatMap_cons]

theorem preorderOption_eq (child : Option (FocusTree α)) :
    preorderOption child = child.toList.flatMap preorder := by
  cases child with
  | none => rfl
  | some c => rw [preorderOption,Option.toList_some,List.flatMap_singleton]

/-- A node comes before all that hangs from it. -/
theorem preorder_eq (t : FocusTree α) : preorder t = t::t.u.children.flatMap preorder := by
  obtain ⟨node,tabIndex,u⟩ := t
  rw [preorder,FocusTree.u]
  congr 1
  cases u with
  | splitPanes orientation position first second third =>
      rw [preorderContent,preorderOption_eq,preorderOption_eq,preorderOption_eq,Content.children,
        List.flatMap_append,List.flatMap_append]
  | container cs => exact preorderList_eq cs
  | flex direction wrap cs => exact preorderList_eq cs
  | grid columns cs => exact preorderList_eq cs
  | tabs child => exact preorderOption_eq child
  | _ => rfl

/-- The nodes that can be focused, in preorder. -/
def focusables (l : List (FocusTree α)) : List (FocusTree α) := l.filter (0 ≤ ·.tabIndex)

theorem focusables_append (l l' : List (FocusTree α)) :
    focusables (l++l') = focusables l++focusables l' := List.filter_append ..

theorem focusables_cons (node : α) (tabIndex : ℤ) (u : Content (FocusTree α))
    (l : List (FocusTree α)) :
    focusables (.mk node tabIndex u::l) =
      if 0 ≤ tabIndex then .mk node tabIndex u::focusables l else focusables l := by
  by_cases h : 0 ≤ tabIndex <;> simp [focusables,FocusTree.tabIndex,h]

/-! ## The count -/

mutual
theorem countFocusable_eq (t : FocusTree α) :
    countFocusable t = (focusables (preorder t)).length := by
  obtain ⟨node,tabIndex,u⟩ := t
  rw [countFocusable,preorder,countContent_eq u,focusables_cons]
  by_cases h : 0 ≤ tabIndex
  · rw [if_pos h,if_pos h,List.length_cons,Nat.add_comm]
  · rw [if_neg h,if_neg h,Nat.zero_add]

theorem countContent_eq (u : Content (FocusTree α)) :
    countContent u = (focusables (preorderContent u)).length := by
  cases u with
  | container cs => exact countChildren_eq cs
  | flex direction wrap cs => exact countChildren_eq cs
  | grid columns cs => exact countChildren_eq cs
  | tabs child => exact countPane_eq child
  | splitPanes orientation position first second third =>
      rw [countContent,preorderContent,focusables_append,focusables_append,List.length_append,
        List.length_append,countPane_eq first,countPane_eq second,countPane_eq third]
  | _ => rfl

theorem countChildren_eq (cs : List (FocusTree α)) :
    countChildren cs = (focusables (preorderList cs)).length := by
  cases cs with
  | nil => rfl
  | cons c cs =>
      rw [countChildren,preorderList,focusables_append,List.length_append,countFocusable_eq c,
        countChildren_eq cs]

theorem countPane_eq (child : Option (FocusTree α)) :
    countPane child = (focusables (preorderOption child)).length := by
  cases child with
  | none => rfl
  | some c => exact countFocusable_eq c
end

/-! ## The search -/

/-- One more node that can be focused, unless one has been found. -/
def visit (target : ℤ) (s : Search α) (t : FocusTree α) : Search α :=
  if s.found.isSome then s
  else if s.currentTab = target then { s with found := some t }
  else { s with currentTab := s.currentTab+1 }

theorem foldl_visit_of_found {target : ℤ} {s : Search α} (h : s.found.isSome)
    (l : List (FocusTree α)) : l.foldl (visit target) s = s := by
  induction l with
  | nil => rfl
  | cons t l ih => rw [List.foldl_cons,visit,if_pos h,ih]

/-- Nothing more is visited once a node has been found. -/
theorem foldl_visit_unless {target : ℤ} {s : Search α} (l : List (FocusTree α)) :
    (if s.found.isSome then s else l.foldl (visit target) s) = l.foldl (visit target) s := by
  split_ifs with h
  · exact (foldl_visit_of_found h l).symm
  · rfl

mutual
/-- The calls visit the nodes that can be focused in preorder. -/
theorem findFocusable_eq (target : ℤ) (t : FocusTree α) (s : Search α) :
    (findFocusable target t s).2 = (focusables (preorder t)).foldl (visit target) s := by
  obtain ⟨node,tabIndex,u⟩ := t
  rw [findFocusable,preorder,focusables_cons]
  by_cases hfound : s.found.isSome
  · rw [if_pos hfound,foldl_visit_of_found hfound]
  · rw [if_neg hfound]
    by_cases htab : 0 ≤ tabIndex
    · rw [if_pos htab,if_pos htab,List.foldl_cons,visit,if_neg hfound]
      by_cases htarget : s.currentTab = target
      · rw [if_pos ⟨htab,htarget⟩,if_pos htarget,foldl_visit_of_found rfl]
      · rw [if_neg (fun h => htarget h.2),if_neg htarget,← findContent_eq target u]
    · rw [if_neg (fun h => htab h.1),if_neg htab,if_neg htab,← findContent_eq target u]

theorem findContent_eq (target : ℤ) (u : Content (FocusTree α)) (s : Search α) :
    findContent target u s = (focusables (preorderContent u)).foldl (visit target) s := by
  cases u with
  | container cs => exact findChildren_eq target cs s
  | flex direction wrap cs => exact findChildren_eq target cs s
  | grid columns cs => exact findChildren_eq target cs s
  | tabs child => exact findPane_eq target child s
  | splitPanes orientation position first second third =>
      rw [findContent,preorderContent,focusables_append,focusables_append,List.foldl_append,
        List.foldl_append]
      simp only [findPane_eq target first,findPane_eq target second,findPane_eq target third,
        foldl_visit_unless]
  | _ => rfl

theorem findChildren_eq (target : ℤ) (cs : List (FocusTree α)) (s : Search α) :
    findChildren target cs s = (focusables (preorderList cs)).foldl (visit target) s := by
  cases cs with
  | nil => rfl
  | cons c cs =>
      rw [findChildren,preorderList,focusables_append,List.foldl_append,
        findChildren_eq target cs,findFocusable_eq target c]
      split_ifs with hfound
      · rw [foldl_visit_of_found hfound,foldl_visit_of_found hfound]
      · rfl

theorem findPane_eq (target : ℤ) (child : Option (FocusTree α)) (s : Search α) :
    findPane target child s = (focusables (preorderOption child)).foldl (visit target) s := by
  cases child with
  | none => rfl
  | some c => exact findFocusable_eq target c s
end

/-- What is found is what the last argument of the first call points to. -/
theorem findFocusable_fst (target : ℤ) (t : FocusTree α) {s : Search α} (h : s.found = none) :
    (findFocusable target t s).1 = (findFocusable target t s).2.found := by
  obtain ⟨node,tabIndex,u⟩ := t
  rw [findFocusable,h]
  simp only [Option.isSome_none,Bool.false_eq_true,if_false]
  split_ifs <;> rfl

theorem visit_self (n : ℤ) (t : FocusTree α) : visit n ⟨n,none⟩ t = ⟨n,some t⟩ := if_pos rfl

theorem visit_ne {target n : ℤ} (h : n ≠ target) (t : FocusTree α) :
    visit target ⟨n,none⟩ t = ⟨n+1,none⟩ := if_neg h

/-- The visits number the nodes from the counter on. -/
theorem foldl_visit_found (k : ℕ) (n : ℤ) (l : List (FocusTree α)) :
    (l.foldl (visit (n+k)) ⟨n,none⟩).found = l[k]? := by
  induction l generalizing k n with
  | nil => rfl
  | cons t l ih =>
      rw [List.foldl_cons]
      cases k with
      | zero =>
          rw [Nat.cast_zero,add_zero,visit_self,foldl_visit_of_found rfl]
          rfl
      | succ k =>
          have hnext : n+((k+1:ℕ):ℤ) = (n+1)+k := by push_cast; ring
          rw [visit_ne (by omega),hnext,List.getElem?_cons_succ]
          exact ih k (n+1)

theorem findFocusable_getElem? (k : ℕ) (t : FocusTree α) :
    (findFocusable k t {}).1 = (focusables (preorder t))[k]? := by
  have hvisits := foldl_visit_found k 0 (focusables (preorder t))
  rw [zero_add] at hvisits
  rw [findFocusable_fst k t rfl,findFocusable_eq]
  exact hvisits

/-- The count is the number of nodes with a tab index in the preorder list of the tree, and the
search with a number returns the node that has it there, or nothing when none has. -/
theorem focus_traversal (t : FocusTree α) :
    countFocusable t = (focusables (preorder t)).length ∧
      (∀ k < countFocusable t, ∃ node, (focusables (preorder t))[k]? = some node ∧
        (findFocusable k t {}).1 = some node) ∧
      ∀ k : ℕ, countFocusable t ≤ k → (findFocusable k t {}).1 = none := by
  refine ⟨countFocusable_eq t,fun k hk => ?_,fun k hk => ?_⟩
  · rw [countFocusable_eq] at hk
    exact ⟨_,List.getElem?_eq_getElem hk,by rw [findFocusable_getElem?,List.getElem?_eq_getElem hk]⟩
  · rw [countFocusable_eq] at hk
    rw [findFocusable_getElem?,List.getElem?_eq_none hk]

/-! ## The tree of the event loop -/

/-- The node that a number leads to, or the number that comes next. -/
def numbered (target : ℕ) : ℕ → List SessionLoop.RenderTree → SessionLoop.RenderTree ⊕ ℕ
  | current, [] => .inr current
  | current, t::l => if current = target then .inl t else numbered target (current+1) l

theorem numbered_append (target current : ℕ) (l l' : List SessionLoop.RenderTree) :
    numbered target current (l++l') =
      match numbered target current l with
      | .inl t => .inl t
      | .inr current => numbered target current l' := by
  induction l generalizing current with
  | nil => rfl
  | cons t l ih =>
      rw [List.cons_append,numbered,numbered]
      split_ifs
      · rfl
      · exact ih (current+1)

theorem numbered_add (n k : ℕ) (l : List SessionLoop.RenderTree) :
    numbered (n+k) n l = match l[k]? with
      | some t => .inl t
      | none => .inr (n+l.length) := by
  induction l generalizing n k with
  | nil => rfl
  | cons t l ih =>
      rw [numbered]
      cases k with
      | zero => rw [Nat.add_zero,if_pos rfl]; rfl
      | succ k =>
          rw [if_neg (by omega),List.getElem?_cons_succ,List.length_cons,
            show n+(k+1) = (n+1)+k by omega,ih,show n+1+l.length = n+(l.length+1) by omega]

theorem session_focusables_mk (kind : SessionLoop.NodeKind) (rect : Rectangles.Rect)
    (tooltip : CJson.Bytes) (tabIndex : ℤ) (styleClass : Option CJson.Bytes)
    (children : List SessionLoop.RenderTree) :
    SessionLoop.focusables (.mk kind rect tooltip tabIndex styleClass children) =
      (if 0 ≤ tabIndex then [.mk kind rect tooltip tabIndex styleClass children] else [])++
        if kind = .leaf then [] else SessionLoop.focusablesBelow children := by
  cases kind <;> rfl

mutual
theorem session_findFocusable_eq (target current : ℕ) (t : SessionLoop.RenderTree) :
    SessionLoop.findFocusable target current t =
      numbered target current (SessionLoop.focusables t) := by
  obtain ⟨kind,rect,tooltip,tabIndex,styleClass,children⟩ := t
  rw [SessionLoop.findFocusable,session_focusables_mk]
  by_cases htab : 0 ≤ tabIndex
  · rw [if_pos htab,if_pos htab,List.singleton_append,numbered]
    by_cases htarget : current = target
    · rw [if_pos ⟨htab,htarget⟩,if_pos htarget]
    · rw [if_neg (fun h => htarget h.2),if_neg htarget]
      cases kind with
      | leaf => rfl
      | _ => exact session_findChild_eq target _ children
  · rw [if_neg htab,if_neg htab,List.nil_append,if_neg (fun h => htab h.1)]
    cases kind with
    | leaf => rfl
    | _ => exact session_findChild_eq target _ children

theorem session_findChild_eq (target current : ℕ) (cs : List SessionLoop.RenderTree) :
    SessionLoop.findChild target current cs =
      numbered target current (SessionLoop.focusablesBelow cs) := by
  cases cs with
  | nil => rfl
  | cons c cs =>
      rw [SessionLoop.findChild,SessionLoop.focusablesBelow,numbered_append,
        session_findFocusable_eq target current c]
      cases numbered target current (SessionLoop.focusables c) with
      | inl found => rfl
      | inr current => exact session_findChild_eq target current cs
end

/-- The fields of a node that the event loop reads. -/
structure Face where
  rect : Rectangles.Rect
  tooltip : CJson.Bytes
  styleClass : Option CJson.Bytes

def kindOf : Content α → SessionLoop.NodeKind
  | .container _ => .container
  | .flex _ _ _ => .flex
  | .grid _ _ => .grid
  | .tabs _ => .tabs
  | .splitPanes _ _ _ _ _ => .splitPanes
  | .text _ | .list _ | .table _ | .tree _ | .gauge | .calendar | .form _ | .leaf _ => .leaf

mutual
/-- The tree as the event loop sees it. -/
def seen : FocusTree Face → SessionLoop.RenderTree
  | .mk node tabIndex u =>
      .mk (kindOf u) node.rect node.tooltip tabIndex node.styleClass (seenContent u)

def seenContent : Content (FocusTree Face) → List SessionLoop.RenderTree
  | .container cs | .flex _ _ cs | .grid _ cs => seenList cs
  | .tabs child => seenOption child
  | .splitPanes _ _ first second third => seenOption first++seenOption second++seenOption third
  | .text _ | .list _ | .table _ | .tree _ | .gauge | .calendar | .form _ | .leaf _ => []

def seenList : List (FocusTree Face) → List SessionLoop.RenderTree
  | [] => []
  | c::cs => seen c::seenList cs

def seenOption : Option (FocusTree Face) → List SessionLoop.RenderTree
  | none => []
  | some c => [seen c]
end

theorem focusablesBelow_append (cs cs' : List SessionLoop.RenderTree) :
    SessionLoop.focusablesBelow (cs++cs') =
      SessionLoop.focusablesBelow cs++SessionLoop.focusablesBelow cs' := by
  induction cs with
  | nil => rfl
  | cons c cs ih =>
      rw [List.cons_append,SessionLoop.focusablesBelow,SessionLoop.focusablesBelow,ih,
        List.append_assoc]

mutual
theorem focusables_seen (t : FocusTree Face) :
    SessionLoop.focusables (seen t) = (focusables (preorder t)).map seen := by
  obtain ⟨node,tabIndex,u⟩ := t
  have hbelow : (if kindOf u = .leaf then [] else SessionLoop.focusablesBelow (seenContent u)) =
      (focusables (preorderContent u)).map seen := by
    rw [← focusablesBelow_seen u]
    cases u <;> rfl
  rw [preorder,focusables_cons,seen,session_focusables_mk,hbelow]
  split_ifs
  · rw [List.map_cons,seen]
    rfl
  · rfl

theorem focusablesBelow_seen (u : Content (FocusTree Face)) :
    SessionLoop.focusablesBelow (seenContent u) = (focusables (preorderContent u)).map seen := by
  cases u with
  | container cs => exact focusablesBelow_seenList cs
  | flex direction wrap cs => exact focusablesBelow_seenList cs
  | grid columns cs => exact focusablesBelow_seenList cs
  | tabs child => exact focusablesBelow_seenOption child
  | splitPanes orientation position first second third =>
      rw [seenContent,preorderContent,focusablesBelow_append,focusablesBelow_append,
        focusablesBelow_seenOption first,focusablesBelow_seenOption second,
        focusablesBelow_seenOption third,focusables_append,focusables_append,List.map_append,
        List.map_append]
  | _ => rfl

theorem focusablesBelow_seenList (cs : List (FocusTree Face)) :
    SessionLoop.focusablesBelow (seenList cs) = (focusables (preorderList cs)).map seen := by
  cases cs with
  | nil => rfl
  | cons c cs =>
      rw [seenList,SessionLoop.focusablesBelow,focusables_seen c,focusablesBelow_seenList cs,
        preorderList,focusables_append,List.map_append]

theorem focusablesBelow_seenOption (child : Option (FocusTree Face)) :
    SessionLoop.focusablesBelow (seenOption child) =
      (focusables (preorderOption child)).map seen := by
  cases child with
  | none => rfl
  | some c =>
      rw [seenOption,SessionLoop.focusablesBelow,SessionLoop.focusablesBelow,focusables_seen c,
        List.append_nil,preorderOption]
end

/-- The search of the event loop finds the same node. -/
theorem session_findFocusable_seen (k : ℕ) (t : FocusTree Face) :
    SessionLoop.findFocusable k 0 (seen t) =
      match (findFocusable k t {}).1 with
      | some node => .inl (seen node)
      | none => .inr (countFocusable t) := by
  have hnumbered := numbered_add 0 k (SessionLoop.focusables (seen t))
  rw [Nat.zero_add] at hnumbered
  rw [session_findFocusable_eq,hnumbered,focusables_seen,findFocusable_getElem?,List.getElem?_map,
    List.length_map,Nat.zero_add,countFocusable_eq]
  cases (focusables (preorder t))[k]? <;> rfl

end Filly.FocusSearch

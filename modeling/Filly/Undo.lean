import Filly.LinkedChain

/-!
# The undo stack of `core/undo.c`

Actions are heap cells of one doubly linked list; the stack record holds three
pointers into it, a counter and its limit. Every dereference goes through the
memory, so a null or dangling pointer makes the operation undefined (`none`).
Callbacks are opaque: what is kept is the order in which they are called and
with which data. `free_data` calls are recorded separately.

The list held by the record is `head ... current | next ... `: everything up to
`current` can be undone, everything after it can be redone. `tail` is only ever
written by the source.
-/
namespace Filly.Undo
open LinkedChain

/-- The part of a `WidgetAction` its creator fills in; links are the cell's. -/
structure Action (δ : Type) where
  description : String
  undo : Bool := true
  redo : Bool := true
  freeData : Bool := true
  data : δ
  deriving DecidableEq, Repr

/-- `WidgetAction`. -/
abbrev WidgetAction (δ : Type) := Cell (Action δ)

structure UndoStack where
  head : Option ℕ
  current : Option ℕ
  tail : Option ℕ
  depth : ℕ
  maxDepth : ℕ
  deriving DecidableEq, Repr

inductive Call (δ : Type) where
  | undo (data : δ)
  | redo (data : δ)
  deriving DecidableEq, Repr

structure World (δ : Type) where
  mem : Memory (Action δ)
  fresh : ℕ
  stack : UndoStack
  calls : List (Call δ)
  freed : List δ

variable {δ : Type}

/-- `max_depth > 0 ? max_depth : 100`. -/
def limit (maxDepth : ℤ) : ℕ := if 0 < maxDepth then maxDepth.toNat else 100

def undoStackNew (maxDepth : ℤ) : World δ :=
  { mem := fun _ => none, fresh := 0, calls := [], freed := [],
    stack := ⟨none,none,none,0,limit maxDepth⟩ }

/-- The `calloc` and the assignments of the caller of `undo_stack_push`. -/
def alloc (w : World δ) (x : Action δ) : ℕ × World δ :=
  (w.fresh,{ w with mem := Function.update w.mem w.fresh (some ⟨x,none,none⟩), fresh := w.fresh+1 })

/-- An assignment through a valid pointer. -/
def store (w : World δ) (a : ℕ) (c : WidgetAction δ) : World δ :=
  { w with mem := Function.update w.mem a (some c) }

/-- `if (a->free_data) a->free_data(a->data); free(a->description); free(a)`. -/
def release (w : World δ) (a : ℕ) (c : WidgetAction δ) : World δ :=
  { w with mem := Function.update w.mem a none,
           freed := if c.val.freeData then w.freed++[c.val.data] else w.freed }

/-- The loop at the top of `undo_stack_push`. Its body clears `current->next`,
which is the loop's own guard, so it runs at most once. -/
def dropNext (w : World δ) : Option (World δ) :=
  match w.stack.current with
  | none => some w
  | some c => do
      let cur ← w.mem c
      match cur.next with
      | none => some w
      | some t => do
          let w := store w c { cur with next := none }
          let tmp ← w.mem t
          some (release w t { tmp with prev := none })

def link (w : World δ) (action : ℕ) : Option (World δ) :=
  match w.stack.head with
  | none =>
      some { w with stack := { w.stack with
        head := some action, tail := some action, current := some action } }
  | some _ => do
      let c ← w.stack.current
      let cur ← w.mem c
      let w := store w c { cur with next := some action }
      let new ← w.mem action
      let w := store w action { new with prev := some c }
      some { w with stack := { w.stack with current := some action, tail := some action } }

/-- One turn of the trimming loop. -/
def dropHead (w : World δ) : Option (World δ) := do
  let h ← w.stack.head
  let old ← w.mem h
  match old.next with
  | none =>
      let w := { w with stack := { w.stack with head := none, depth := w.stack.depth-1 } }
      some (release w h old)
  | some n => do
      let c ← w.mem n
      let w := store w n { c with prev := none }
      let w := { w with stack := { w.stack with head := some n, depth := w.stack.depth-1 } }
      some (release w h old)

/-- `while (depth > max_depth)`: each turn lowers the counter by one. -/
def trim : ℕ → World δ → Option (World δ)
  | 0, w => some w
  | n+1, w => do
      let w ← dropHead w
      trim n w

def undoStackPush (w : World δ) (action : ℕ) : Option (World δ) := do
  let w ← dropNext w
  let w ← link w action
  let w := { w with stack := { w.stack with depth := w.stack.depth+1 } }
  trim (w.stack.depth-w.stack.maxDepth) w

def undoStackUndo (w : World δ) : Option (Bool × World δ) :=
  match w.stack.current with
  | none => some (false,w)
  | some c => do
      let cur ← w.mem c
      if cur.val.undo then
        some (true,{ w with calls := w.calls++[.undo cur.val.data],
                            stack := { w.stack with current := cur.prev } })
      else some (false,w)

/-- `s->current ? s->current->next : s->head`. -/
def redoTarget (w : World δ) : Option (Option ℕ) :=
  match w.stack.current with
  | none => some w.stack.head
  | some c => do
      let cur ← w.mem c
      some cur.next

def undoStackRedo (w : World δ) : Option (Bool × World δ) := do
  match ← redoTarget w with
  | none => some (false,w)
  | some t => do
      let target ← w.mem t
      if target.val.redo then
        some (true,{ w with calls := w.calls++[.redo target.val.data],
                            stack := { w.stack with current := some t } })
      else some (false,w)

/-- The loop of `undo_stack_clear`. Every turn frees one allocated cell, so as
many turns as there were allocations are enough. -/
def clearFrom : ℕ → Option ℕ → World δ → Option (World δ)
  | _, none, w => some w
  | 0, some _, _ => none
  | n+1, some a, w => do
      let c ← w.mem a
      clearFrom n c.next (release w a c)

def undoStackClear (w : World δ) : Option (World δ) := do
  let w ← clearFrom w.fresh w.stack.head w
  some { w with stack := { w.stack with head := none, current := none, tail := none, depth := 0 } }

def undoStackPeekUndo (w : World δ) : Option (Option String) :=
  match w.stack.current with
  | none => some none
  | some c => do
      let cur ← w.mem c
      some (some cur.val.description)

def undoStackPeekRedo (w : World δ) : Option (Option String) := do
  match ← redoTarget w with
  | none => some none
  | some t => do
      let target ← w.mem t
      some (some target.val.description)

/-- An action with both callbacks, as every pushed action is taken to be. -/
structure Undoable (δ : Type) where
  action : Action δ
  undo : action.undo = true
  redo : action.redo = true

inductive Command (δ : Type) where
  | push (x : Undoable δ)
  | undo
  | redo
  | clear

/-- One public call; a push first builds the action it passes. -/
def perform (w : World δ) : Command δ → Option (World δ)
  | .push x => let a := alloc w x.action; undoStackPush a.2 a.1
  | .undo => (undoStackUndo w).map Prod.snd
  | .redo => (undoStackRedo w).map Prod.snd
  | .clear => undoStackClear w

def performAll (w : World δ) : List (Command δ) → Option (World δ)
  | [] => some w
  | c::cs => do
      let w ← perform w c
      performAll w cs

end Filly.Undo

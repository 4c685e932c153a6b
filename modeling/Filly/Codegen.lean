import Filly.GraphEditor
import Filly.Validator

/-!
# Scripts from the connection graph

`codegen_fil_script` writes a block for each edge, from one of several templates,
and then the scripts of the FIL nodes. A template gives the block a guard and an
action. A block that does not fit a buffer of 1024 bytes is left out.
-/
namespace Filly.Builder
open CJson

/-! ## Templates -/

inductive Action where
  | set (target value : Bytes)
  | show (widget : Bytes)
  | animate (widget : Bytes)
  | note (node port : Bytes)

def Action.text : Action → Bytes
  | .set target value => bytes "  set "++target++bytes " to "++value++bytes "\n"
  | .show widget => bytes "  show widget."++widget++bytes "\n"
  | .animate widget => bytes "  animate \""++widget++bytes "\" with \"fadeIn\"\n"
  | .note node port => bytes "  -- connected to "++node++bytes "."++port++bytes "\n"

inductive Template where
  | when (guard : Bytes) (action : Action)
  | note (fromNode fromPort toNode toPort : Bytes)

def Template.text : Template → Bytes
  | .when guard action => bytes "when "++guard++bytes " then\n"++action.text++bytes "end\n\n"
  | .note fromNode fromPort toNode toPort =>
      bytes "-- Edge: "++fromNode++bytes "."++fromPort++bytes " -> "++toNode++bytes "."++toPort++
        bytes "\n\n"

/-- The nodes and ports at the ends of an edge. -/
structure Wire where
  src : GraphNode
  srcPort : PortDef
  dst : GraphNode
  dstPort : PortDef

/-- An edge with indices in range, from an output to an input. -/
def wireOf (p : BuilderProject) (e : ConnectionEdge) : Option Wire := do
  let src ← readAt p.nodes e.fromNode.toInt
  let dst ← readAt p.nodes e.toNode.toInt
  let srcPort ← readAt src.ports e.fromPort.toInt
  let dstPort ← readAt dst.ports e.toPort.toInt
  if srcPort.isOutput ∧ ¬ dstPort.isOutput then some ⟨src,srcPort,dst,dstPort⟩ else none

def keyText (node : GraphNode) : Bytes := node.storeKey.getD (bytes "unknown")

def triggerAction (w : Wire) : Action :=
  if w.dst.type = .store ∧ w.dstPort.name = bytes "set" then
    .set (bytes "store."++keyText w.dst) (bytes "value of "++w.src.label)
  else if w.dst.type = .widget ∧ w.dstPort.name = bytes "set_visible" then .show w.dst.label
  else if w.dst.type = .widget ∧ w.dstPort.name = bytes "play_animation" then .animate w.dst.label
  else .note w.dst.label w.dstPort.name

def storeAction (w : Wire) : Action :=
  if w.dst.type = .widget ∧ w.dstPort.name = bytes "set_value" then
    .set (bytes "value of "++w.dst.label) (bytes "store."++keyText w.src)
  else .note w.dst.label w.dstPort.name

def animationEndAction (w : Wire) : Action :=
  if w.dst.type = .store ∧ w.dstPort.name = bytes "set" then
    .set (bytes "store."++keyText w.dst) (bytes "\"1\"")
  else .note w.dst.label w.dstPort.name

def Wire.template (w : Wire) : Template :=
  if w.src.type = .widget ∧ w.srcPort.type = .trigger then
    .when (bytes "widget."++w.src.label++bytes "."++w.srcPort.name) (triggerAction w)
  else if w.src.type = .store ∧ w.srcPort.name = bytes "value" then
    .when (bytes "store."++keyText w.src++bytes " changes") (storeAction w)
  else if w.src.type = .widget ∧ w.srcPort.name = bytes "animation_end" then
    .when (bytes "widget."++w.src.label++bytes ".animation_end") (animationEndAction w)
  else .note w.src.label w.srcPort.name w.dst.label w.dstPort.name

/-! ## The script -/

/-- What the loop appends for an edge. -/
def edgeBlock (p : BuilderProject) (e : ConnectionEdge) : Option Bytes := do
  let w ← wireOf p e
  if w.template.text.length < 1024 then some w.template.text else none

def edgeBlocks (p : BuilderProject) : List Bytes := p.edges.filterMap (edgeBlock p)

/-- The loop over the FIL nodes. An empty script with nothing before it looks at the
byte in front of the buffer, which is `before`. -/
def appendScripts (before : UInt8) : Bytes → List GraphNode → Bytes
  | out, [] => out
  | out, node::nodes =>
      match node.checkedScript with
      | none => appendScripts before out nodes
      | some script =>
          let out := out++script
          let out := if out.getLastD before ≠ 10 then out++[10] else out
          appendScripts before (out++[10]) nodes

def codegenFilScript (before : UInt8) (p : BuilderProject) : Bytes :=
  appendScripts before (edgeBlocks p).flatten p.nodes

/-! ## Edges that are lost -/

def Template.guard : Template → Option Bytes
  | .when guard _ => some guard
  | .note .. => none

def Template.assigned : Template → Option Bytes
  | .when _ (.set _ value) => some value
  | _ => none

/-- The edges that lead from an output to an input, with what they connect. -/
def properEdges (p : BuilderProject) : List (ConnectionEdge × Wire) :=
  p.edges.filterMap fun e => (wireOf p e).map fun w => (e,w)

/-- An expression of the edge is the guard of its block or the value assigned in it. -/
def Carried (e : ConnectionEdge) (t : Template) : Prop :=
  ∀ x, e.condition = some x ∨ e.transform = some x → t.guard = some x ∨ t.assigned = some x

/-- The blocks written are those of all proper edges, in their order, and each carries
the expressions of its edge. -/
def KeepsEdges (p : BuilderProject) : Prop :=
  List.Forall₂ (fun x block => block = x.2.template.text ∧ Carried x.1 x.2.template)
    (properEdges p) (edgeBlocks p)

theorem edgeBlocks_eq (p : BuilderProject) :
    edgeBlocks p = (properEdges p).filterMap fun x =>
      if x.2.template.text.length < 1024 then some x.2.template.text else none := by
  rw [edgeBlocks,properEdges,List.filterMap_filterMap]
  congr 1
  funext e
  unfold edgeBlock
  cases wireOf p e with
  | none => rfl
  | some w => rfl

theorem forall₂_filterMap_iff {α β : Type} {R : α → β → Prop} {f : α → Option β} {l : List α} :
    List.Forall₂ R l (l.filterMap f) ↔ ∀ a ∈ l, ∃ b, f a = some b ∧ R a b := by
  induction l with
  | nil => simp
  | cons a l ih =>
      rw [List.forall_mem_cons,← ih]
      cases hf : f a with
      | none =>
          rw [List.filterMap_cons_none hf]
          refine iff_of_false (fun h => ?_) (by simp)
          have hlen := h.length_eq
          have hle := List.length_filterMap_le f l
          rw [List.length_cons] at hlen
          omega
      | some b =>
          rw [List.filterMap_cons_some hf,List.forall₂_cons]
          simp

theorem KeepsEdges.fits {p : BuilderProject} (h : KeepsEdges p) : ∀ x ∈ properEdges p,
    x.2.template.text.length < 1024 ∧ Carried x.1 x.2.template := by
  rw [KeepsEdges,edgeBlocks_eq,forall₂_filterMap_iff] at h
  intro x hx
  obtain ⟨block,hblock,-,hcarried⟩ := h x hx
  split_ifs at hblock with hlen
  exact ⟨hlen,hcarried⟩

/-- No edge is lost exactly when the blocks fit and an expression of an edge is what
its template writes anyway. -/
theorem keepsEdges_iff (p : BuilderProject) :
    KeepsEdges p ↔ ∀ x ∈ properEdges p,
      x.2.template.text.length < 1024 ∧ Carried x.1 x.2.template := by
  constructor
  · exact KeepsEdges.fits
  · intro h
    rw [KeepsEdges,edgeBlocks_eq,forall₂_filterMap_iff]
    intro x hx
    exact ⟨_,if_pos (h x hx).1,rfl,(h x hx).2⟩

/-- Two stores with the keys `key` and `b`, and an edge between them. -/
def storeToStore (key : Bytes) (condition transform : Option Bytes) : BuilderProject :=
  let p := projectAddStoreNode (projectAddStoreNode (projectNew none 80 24) key none none) [98]
    none none
  { p with edges := [⟨0,0,1,1,condition,transform⟩] }

theorem properEdges_storeToStore (condition transform : Option Bytes) :
    (properEdges (storeToStore [97] condition transform)).map (fun x => (x.1,x.2.template)) =
      [(⟨0,0,1,1,condition,transform⟩,
        .when (bytes "store.a changes") (.note (bytes "store.b") (bytes "set")))] := rfl

theorem not_keepsEdges_storeToStore {condition transform : Option Bytes} {x : Bytes}
    (hx : condition = some x ∨ transform = some x) (hne : bytes "store.a changes" ≠ x) :
    ¬ KeepsEdges (storeToStore [97] condition transform) := by
  intro h
  have hmem : (⟨0,0,1,1,condition,transform⟩,
      Template.when (bytes "store.a changes") (.note (bytes "store.b") (bytes "set"))) ∈
      (properEdges (storeToStore [97] condition transform)).map fun x => (x.1,x.2.template) := by
    rw [properEdges_storeToStore]
    exact List.mem_singleton_self _
  obtain ⟨y,hy,heq⟩ := List.mem_map.mp hmem
  have hcarried := (h.fits y hy).2
  rw [Prod.mk.injEq] at heq
  rw [heq.1,heq.2] at hcarried
  rcases hcarried x hx with hg | ha
  · exact hne (Option.some.inj hg)
  · cases ha

/-- A condition and a transform are not written, and a long key loses the whole block. -/
theorem expressions_and_long_blocks_are_lost :
    ¬ KeepsEdges (storeToStore [97] (some [120]) none) ∧
      ¬ KeepsEdges (storeToStore [97] none (some [120])) ∧
      edgeBlocks (storeToStore (List.replicate 1024 97) none none) = [] ∧
      ¬ KeepsEdges (storeToStore (List.replicate 1024 97) none none) := by
  have hnone : edgeBlocks (storeToStore (List.replicate 1024 97) none none) = [] := by
    decide +kernel
  refine ⟨not_keepsEdges_storeToStore (Or.inl rfl) (by decide +kernel),
    not_keepsEdges_storeToStore (Or.inr rfl) (by decide +kernel),hnone,fun h => ?_⟩
  have hlen := h.length_eq
  rw [hnone] at hlen
  exact absurd hlen (by decide +kernel)

end Filly.Builder

import Filly.CLiterals
import Filly.GeneratedFil

/-!
# The generated plugin

`codegen_c_plugin` prints the FIL script and the names of the widgets between quotes
as they are. The file is a list of pieces here, so that a literal is read where it was
written. A script that is not empty has a line end in it, which no literal may have.
-/
namespace Filly.Builder
open CJson CLiterals

/-! ## The file -/

inductive Piece where
  | code (text : Bytes)
  | literal (text : Bytes)

def Piece.text : Piece → Bytes
  | .code text => text
  | .literal text => 34::(text++[34])

def fileText (pieces : List Piece) : Bytes := pieces.flatMap Piece.text

def includeLines : Bytes :=
  bytes "#include \"core/widget.h\"\n"++
  bytes "#include \"core/widget_base.h\"\n"++
  bytes "#include \"core/render.h\"\n"++
  bytes "#include \"core/session.h\"\n"++
  bytes "#include \"core/store.h\"\n"++
  bytes "#include \"core/arena.h\"\n"++
  bytes "#include \"core/theme.h\"\n"++
  bytes "#include \"core/animation.h\"\n"++
  bytes "#include \"script/fil.h\"\n"++
  bytes "#include <stdlib.h>\n"++
  bytes "#include <string.h>\n\n"

def dataLines (name : Bytes) : Bytes :=
  bytes "typedef struct \x7b\n"++
  bytes "    WidgetBase base;\n"++
  bytes "    RenderTree *layout;\n"++
  bytes "    Arena *arena;\n"++
  bytes "    Theme *theme;\n"++
  bytes "    Store *store;\n"++
  bytes "\x7d "++name++bytes "Data;\n\n"

def layoutLines (p : BuilderProject) (topLevel : ℕ) : Bytes :=
  bytes "static RenderTree *build_layout(Arena *arena, Theme *theme) \x7b\n"++
  bytes "    RenderTree *root = arena_alloc(arena, sizeof(RenderTree));\n"++
  bytes "    memset(root, 0, sizeof(*root));\n"++
  bytes "    root->type = RNODE_CONTAINER;\n"++
  bytes "    root->rect = rect_new(0, 0, "++Fil.intText p.rootWidth.toInt++bytes ", "++
    Fil.intText p.rootHeight.toInt++bytes ");\n"++
  bytes "    root->resolved_style = widgetstyle_default();\n"++
  bytes "    root->container.padding = edgeinsets_zero();\n\n"++
  bytes "    RenderTree *children = arena_alloc(arena, "++Fil.intText topLevel++
    bytes " * sizeof(RenderTree));\n"

def childLines (idx : ℕ) (r : Rect) : Bytes :=
  let child := bytes "    children["++Fil.intText idx++bytes "]."
  child++bytes "type = RNODE_TEXT;\n"++
  child++bytes "rect = rect_new("++Fil.intText r.x.toInt++bytes ", "++Fil.intText r.y.toInt++
    bytes ", "++Fil.intText r.w.toInt++bytes ", "++Fil.intText r.h.toInt++bytes ");\n"++
  child++bytes "resolved_style = widgetstyle_default();\n"++
  child++bytes "resolved_style.font_size = 14;\n"++
  child++bytes "text.content = arena_strdup(arena, "

/-- The loop over the items of the top level. -/
def childPieces : ℕ → List CanvasItem → List Piece
  | _, [] => []
  | idx, item::items =>
      .code (childLines idx item.rect)::.literal item.instanceName::.code (bytes ");\n")::
        childPieces (idx+1) items

def layoutEnd (topLevel : ℕ) : Bytes :=
  bytes "    root->container.children = children;\n"++
  bytes "    root->container.child_count = "++Fil.intText topLevel++bytes ";\n"++
  bytes "    return root;\n"++
  bytes "\x7d\n\n"

def widgetLines (name : Bytes) : Bytes :=
  let data := bytes "    "++name++bytes "Data *d = ("++name++bytes "Data *)(self + 1);\n"
  bytes "static void "++name++bytes "_render(Widget *self, Rect area, RenderTree *out) \x7b\n"++
  data++
  bytes "    arena_reset(d->arena);\n"++
  bytes "    RenderTree *layout = build_layout(d->arena, d->theme);\n"++
  bytes "    resolve_node_styles(layout, d->theme);\n"++
  bytes "    *out = *layout;\n"++
  bytes "\x7d\n\n"++
  bytes "static EventResult "++name++
    bytes "_handle_event(Widget *self, Event *ev, Backend *backend) \x7b\n"++
  data++
  bytes "    if (ev->type == EVENT_KEY && ev->code == KEY_ESC)\n"++
  bytes "        return event_result_response((WidgetResponse)\x7bNULL, true\x7d);\n"++
  bytes "    FilResult *fr = fil_eval(fil_script, store_get_safe, NULL);\n"++
  bytes "    if (fr && !fr->accepted) \x7b\n"++
  bytes "        EventResult er = event_result_response((WidgetResponse)\x7bNULL, true, "++
    bytes "fr->error_msg\x7d);\n"++
  bytes "        fil_result_free(fr);\n"++
  bytes "        return er;\n"++
  bytes "    \x7d\n"++
  bytes "    if (fr) fil_result_free(fr);\n"++
  bytes "    return event_result_unhandled();\n"++
  bytes "\x7d\n\n"++
  bytes "static void "++name++bytes "_destroy(Widget *self) \x7b\n"++
  data++
  bytes "    if (d->arena) arena_free(d->arena);\n"++
  bytes "    if (d->theme) theme_free(d->theme);\n"++
  bytes "    if (d->store) store_free(d->store);\n"++
  bytes "\x7d\n\n"

def registerLines (name : Bytes) : Bytes :=
  bytes "Widget *"++name++bytes "_new(void) \x7b\n"++
  bytes "    Widget *w = calloc(1, sizeof(Widget) + sizeof("++name++bytes "Data));\n"++
  bytes "    "++name++bytes "Data *d = ("++name++bytes "Data *)(w + 1);\n"++
  bytes "    d->base.dirty = true;\n"++
  bytes "    d->arena = arena_new(1024 * 1024);\n"++
  bytes "    d->theme = theme_default();\n"++
  bytes "    d->store = store_new();\n"++
  bytes "    widget_base_init(w, d, sizeof("++name++bytes "Data), "++name++bytes "_render, "++
    name++bytes "_handle_event, "++name++bytes "_destroy);\n"++
  bytes "    return w;\n"++
  bytes "\x7d\n\n"++
  bytes "void register_plugins(void (*reg)(const char *, WidgetFactory)) \x7b\n"++
  bytes "    reg(\""++name++bytes "\", "++name++bytes "_new);\n"++
  bytes "\x7d\n"

def topLevelItems (p : BuilderProject) : List CanvasItem :=
  p.items.filter fun item => item.parentId = -1

/-- The C file that `codegen_c_plugin` writes. -/
def codegenCPlugin (before : UInt8) (p : BuilderProject) : List Piece :=
  let items := topLevelItems p
  .code (includeLines++bytes "static const char *fil_script =\n    ")::
  .literal (codegenFilScript before p)::
  .code (bytes ";\n\n"++dataLines p.projectName++layoutLines p items.length)::
  (childPieces 0 items++
  [.code (layoutEnd items.length++widgetLines p.projectName++registerLines p.projectName)])

/-- The literals of a file, each with the text behind its closing quote. -/
def literals : List Piece → List (Bytes × Bytes)
  | [] => []
  | .code _::pieces => literals pieces
  | .literal text::pieces => (text,fileText pieces)::literals pieces

/-! ## Literals that are read back -/

theorem literals_append_code (pieces : List Piece) (text : Bytes) :
    (literals (pieces++[.code text])).map Prod.fst = (literals pieces).map Prod.fst := by
  induction pieces with
  | nil => rfl
  | cons piece pieces ih =>
      cases piece with
      | code _ => exact ih
      | literal _ => exact congrArg (_::·) ih

theorem literals_childPieces (idx : ℕ) (items : List CanvasItem) :
    (literals (childPieces idx items)).map Prod.fst = items.map CanvasItem.instanceName := by
  induction items generalizing idx with
  | nil => rfl
  | cons item items ih => exact congrArg (_::·) (ih (idx+1))

/-- The literals of the file are the script and the names of the top level. -/
theorem literals_codegenCPlugin (before : UInt8) (p : BuilderProject) :
    (literals (codegenCPlugin before p)).map Prod.fst =
      codegenFilScript before p::(topLevelItems p).map CanvasItem.instanceName := by
  rw [← literals_childPieces 0]
  exact congrArg (_::·) (literals_append_code _ _)

/-- By the rules of C each literal of the file has the text it was made from. -/
def FaithfulC (before : UInt8) (p : BuilderProject) : Prop :=
  ∀ x ∈ literals (codegenCPlugin before p), ReadsBack x.1 x.2

theorem faithfulC_iff_plain (before : UInt8) (p : BuilderProject) :
    FaithfulC before p ↔ Plain (codegenFilScript before p) ∧
      ∀ item ∈ topLevelItems p, Plain item.instanceName := by
  have hlits : FaithfulC before p ↔
      ∀ t ∈ (literals (codegenCPlugin before p)).map Prod.fst, Plain t := by
    rw [List.forall_mem_map]
    exact forall₂_congr fun x _ => readsBack_iff
  rw [hlits,literals_codegenCPlugin,List.forall_mem_cons,List.forall_mem_map]

/-- A block ends with a line end. -/
theorem newline_mem_template (t : Template) : 10 ∈ t.text := by
  have hwhen : (10 : UInt8) ∈ bytes "end\n\n" := by decide
  have hnote : (10 : UInt8) ∈ bytes "\n\n" := by decide
  cases t with
  | when guard action => exact List.mem_append_right _ hwhen
  | note fromNode fromPort toNode toPort => exact List.mem_append_right _ hnote

/-- The script of a FIL node is followed by a line end. -/
theorem newline_mem_appendScripts {before : UInt8} {nodes : List GraphNode} {node : GraphNode}
    (hm : node ∈ nodes) (h : node.checkedScript ≠ none) (out : Bytes) :
    10 ∈ appendScripts before out nodes := by
  induction nodes generalizing out with
  | nil => cases hm
  | cons first nodes ih =>
      unfold appendScripts
      cases hfirst : first.checkedScript with
      | none =>
          rcases List.mem_cons.mp hm with rfl | hm
          · exact absurd hfirst h
          · exact ih hm out
      | some script =>
          simp only
          generalize (if (out++script).getLastD before ≠ 10 then out++script++[10]
            else out++script) = text
          obtain ⟨rest,hrest⟩ := appendScripts_eq before (text++[10]) nodes
          rw [hrest]
          simp

theorem appendScripts_of_none {before : UInt8} {nodes : List GraphNode}
    (h : ∀ node ∈ nodes, node.checkedScript = none) (out : Bytes) :
    appendScripts before out nodes = out := by
  induction nodes generalizing out with
  | nil => rfl
  | cons node nodes ih =>
      rw [List.forall_mem_cons] at h
      rw [appendScripts,h.1]
      exact ih h.2 out

/-- A generated script is plain only if it is empty. -/
theorem plain_codegenFilScript_iff (before : UInt8) (p : BuilderProject) :
    Plain (codegenFilScript before p) ↔
      (∀ x ∈ properEdges p, 1024 ≤ x.2.template.text.length) ∧
        ∀ node ∈ p.nodes, node.checkedScript = none := by
  rw [← edgeBlocks_eq_nil_iff]
  constructor
  · intro h
    have hline : 10 ∉ codegenFilScript before p := fun hm => (h.chars 10 hm).2.2 rfl
    constructor
    · cases hblocks : edgeBlocks p with
      | nil => rfl
      | cons block blocks =>
          obtain ⟨x,-,rfl⟩ := exists_of_edgeBlocks_cons hblocks
          obtain ⟨rest,hrest⟩ := appendScripts_eq before (edgeBlocks p).flatten p.nodes
          rw [codegenFilScript,hrest,hblocks,List.flatten_cons,List.append_assoc] at hline
          exact absurd (List.mem_append_left _ (newline_mem_template _)) hline
    · intro node hm
      by_contra hscript
      exact hline (newline_mem_appendScripts hm hscript _)
  · rintro ⟨hblocks,hnone⟩
    rw [codegenFilScript,hblocks,appendScripts_of_none hnone]
    exact ⟨fun c hc => (List.not_mem_nil hc).elim,fun c _ => by simp⟩

/-- The literals of the plugin are right exactly when no block is written, no FIL node
has a script, and the names of the top level have no character that C reads otherwise. -/
theorem faithfulC_iff (before : UInt8) (p : BuilderProject) :
    FaithfulC before p ↔
      ((∀ x ∈ properEdges p, 1024 ≤ x.2.template.text.length) ∧
        ∀ node ∈ p.nodes, node.checkedScript = none) ∧
      ∀ item ∈ p.items, item.parentId = -1 → Plain item.instanceName := by
  rw [faithfulC_iff_plain,plain_codegenFilScript_iff]
  simp [topLevelItems]

/-- A widget named `a"b`. -/
def quotedName : BuilderProject :=
  { projectNew none 80 24 with items := [{ brokenItem 1 (-1) with instanceName := [97,34,98] }] }

/-- The script of an edge breaks its literal, and so does a quote in a name. -/
theorem generated_literals_are_broken :
    ¬ FaithfulC 0 inputToStore ∧ ¬ FaithfulC 0 quotedName := by
  constructor
  · intro h
    have hplain := ((faithfulC_iff_plain 0 inputToStore).1 h).1
    have hline : (10 : UInt8) ∈ codegenFilScript 0 inputToStore := by decide +kernel
    exact (hplain.chars 10 hline).2.2 rfl
  · intro h
    have hplain := ((faithfulC_iff_plain 0 quotedName).1 h).2 _
      (show { brokenItem 1 (-1) with instanceName := [97,34,98] } ∈ topLevelItems quotedName by
        simp [topLevelItems,quotedName,brokenItem])
    exact (hplain.chars 34 (by decide)).1 rfl

end Filly.Builder

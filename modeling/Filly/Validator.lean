import Filly.FilFailure
import Filly.GraphEditor
import Mathlib.Logic.Relation

/-!
# Validation before export

`validator_check_all` makes a list of issues, and a project is exported unless one
of them is an error. The scripts of FIL nodes are evaluated without a store, so a
script that reads one ends the program instead of giving a report.
-/
namespace Filly.Builder
open CJson Descent Outcome Relation Runs

inductive ValidationSeverity where
  | vError
  | vWarning
  | vInfo
  deriving DecidableEq

structure ValidationIssue where
  severity : ValidationSeverity
  message : Bytes
  itemId : Int32
  nodeId : Int32
  edgeIdx : Int32
  keymapIdx : Int32
  deriving DecidableEq

/-! ## The checks -/

/-- A name between quotes. -/
def quoted (name : Bytes) : Bytes := bytes "'"++name++bytes "'"

def itemIssue (severity : ValidationSeverity) (item : CanvasItem) (message : Bytes) :
    ValidationIssue :=
  ⟨severity,Fil.snprintf message,item.id,-1,-1,-1⟩

def rectsOverlap (a b : Rect) : Bool :=
  !(a.x+a.w ≤ b.x || b.x+b.w ≤ a.x || a.y+a.h ≤ b.y || b.y+b.h ≤ a.y)

/-- Each entry with those behind it: the two loops `i` and `j = i + 1`. -/
def withLater {α : Type} : List α → List (α × List α)
  | [] => []
  | a::l => (a,l)::withLater l

def overlapIssue (item other : CanvasItem) : Option ValidationIssue :=
  if item.parentId = other.parentId ∧ rectsOverlap item.rect other.rect then
    some (itemIssue .vWarning item (bytes "Widgets "++quoted item.instanceName++bytes " and "++
      quoted other.instanceName++bytes " overlap"))
  else none

/-- The message of a check that fails. -/
def issueIf (fails : Bool) (issue : ValidationIssue) : List ValidationIssue :=
  if fails then [issue] else []

def selfParentIssue (item : CanvasItem) : ValidationIssue :=
  itemIssue .vError item (bytes "Widget "++quoted item.instanceName++bytes " is its own parent")

def dimensionsIssue (item : CanvasItem) : ValidationIssue :=
  itemIssue .vError item (bytes "Widget "++quoted item.instanceName++
    bytes " has invalid dimensions ("++Fil.intText item.rect.w.toInt++bytes "x"++
      Fil.intText item.rect.h.toInt++bytes ")")

def boundsIssue (item : CanvasItem) : ValidationIssue :=
  itemIssue .vWarning item
    (bytes "Widget "++quoted item.instanceName++bytes " extends beyond root bounds")

def tabIssue (item : CanvasItem) : ValidationIssue :=
  itemIssue .vInfo item (bytes "Widget "++quoted item.instanceName++bytes " has no tab index set")

/-- The first loop over the items. -/
def itemIssues (p : BuilderProject) : List ValidationIssue :=
  (withLater p.items).flatMap fun (item,later) =>
    later.filterMap (overlapIssue item)++
    issueIf (item.id = item.parentId) (selfParentIssue item)++
    issueIf (item.rect.w ≤ 0 ∨ item.rect.h ≤ 0) (dimensionsIssue item)++
    issueIf (item.rect.x+item.rect.w > p.rootWidth ∨ item.rect.y+item.rect.h > p.rootHeight)
      (boundsIssue item)++
    issueIf (item.tabIndex = 0) (tabIssue item)

def sameTabIssue (item other : CanvasItem) : Option ValidationIssue :=
  if item.tabIndex > 0 ∧ item.tabIndex = other.tabIndex then
    some (itemIssue .vWarning item (bytes "Duplicate tab index "++
      Fil.intText item.tabIndex.toInt++bytes " for "++quoted item.instanceName++bytes " and "++
      quoted other.instanceName))
  else none

def tabOrderIssues (p : BuilderProject) : List ValidationIssue :=
  (withLater p.items).flatMap fun (item,later) => later.filterMap (sameTabIssue item)

def interactiveTypes : List Bytes :=
  [bytes "input",bytes "password",bytes "menu",bytes "checklist",bytes "toggle",bytes "checkbox",
   bytes "button",bytes "yesno"]

def interactiveIssues (p : BuilderProject) : List ValidationIssue :=
  p.items.flatMap fun item =>
    issueIf (item.widgetType ∈ interactiveTypes ∧ item.tabIndex = 0)
      (itemIssue .vWarning item (bytes "Interactive widget "++quoted item.instanceName++
        bytes " needs a tab index"))

def unconnectedIssues (p : BuilderProject) : List ValidationIssue :=
  p.nodes.zipIdx.flatMap fun (node,i) =>
    issueIf (node.ports.any (·.isOutput) ∧ ¬ p.edges.any (·.fromNode = Int32.ofNat i) ∧
        node.type = .widget)
      ⟨.vInfo,Fil.snprintf (bytes "Node "++quoted node.label++
        bytes " has unconnected output ports"),-1,Int32.ofNat i,-1,-1⟩

/-- An edge is looked at on its own and with the edges behind it. -/
def hasCycle (e : ConnectionEdge) (later : List ConnectionEdge) : Bool :=
  e.fromNode = e.toNode || later.any fun d => d.fromNode = e.toNode && d.toNode = e.fromNode

def cycleIssue (i : ℕ) : ValidationIssue :=
  ⟨.vError,Fil.snprintf (bytes "Cycle detected involving edge "++Fil.intText i),-1,-1,
    Int32.ofNat i,-1⟩

def cycleIssues (p : BuilderProject) : List ValidationIssue :=
  (withLater p.edges).zipIdx.flatMap fun ((e,later),i) => issueIf (hasCycle e later) (cycleIssue i)

/-- `fil_eval(script, NULL, NULL)`. -/
def noStore (regcomp : Bytes → Option (Bytes → Bool)) : Fil.Env :=
  { storeGet := none, value := none, regcomp := regcomp }

/-- The buffer has 512 bytes here. -/
def filIssue (node : GraphNode) (i : ℕ) (error : Bytes) : ValidationIssue :=
  ⟨.vError,(bytes "FIL error in node "++quoted node.label++bytes ": "++error).take 511,-1,
    Int32.ofNat i,-1,-1⟩

/-- The script a node is checked for. -/
def GraphNode.checkedScript (node : GraphNode) : Option Bytes :=
  if node.type = .filBlock then node.filScript else none

def filIssuesFrom (env : Fil.Env) : ℕ → List GraphNode → Outcome (List ValidationIssue)
  | _, [] => .ok []
  | i, node::nodes =>
      match node.checkedScript with
      | none => filIssuesFrom env (i+1) nodes
      | some script => do
          let result ← Fil.filEval env script
          let issues ← filIssuesFrom env (i+1) nodes
          match result.errorMsg with
          | none => .ok issues
          | some error => .ok (filIssue node i error::issues)

def storeIssues (p : BuilderProject) : List ValidationIssue :=
  p.storeVars.flatMap fun v =>
    issueIf (¬ p.nodes.any (·.storeKey = some v.key))
      ⟨.vInfo,Fil.snprintf (bytes "Store variable "++quoted v.key++
        bytes " is declared but never used"),-1,-1,-1,-1⟩

def keymapIssues (p : BuilderProject) : List ValidationIssue :=
  issueIf (p.keymaps.isEmpty && !p.items.isEmpty)
    ⟨.vWarning,bytes "No keybindings defined",-1,-1,-1,-1⟩

def validatorCheckAll (regcomp : Bytes → Option (Bytes → Bool)) (p : BuilderProject) :
    Outcome (List ValidationIssue) := do
  let fil ← filIssuesFrom (noStore regcomp) 0 p.nodes
  .ok (itemIssues p++tabOrderIssues p++interactiveIssues p++unconnectedIssues p++cycleIssues p++
    fil++storeIssues p++keymapIssues p)

/-! ## What is reported as an error -/

/-- An edge leads from one node to the other. -/
def Adj (p : BuilderProject) (a b : Int32) : Prop :=
  ∃ e ∈ p.edges, e.fromNode = a ∧ e.toNode = b

def HasCycle (p : BuilderProject) : Prop := ∃ a, TransGen (Adj p) a a

/-- A cycle of one or two edges. -/
def ShortCycle (p : BuilderProject) : Prop := ∃ a b, Adj p a b ∧ Adj p b a

section

variable {α : Type} {l : List α} {x : α × List α}

theorem mem_of_mem_withLater (h : x ∈ withLater l) : x.1 ∈ l := by
  induction l with
  | nil => cases h
  | cons a l ih =>
      rcases List.mem_cons.mp h with rfl | h
      · exact List.mem_cons_self
      · exact List.mem_cons_of_mem a (ih h)

theorem exists_mem_withLater {a : α} (h : a ∈ l) : ∃ later, (a,later) ∈ withLater l := by
  induction l with
  | nil => cases h
  | cons b l ih =>
      rcases List.mem_cons.mp h with rfl | h
      · exact ⟨l,List.mem_cons_self⟩
      · obtain ⟨later,hl⟩ := ih h
        exact ⟨later,List.mem_cons_of_mem _ hl⟩

end

@[simp] theorem mem_issueIf {fails : Bool} {issue i : ValidationIssue} :
    i ∈ issueIf fails issue ↔ fails = true ∧ i = issue := by
  unfold issueIf
  split_ifs with h <;> simp [h]

theorem hasCycle_iff (e : ConnectionEdge) (later : List ConnectionEdge) :
    hasCycle e later = true ↔
      e.fromNode = e.toNode ∨ ∃ d ∈ later, d.fromNode = e.toNode ∧ d.toNode = e.fromNode := by
  simp [hasCycle]

/-- Looking at each pair of edges once finds a pair of opposite ones. -/
theorem exists_hasCycle_iff (edges : List ConnectionEdge) :
    (∃ x ∈ withLater edges, hasCycle x.1 x.2 = true) ↔
      ∃ d ∈ edges, ∃ e ∈ edges, d.fromNode = e.toNode ∧ d.toNode = e.fromNode := by
  induction edges with
  | nil => simp [withLater]
  | cons a l ih =>
      rw [withLater,List.exists_mem_cons_iff,ih,hasCycle_iff]
      simp only [List.exists_mem_cons_iff]
      constructor
      · rintro ((h | ⟨d,hd,h⟩) | ⟨d,hd,e,he,h⟩)
        · exact Or.inl (Or.inl ⟨h,h.symm⟩)
        · exact Or.inr ⟨d,hd,Or.inl h⟩
        · exact Or.inr ⟨d,hd,Or.inr ⟨e,he,h⟩⟩
      · rintro ((h | ⟨e,he,h⟩) | ⟨d,hd,h | ⟨e,he,h⟩⟩)
        · exact Or.inl (Or.inl h.1)
        · exact Or.inl (Or.inr ⟨e,he,h.2.symm,h.1.symm⟩)
        · exact Or.inl (Or.inr ⟨d,hd,h⟩)
        · exact Or.inr ⟨d,hd,e,he,h⟩

theorem exists_mem_cycleIssues_iff (p : BuilderProject) :
    (∃ issue, issue ∈ cycleIssues p) ↔ ShortCycle p := by
  have hpairs := exists_hasCycle_iff p.edges
  constructor
  · rintro ⟨issue,h⟩
    obtain ⟨⟨x,i⟩,hx,hissue⟩ := List.mem_flatMap.mp h
    have hmem := List.mem_of_getElem? (List.mem_zipIdx_iff_getElem?.mp hx)
    obtain ⟨d,hd,e,he,h₁,h₂⟩ := hpairs.mp ⟨x,hmem,(mem_issueIf.mp hissue).1⟩
    exact ⟨d.fromNode,d.toNode,⟨d,hd,rfl,rfl⟩,⟨e,he,h₂.symm,h₁.symm⟩⟩
  · rintro ⟨a,b,⟨d,hd,rfl,rfl⟩,⟨e,he,h₁,h₂⟩⟩
    obtain ⟨x,hx,hcycle⟩ := hpairs.mpr ⟨d,hd,e,he,h₂.symm,h₁.symm⟩
    obtain ⟨i,hi⟩ := List.getElem?_of_mem hx
    exact ⟨cycleIssue i,List.mem_flatMap.mpr
      ⟨(x,i),List.mem_zipIdx_iff_getElem?.mpr hi,mem_issueIf.mpr ⟨hcycle,rfl⟩⟩⟩

theorem cycleIssue_of_mem {p : BuilderProject} {issue : ValidationIssue}
    (h : issue ∈ cycleIssues p) : ∃ i, issue = cycleIssue i := by
  obtain ⟨⟨x,i⟩,-,hissue⟩ := List.mem_flatMap.mp h
  exact ⟨i,(mem_issueIf.mp hissue).2⟩

theorem itemIssues_error {p : BuilderProject} {issue : ValidationIssue}
    (h : issue ∈ itemIssues p) (he : issue.severity = .vError) :
    ∃ item ∈ p.items, item.id = item.parentId ∧ issue = selfParentIssue item ∨
      (item.rect.w ≤ 0 ∨ item.rect.h ≤ 0) ∧ issue = dimensionsIssue item := by
  obtain ⟨⟨item,later⟩,hx,hissue⟩ := List.mem_flatMap.mp h
  refine ⟨item,mem_of_mem_withLater hx,?_⟩
  simp only [List.mem_append,mem_issueIf,decide_eq_true_eq] at hissue
  rcases hissue with (((hover | hself) | hdim) | hbounds) | htab
  · obtain ⟨other,-,hother⟩ := List.mem_filterMap.mp hover
    unfold overlapIssue at hother
    split_ifs at hother
    rw [← Option.some.inj hother] at he
    cases he
  · exact Or.inl hself
  · exact Or.inr hdim
  · rw [hbounds.2] at he
    cases he
  · rw [htab.2] at he
    cases he

theorem mem_itemIssues_of_item {p : BuilderProject} {item : CanvasItem} (hm : item ∈ p.items) :
    (item.id = item.parentId → selfParentIssue item ∈ itemIssues p) ∧
      (item.rect.w ≤ 0 ∨ item.rect.h ≤ 0 → dimensionsIssue item ∈ itemIssues p) := by
  obtain ⟨later,hl⟩ := exists_mem_withLater hm
  constructor
  · intro h
    refine List.mem_flatMap.mpr ⟨(item,later),hl,?_⟩
    simp only [List.mem_append,mem_issueIf,decide_eq_true_eq]
    exact Or.inl (Or.inl (Or.inl (Or.inr ⟨h,trivial⟩)))
  · intro h
    refine List.mem_flatMap.mpr ⟨(item,later),hl,?_⟩
    simp only [List.mem_append,mem_issueIf,decide_eq_true_eq]
    exact Or.inl (Or.inl (Or.inr ⟨h,trivial⟩))

theorem filEval_ne_spin (env : Fil.Env) (script : Bytes) : Fil.filEval env script ≠ .spin := by
  have hends : (Fil.filEval env script).Ends fun _ => True :=
    (Fil.runScript_ends env script).bind fun _ _ => trivial
  exact hends.ne_spin

section

variable (regcomp : Bytes → Option (Bytes → Bool))

/-- No script of a FIL node reads the missing store or leaves C. -/
def Evaluates (p : BuilderProject) : Prop :=
  ∀ node ∈ p.nodes, ∀ script, node.checkedScript = some script →
    Fil.filEval (noStore regcomp) script ≠ Descent.Outcome.undef

/-- The script of the node ends with a message. -/
def Rejects (node : GraphNode) : Prop :=
  ∃ script result, node.checkedScript = some script ∧
    Fil.filEval (noStore regcomp) script = .ok result ∧ result.errorMsg ≠ none

/-- What the loop over the FIL nodes has made so far: one error for each node whose
script rejects. -/
structure FilReport (nodes : List GraphNode) (issues : List ValidationIssue) : Prop where
  errors : ∀ issue ∈ issues, ∃ node i error, issue = filIssue node i error
  some : (∃ issue, issue ∈ issues) ↔ ∃ node ∈ nodes, Rejects regcomp node

variable {regcomp}

theorem filIssuesFrom_ok {nodes : List GraphNode}
    (h : ∀ node ∈ nodes, ∀ script, node.checkedScript = some script →
      Fil.filEval (noStore regcomp) script ≠ .undef) (i : ℕ) :
    ∃ issues, filIssuesFrom (noStore regcomp) i nodes = .ok issues ∧
      FilReport regcomp nodes issues := by
  induction nodes generalizing i with
  | nil => exact ⟨[],rfl,⟨fun _ hm => (List.not_mem_nil hm).elim,by simp⟩⟩
  | cons node nodes ih =>
      rw [List.forall_mem_cons] at h
      obtain ⟨issues,hissues,hreport⟩ := ih h.2 (i+1)
      unfold filIssuesFrom
      cases hscript : node.checkedScript with
      | none =>
          refine ⟨issues,hissues,hreport.errors,?_⟩
          simp [hreport.some,Rejects,hscript]
      | some script =>
          cases heval : Fil.filEval (noStore regcomp) script with
          | spin => exact absurd heval (filEval_ne_spin _ script)
          | undef => exact absurd heval (h.1 script hscript)
          | ok result =>
              have hrejects : Rejects regcomp node ↔ result.errorMsg ≠ none := by
                simp [Rejects,hscript,heval]
              simp only [heval,ok_bind,hissues]
              cases herror : result.errorMsg with
              | none =>
                  refine ⟨issues,rfl,hreport.errors,?_⟩
                  rw [hreport.some,List.exists_mem_cons_iff,hrejects]
                  simp [herror]
              | some error =>
                  refine ⟨_,rfl,List.forall_mem_cons.mpr ⟨⟨node,i,error,rfl⟩,hreport.errors⟩,?_⟩
                  rw [List.exists_mem_cons_iff,hrejects]
                  simp [herror]

theorem evaluates_of_ok {nodes : List GraphNode} {i : ℕ} {issues : List ValidationIssue}
    (h : filIssuesFrom (noStore regcomp) i nodes = .ok issues) :
    ∀ node ∈ nodes, ∀ script, node.checkedScript = some script →
      Fil.filEval (noStore regcomp) script ≠ .undef := by
  induction nodes generalizing i issues with
  | nil => exact fun _ hm => (List.not_mem_nil hm).elim
  | cons node nodes ih =>
      unfold filIssuesFrom at h
      cases hscript : node.checkedScript with
      | none =>
          rw [hscript] at h
          refine List.forall_mem_cons.mpr ⟨?_,ih h⟩
          simp [hscript]
      | some script =>
          rw [hscript] at h
          obtain ⟨result,heval,h⟩ := bind_eq_ok.mp h
          obtain ⟨rest,hrest,-⟩ := bind_eq_ok.mp h
          refine List.forall_mem_cons.mpr ⟨?_,ih hrest⟩
          intro script' hs
          obtain rfl : script = script' := by simpa [hscript] using hs
          rw [heval]
          nofun

/-- There is a report exactly when all scripts can be evaluated. -/
theorem validatorCheckAll_ok_iff (p : BuilderProject) :
    (∃ issues, validatorCheckAll regcomp p = .ok issues) ↔ Evaluates regcomp p := by
  constructor
  · rintro ⟨issues,h⟩
    obtain ⟨fil,hfil,-⟩ := bind_eq_ok.mp h
    exact evaluates_of_ok hfil
  · intro h
    obtain ⟨fil,hfil,-⟩ := filIssuesFrom_ok h 0
    exact ⟨_,by rw [validatorCheckAll,hfil,ok_bind]⟩

/-! ## Cycles -/

/-- There is a report, and a cycle error in it. -/
def ReportsCycle (regcomp : Bytes → Option (Bytes → Bool)) (p : BuilderProject) : Prop :=
  ∃ issues, validatorCheckAll regcomp p = .ok issues ∧
    ∃ issue ∈ issues, issue.severity = .vError ∧ bytes "Cycle detected" <+: issue.message

theorem cycleIssue_message (i : ℕ) : bytes "Cycle detected" <+: (cycleIssue i).message := by
  have htext : bytes "Cycle detected involving edge " =
      bytes "Cycle detected"++bytes " involving edge " := rfl
  have hlen : (bytes "Cycle detected").length ≤ 255 := Nat.le_of_ble_eq_true rfl
  simp only [cycleIssue,Fil.snprintf,htext,List.append_assoc]
  exact List.prefix_take_iff.mpr ⟨List.prefix_append _ _,hlen⟩

/-- A message that starts with another letter. -/
theorem not_cycle_message {c : UInt8} {text rest : Bytes} {n : ℕ} (htext : text.head? = some c)
    (hc : c ≠ 67) : ¬ bytes "Cycle detected" <+: (text++rest).take n := by
  intro h
  have hcons : bytes "Cycle detected" = 67::bytes "ycle detected" := rfl
  cases text with
  | nil => cases htext
  | cons a text =>
      rw [List.head?_cons,Option.some.injEq] at htext
      rw [hcons,List.cons_append] at h
      cases n with
      | zero => simp at h
      | succ n =>
          rw [List.take_succ_cons,List.cons_prefix_cons] at h
          exact hc (htext ▸ h.1.symm)

/-- The errors of a report. -/
theorem mem_report_error {p : BuilderProject} {fil : List ValidationIssue}
    {issue : ValidationIssue}
    (h : issue ∈ itemIssues p++tabOrderIssues p++interactiveIssues p++unconnectedIssues p++
      cycleIssues p++fil++storeIssues p++keymapIssues p) (he : issue.severity = .vError) :
    issue ∈ itemIssues p ∨ issue ∈ cycleIssues p ∨ issue ∈ fil := by
  simp only [List.mem_append] at h
  rcases h with ((((((h | h) | h) | h) | h) | h) | h) | h
  · exact Or.inl h
  · obtain ⟨⟨item,later⟩,-,hissue⟩ := List.mem_flatMap.mp h
    obtain ⟨other,-,hother⟩ := List.mem_filterMap.mp hissue
    unfold sameTabIssue at hother
    split_ifs at hother
    rw [← Option.some.inj hother] at he
    cases he
  · obtain ⟨item,-,hissue⟩ := List.mem_flatMap.mp h
    rw [(mem_issueIf.mp hissue).2] at he
    cases he
  · obtain ⟨⟨node,i⟩,-,hissue⟩ := List.mem_flatMap.mp h
    rw [(mem_issueIf.mp hissue).2] at he
    cases he
  · exact Or.inr (Or.inl h)
  · exact Or.inr (Or.inr h)
  · obtain ⟨v,-,hissue⟩ := List.mem_flatMap.mp h
    rw [(mem_issueIf.mp hissue).2] at he
    cases he
  · rw [(mem_issueIf.mp h).2] at he
    cases he

theorem reportsCycle_iff (p : BuilderProject) :
    ReportsCycle regcomp p ↔ Evaluates regcomp p ∧ ShortCycle p := by
  constructor
  · rintro ⟨issues,h,issue,hm,he,hmsg⟩
    have heval := (validatorCheckAll_ok_iff p).mp ⟨issues,h⟩
    obtain ⟨fil,hfil,hreport⟩ := filIssuesFrom_ok heval 0
    rw [validatorCheckAll,hfil,ok_bind,ok.injEq] at h
    subst h
    refine ⟨heval,(exists_mem_cycleIssues_iff p).mp ?_⟩
    rcases mem_report_error hm he with hm | hm | hm
    · have hwidget : (bytes "Widget ").head? = some 87 := rfl
      obtain ⟨item,-,⟨-,rfl⟩ | ⟨-,rfl⟩⟩ := itemIssues_error hm he
      · simp only [selfParentIssue,itemIssue,Fil.snprintf,List.append_assoc] at hmsg
        exact absurd hmsg (not_cycle_message hwidget (by decide))
      · simp only [dimensionsIssue,itemIssue,Fil.snprintf,List.append_assoc] at hmsg
        exact absurd hmsg (not_cycle_message hwidget (by decide))
    · exact ⟨issue,hm⟩
    · have hfilError : (bytes "FIL error in node ").head? = some 70 := rfl
      obtain ⟨node,i,error,rfl⟩ := hreport.errors issue hm
      simp only [filIssue,List.append_assoc] at hmsg
      exact absurd hmsg (not_cycle_message hfilError (by decide))
  · rintro ⟨heval,hshort⟩
    obtain ⟨issue,hissue⟩ := (exists_mem_cycleIssues_iff p).mpr hshort
    obtain ⟨i,rfl⟩ := cycleIssue_of_mem hissue
    obtain ⟨fil,hfil,-⟩ := filIssuesFrom_ok heval 0
    refine ⟨_,by rw [validatorCheckAll,hfil,ok_bind],cycleIssue i,?_,rfl,cycleIssue_message i⟩
    simp [hissue]

/-- The validator reports a cycle exactly when there is one, if and only if a graph
with a cycle has one of at most two edges and its report is reached. -/
theorem reportsCycle_iff_hasCycle_iff (p : BuilderProject) :
    (ReportsCycle regcomp p ↔ HasCycle p) ↔ (HasCycle p → Evaluates regcomp p ∧ ShortCycle p) := by
  have hcycle : ShortCycle p → HasCycle p := fun ⟨a,b,hab,hba⟩ =>
    ⟨a,(TransGen.single hab).tail hba⟩
  rw [reportsCycle_iff]
  constructor
  · exact fun h hc => h.mpr hc
  · exact fun h => ⟨fun hr => hcycle hr.2,h⟩

/-- Three stores, each set from the one before. -/
def threeStores : BuilderProject :=
  run Op.apply (projectNew none 80 24)
    [.addStoreNode [97] none none,.addStoreNode [98] none none,.addStoreNode [99] none none,
     .addEdge 0 0 1 1,.addEdge 1 0 2 1,.addEdge 2 0 0 1]

theorem cycle_of_three_not_reported :
    (∀ e ∈ threeStores.edges, (0 ≤ e.fromNode.toInt ∧ e.fromNode.toInt < 3) ∧
      0 ≤ e.toNode.toInt ∧ e.toNode.toInt < 3) ∧ threeStores.nodes.length = 3 ∧
      HasCycle threeStores ∧ ¬ ReportsCycle (fun _ => none) threeStores := by
  refine ⟨by decide +kernel,by decide +kernel,⟨0,?_⟩,?_⟩
  · have h₁ : Adj threeStores 0 1 := ⟨⟨0,0,1,1,none,none⟩,by decide +kernel,rfl,rfl⟩
    have h₂ : Adj threeStores 1 2 := ⟨⟨1,0,2,1,none,none⟩,by decide +kernel,rfl,rfl⟩
    have h₃ : Adj threeStores 2 0 := ⟨⟨2,0,0,1,none,none⟩,by decide +kernel,rfl,rfl⟩
    exact ((TransGen.single h₁).tail h₂).tail h₃
  · intro h
    obtain ⟨issue,hissue⟩ := (exists_mem_cycleIssues_iff _).mpr ((reportsCycle_iff _).mp h).2
    have hnone : cycleIssues threeStores = [] := by decide +kernel
    rw [hnone] at hissue
    cases hissue

/-! ## The gate of the export -/

variable (regcomp) in
/-- What is reported as an error. -/
inductive ReportedDefect (p : BuilderProject) : Prop where
  | selfParent (item : CanvasItem) (hm : item ∈ p.items) (h : item.id = item.parentId)
  | dimensions (item : CanvasItem) (hm : item ∈ p.items) (h : item.rect.w ≤ 0 ∨ item.rect.h ≤ 0)
  | shortCycle (h : ShortCycle p)
  | rejects (node : GraphNode) (hm : node ∈ p.nodes) (h : Rejects regcomp node)

/-- The indices of an edge lead to ports, which are `src` and `dst`. -/
def Connects (p : BuilderProject) (e : ConnectionEdge) (src dst : PortDef) : Prop :=
  ∃ fromNode toNode, readAt p.nodes e.fromNode.toInt = some fromNode ∧
    readAt fromNode.ports e.fromPort.toInt = some src ∧
    readAt p.nodes e.toNode.toInt = some toNode ∧ readAt toNode.ports e.toPort.toInt = some dst

theorem Connects.unique {p : BuilderProject} {e : ConnectionEdge} {src dst src' dst' : PortDef}
    (h : Connects p e src dst) (h' : Connects p e src' dst') : src = src' ∧ dst = dst' := by
  obtain ⟨fromNode,toNode,hfrom,hsrc,hto,hdst⟩ := h
  obtain ⟨fromNode',toNode',hfrom',hsrc',hto',hdst'⟩ := h'
  obtain rfl := Option.some.inj (hfrom.symm.trans hfrom')
  obtain rfl := Option.some.inj (hto.symm.trans hto')
  exact ⟨Option.some.inj (hsrc.symm.trans hsrc'),Option.some.inj (hdst.symm.trans hdst')⟩

/-- The item has that parent; -1 stands for none. -/
def ParentOf (p : BuilderProject) (a b : Int32) : Prop :=
  b ≠ -1 ∧ ∃ item ∈ p.items, item.id = a ∧ item.parentId = b

def Inside (p : BuilderProject) (r : Rect) : Prop :=
  (0 ≤ r.x.toInt ∧ r.x.toInt+r.w.toInt ≤ p.rootWidth.toInt) ∧
    0 ≤ r.y.toInt ∧ r.y.toInt+r.h.toInt ≤ p.rootHeight.toInt

instance (p : BuilderProject) (r : Rect) : Decidable (Inside p r) :=
  inferInstanceAs (Decidable ((_ ∧ _) ∧ _ ∧ _))

variable (regcomp) in
/-- A project that is fit for export. -/
structure Exportable (p : BuilderProject) : Prop where
  ids : (p.items.map CanvasItem.id).Nodup
  edges : ∀ e ∈ p.edges, ∃ src dst, Connects p e src dst ∧ graphPortsCompatible src dst = true
  parents : ∀ item ∈ p.items, item.parentId ≠ -1 → item.parentId ∈ p.items.map CanvasItem.id
  acyclic : ∀ a, ¬ TransGen (ParentOf p) a a
  inside : ∀ item ∈ p.items, Inside p item.rect
  scripts : ∀ node ∈ p.nodes, ∀ script, node.checkedScript = some script →
    ∃ b x, Fil.runScript (noStore regcomp) script = .ok (b,x) ∧ Fil.Completed x

variable (regcomp) in
/-- What is not looked for, or reported as a warning only. -/
inductive MissedDefect (p : BuilderProject) : Prop where
  | duplicateId (h : ¬ (p.items.map CanvasItem.id).Nodup)
  | looseEdge (e : ConnectionEdge) (hm : e ∈ p.edges) (h : ∀ src dst, ¬ Connects p e src dst)
  | mismatch (e : ConnectionEdge) (hm : e ∈ p.edges) (src dst : PortDef) (he : Connects p e src dst)
      (h : graphPortsCompatible src dst = false)
  | missingParent (item : CanvasItem) (hm : item ∈ p.items) (hne : item.parentId ≠ -1)
      (h : item.parentId ∉ p.items.map CanvasItem.id)
  | parentCycle (a b : Int32) (hne : a ≠ b) (hab : TransGen (ParentOf p) a b)
      (hba : TransGen (ParentOf p) b a)
  | outside (item : CanvasItem) (hm : item ∈ p.items) (h : ¬ Inside p item.rect)
  | disturbed (node : GraphNode) (hm : node ∈ p.nodes) (script : Bytes)
      (hs : node.checkedScript = some script) (b : Bool) (x : Fil.Config)
      (hx : Fil.runScript (noStore regcomp) script = .ok (b,x)) (h : ¬ Fil.Undisturbed x)

theorem error_iff_reportedDefect {p : BuilderProject} {issues : List ValidationIssue}
    (h : validatorCheckAll regcomp p = .ok issues) :
    (∃ issue ∈ issues, issue.severity = .vError) ↔ ReportedDefect regcomp p := by
  have heval := (validatorCheckAll_ok_iff p).mp ⟨issues,h⟩
  obtain ⟨fil,hfil,hreport⟩ := filIssuesFrom_ok heval 0
  rw [validatorCheckAll,hfil,ok_bind,ok.injEq] at h
  subst h
  constructor
  · rintro ⟨issue,hm,he⟩
    rcases mem_report_error hm he with hm | hm | hm
    · obtain ⟨item,hitem,⟨hself,-⟩ | ⟨hdim,-⟩⟩ := itemIssues_error hm he
      · exact .selfParent item hitem hself
      · exact .dimensions item hitem hdim
    · exact .shortCycle ((exists_mem_cycleIssues_iff p).mp ⟨issue,hm⟩)
    · obtain ⟨node,hnode,hrejects⟩ := hreport.some.mp ⟨issue,hm⟩
      exact .rejects node hnode hrejects
  · intro h
    cases h with
    | selfParent item hm h =>
        have := (mem_itemIssues_of_item hm).1 h
        exact ⟨selfParentIssue item,by simp [this],rfl⟩
    | dimensions item hm h =>
        have := (mem_itemIssues_of_item hm).2 h
        exact ⟨dimensionsIssue item,by simp [this],rfl⟩
    | shortCycle h =>
        obtain ⟨issue,hissue⟩ := (exists_mem_cycleIssues_iff p).mpr h
        obtain ⟨i,rfl⟩ := cycleIssue_of_mem hissue
        exact ⟨cycleIssue i,by simp [hissue],rfl⟩
    | rejects node hm h =>
        obtain ⟨issue,hissue⟩ := hreport.some.mpr ⟨node,hm,h⟩
        obtain ⟨n,i,error,rfl⟩ := hreport.errors issue hissue
        exact ⟨filIssue n i error,by simp [hissue],rfl⟩

/-- Without a widget that is its own parent, a cycle of parents has two items. -/
theorem exists_ne_of_parent_cycle {p : BuilderProject} {a : Int32}
    (h : TransGen (ParentOf p) a a) (hself : ∀ item ∈ p.items, item.id ≠ item.parentId) :
    ∃ b, a ≠ b ∧ TransGen (ParentOf p) a b ∧ TransGen (ParentOf p) b a := by
  have hirrefl : ¬ ParentOf p a a := fun ⟨_,item,hm,hid,hpar⟩ => hself item hm (hid.trans hpar.symm)
  rcases TransGen.head'_iff.mp h with ⟨b,hab,hba⟩
  by_cases hne : a = b
  · subst hne
    exact absurd hab hirrefl
  · rcases reflTransGen_iff_eq_or_transGen.mp hba with heq | hba
    · exact absurd heq hne
    · exact ⟨b,hne,TransGen.single hab,hba⟩

theorem completed_iff {script : Bytes} {b : Bool} {x : Fil.Config}
    (h : Fil.runScript (noStore regcomp) script = .ok (b,x)) :
    Fil.Completed x ↔ Fil.Undisturbed x :=
  ⟨fun hc => hc.1,Fil.completed_of_undisturbed h⟩

/-- Without a defect of the one kind, being fit for export is having none of the other. -/
theorem exportable_iff_not_missedDefect {p : BuilderProject} (heval : Evaluates regcomp p)
    (h : ¬ ReportedDefect regcomp p) : Exportable regcomp p ↔ ¬ MissedDefect regcomp p := by
  have hself : ∀ item ∈ p.items, item.id ≠ item.parentId := fun item hm he =>
    h (.selfParent item hm he)
  constructor
  · intro hx hmissed
    cases hmissed with
    | duplicateId h => exact h hx.ids
    | looseEdge e hm h =>
        obtain ⟨src,dst,hends,-⟩ := hx.edges e hm
        exact h src dst hends
    | mismatch e hm src dst he h =>
        obtain ⟨src',dst',hends,hcomp⟩ := hx.edges e hm
        obtain ⟨rfl,rfl⟩ := he.unique hends
        rw [h] at hcomp
        cases hcomp
    | missingParent item hm hne h => exact h (hx.parents item hm hne)
    | parentCycle a b hne hab hba => exact hx.acyclic a (hab.trans hba)
    | outside item hm h => exact h (hx.inside item hm)
    | disturbed node hm script hs b x hrun h =>
        obtain ⟨b',x',hrun',hc⟩ := hx.scripts node hm script hs
        rw [hrun,ok.injEq,Prod.mk.injEq] at hrun'
        rw [← hrun'.2] at hc
        exact h hc.1
  · intro hmissed
    refine ⟨?_,?_,?_,?_,?_,?_⟩
    · by_contra hc
      exact hmissed (.duplicateId hc)
    · intro e hm
      by_contra hc
      by_cases hends : ∃ src dst, Connects p e src dst
      · obtain ⟨src,dst,hends⟩ := hends
        refine hmissed (.mismatch e hm src dst hends ?_)
        exact eq_false_of_ne_true fun hcomp => hc ⟨src,dst,hends,hcomp⟩
      · exact hmissed (.looseEdge e hm fun src dst he => hends ⟨src,dst,he⟩)
    · intro item hm hne
      by_contra hc
      exact hmissed (.missingParent item hm hne hc)
    · intro a ha
      obtain ⟨b,hne,hab,hba⟩ := exists_ne_of_parent_cycle ha hself
      exact hmissed (.parentCycle a b hne hab hba)
    · intro item hm
      by_contra hc
      exact hmissed (.outside item hm hc)
    · intro node hm script hs
      cases hrun : Fil.runScript (noStore regcomp) script with
      | spin => exact absurd hrun (Fil.runScript_ends _ script).ne_spin
      | undef => exact absurd (by simp [Fil.filEval,hrun]) (heval node hm script hs)
      | ok r =>
          obtain ⟨b,x⟩ := r
          refine ⟨b,x,rfl,(completed_iff hrun).mpr ?_⟩
          by_contra hc
          exact hmissed (.disturbed node hm script hs b x hrun hc)

/-- The gate lets only projects through that are fit for export, if and only if there
is no report at all, an error in it, or nothing that it misses. -/
theorem gate_sound_iff (p : BuilderProject) :
    (∀ issues, validatorCheckAll regcomp p = .ok issues →
      (∀ issue ∈ issues, issue.severity ≠ .vError) → Exportable regcomp p) ↔
    ¬ Evaluates regcomp p ∨ ReportedDefect regcomp p ∨ ¬ MissedDefect regcomp p := by
  by_cases heval : Evaluates regcomp p
  · obtain ⟨issues,hissues⟩ := (validatorCheckAll_ok_iff p).mpr heval
    have herror := error_iff_reportedDefect hissues
    by_cases hdefect : ReportedDefect regcomp p
    · refine iff_of_true ?_ (Or.inr (Or.inl hdefect))
      intro issues' h hnone
      rw [hissues,ok.injEq] at h
      subst h
      obtain ⟨issue,hm,he⟩ := herror.mpr hdefect
      exact absurd he (hnone issue hm)
    · rw [← exportable_iff_not_missedDefect heval hdefect]
      constructor
      · intro h
        refine Or.inr (Or.inr (h issues hissues fun issue hm he => ?_))
        exact hdefect (herror.mp ⟨issue,hm,he⟩)
      · rintro (h | h | h)
        · exact absurd heval h
        · exact absurd h hdefect
        · exact fun _ _ _ => h
  · refine iff_of_true (fun issues h => ?_) (Or.inl heval)
    exact absurd ((validatorCheckAll_ok_iff p).mp ⟨issues,h⟩) heval

end

def brokenItem (id parentId : Int32) : CanvasItem :=
  { id := id, widgetType := [97], instanceName := [97], rect := ⟨70,20,20,10⟩, params := none,
    parentId := parentId, tabIndex := 0, locked := false, visible := true }

/-- Widgets 1 and 2 are parents of each other, another one has the id 2 and a missing
parent, all of them leave the root; an edge leads nowhere, and a script is no FIL. -/
def brokenProject : BuilderProject :=
  { projectNew none 80 24 with
    items := [brokenItem 1 2,brokenItem 2 1,brokenItem 2 9]
    nodes := [{ id := 1, type := .filBlock, label := [97], widgetId := 0, storeKey := none,
                filScript := some [64], ports := [] }]
    edges := [⟨0,0,5,0,none,none⟩] }

theorem brokenProject_script :
    Fil.runScript (noStore fun _ => none) [64] = .ok (true,Fil.firstToken [64],{}) := by
  decide

theorem brokenProject_evaluates : Evaluates (fun _ => none) brokenProject := by
  intro node hm script hs
  obtain rfl := List.mem_singleton.mp hm
  obtain rfl : [64] = script := by simpa [GraphNode.checkedScript] using hs
  rw [Fil.filEval,brokenProject_script]
  intro h
  cases h

theorem brokenProject_not_reportedDefect : ¬ ReportedDefect (fun _ => none) brokenProject := by
  intro h
  cases h with
  | selfParent item hm h =>
      have hself : ∀ item ∈ brokenProject.items, item.id ≠ item.parentId := by decide
      exact hself item hm h
  | dimensions item hm h =>
      have hdim : ∀ item ∈ brokenProject.items, ¬ (item.rect.w ≤ 0 ∨ item.rect.h ≤ 0) := by
        decide
      exact hdim item hm h
  | shortCycle h =>
      obtain ⟨issue,hissue⟩ := (exists_mem_cycleIssues_iff _).mpr h
      have hnone : cycleIssues brokenProject = [] := by decide
      rw [hnone] at hissue
      cases hissue
  | rejects node hm h =>
      obtain ⟨script,result,hs,hr,he⟩ := h
      obtain rfl := List.mem_singleton.mp hm
      obtain rfl : [64] = script := by simpa [GraphNode.checkedScript] using hs
      rw [Fil.filEval,brokenProject_script,ok_bind,ok.injEq] at hr
      exact he (hr ▸ rfl)

/-- None of it stops the export. -/
theorem broken_project_passes :
    (∃ issues, validatorCheckAll (fun _ => none) brokenProject = .ok issues ∧
      ∀ issue ∈ issues, issue.severity ≠ .vError) ∧
    ¬ (brokenProject.items.map CanvasItem.id).Nodup ∧
    (∃ e ∈ brokenProject.edges, ∀ src dst, ¬ Connects brokenProject e src dst) ∧
    (∃ item ∈ brokenProject.items, item.parentId ≠ -1 ∧
      item.parentId ∉ brokenProject.items.map CanvasItem.id) ∧
    TransGen (ParentOf brokenProject) 1 1 ∧
    (∀ item ∈ brokenProject.items, ¬ Inside brokenProject item.rect) ∧
    ¬ Exportable (fun _ => none) brokenProject := by
  have hids : ¬ (brokenProject.items.map CanvasItem.id).Nodup := by decide +kernel
  refine ⟨?_,hids,⟨_,List.mem_singleton_self _,?_⟩,⟨brokenItem 2 9,?_,by decide,?_⟩,?_,
    by decide +kernel,fun h => hids h.ids⟩
  · obtain ⟨issues,h⟩ := (validatorCheckAll_ok_iff _).mpr brokenProject_evaluates
    refine ⟨issues,h,fun issue hm he => ?_⟩
    exact brokenProject_not_reportedDefect ((error_iff_reportedDefect h).mp ⟨issue,hm,he⟩)
  · rintro src dst ⟨fromNode,toNode,-,-,hto,-⟩
    cases hto
  · exact List.mem_cons_of_mem _ (List.mem_cons_of_mem _ (List.mem_singleton_self _))
  · decide +kernel
  · have h₁ : ParentOf brokenProject 1 2 := ⟨by decide,_,List.mem_cons_self,rfl,rfl⟩
    have h₂ : ParentOf brokenProject 2 1 :=
      ⟨by decide,_,List.mem_cons_of_mem _ List.mem_cons_self,rfl,rfl⟩
    exact (TransGen.single h₁).tail h₂

end Filly.Builder

import Filly.Codegen
import Filly.FilBlocks

/-!
# Generated scripts in the language they are written in

The generator writes names with dots and comments with dashes. The lexer knows
neither: it takes both characters for the end of the script. So the evaluation of
a generated script stops in its first block, whatever follows.
-/
namespace Filly.Builder
open CJson Fil Descent Outcome

/-! ## Words at the front -/

/-- A word that is no keyword. -/
def IsIdent : Bytes → Prop
  | [] => False
  | c::s => ((isAlpha c || c = 95) = true ∧ s.all isWordChar = true) ∧
      wordType (c::s) = .tokIdent

instance : (w : Bytes) → Decidable (IsIdent w)
  | [] => isFalse id
  | _::_ => inferInstanceAs (Decidable ((_ ∧ _) ∧ _))

theorem isDigit_of_start {c : UInt8} (h : (isAlpha c || c = 95) = true) :
    Fil.isDigit c = false := by
  have key : ∀ a b : UInt8, decide (a ≤ b) = decide (a.toNat ≤ b.toNat) := fun _ _ => rfl
  simp only [isAlpha,Fil.isDigit,key,Bool.or_eq_true,Bool.and_eq_true,decide_eq_true_eq,
    Bool.and_eq_false_iff,decide_eq_false_iff_not] at h ⊢
  have h0 : UInt8.toNat 48 = 48 ∧ UInt8.toNat 57 = 57 := ⟨rfl,rfl⟩
  have h1 : UInt8.toNat 65 = 65 ∧ UInt8.toNat 90 = 90 := ⟨rfl,rfl⟩
  have h2 : UInt8.toNat 97 = 97 ∧ UInt8.toNat 122 = 122 := ⟨rfl,rfl⟩
  rcases h with h | rfl
  · omega
  · decide

theorem isWordChar_of_start {c : UInt8} (h : (isAlpha c || c = 95) = true) :
    isWordChar c = true := by
  rcases Bool.or_eq_true _ _ ▸ h with h | h <;> simp [isWordChar,h]

/-- A word is scanned up to the first other character. -/
theorem scanToken_word {c : UInt8} {w s : Bytes} (hc : (isAlpha c || c = 95) = true)
    (hw : ∀ b ∈ w, isWordChar b = true) (hs : isWordChar (s.getD 0 0) = false) :
    scanToken ((c::w)++s) = ({ type := wordType (c::w), text := some (c::w) },w.length+1) := by
  have h0 : c ≠ 0 := by rintro rfl; exact absurd hc (by decide)
  have h1 : c ≠ 123 := by rintro rfl; exact absurd hc (by decide)
  have h2 : c ≠ 125 := by rintro rfl; exact absurd hc (by decide)
  have h3 : c ≠ 34 := by rintro rfl; exact absurd hc (by decide)
  have hall : ∀ b ∈ c::w, isWordChar b = true :=
    List.forall_mem_cons.mpr ⟨isWordChar_of_start hc,hw⟩
  have htake : (c::(w++s)).takeWhile isWordChar = c::w := takeWhile_append_of_end hall hs
  simp only [List.cons_append,scanToken,if_neg h0,if_neg h1,if_neg h2,if_neg h3,
    isDigit_of_start hc,Bool.false_eq_true,if_false,hc,if_true,htake,List.length_cons]

/-- The next token of a text with white space in front. -/
theorem nextToken_of_drop {p : Parser} {ws t : Bytes} (h : p.src.drop p.pos = ws++t)
    (hws : ∀ b ∈ ws, isSpace b = true) (ht : isSpace (t.getD 0 0) = false) :
    nextToken p = { p with
      start := p.pos+ws.length
      pos := p.pos+ws.length+(scanToken t).2
      current := (scanToken t).1
      unknown := p.unknown || scanToken t = ({ type := .tokEof },1) } := by
  have hstart : skipWs p = p.pos+ws.length := by
    rw [skipWs,h,takeWhile_append_of_end hws ht]
  have hdrop : p.src.drop (p.pos+ws.length) = t := by
    rw [← List.drop_drop,h,List.drop_left]
  simp only [nextToken,hstart,hdrop]

/-! ## A block that begins with `when` and a dotted name -/

/-- A text such as `when widget.name.` with what follows. -/
structure DottedWhen (script word name rest : Bytes) : Prop where
  text : script = bytes "when "++(word++(46::(name++rest)))
  isWord : IsIdent word
  notValue : word ≠ bytes "value"
  isName : IsIdent name
  behind : isWordChar (rest.getD 0 0) = false

/-- The tokens of such a text: `when`, the first word, an end that is none, and the
second word. -/
structure DottedTokens (script word name : Bytes) : Prop where
  when : (firstToken script).current.type = .tokWhen
  word : (nextToken (firstToken script)).current = identToken word
  dot : (nextToken (nextToken (firstToken script))).current.type = .tokEof
  unknown : (nextToken (nextToken (firstToken script))).unknown = true
  name : (nextToken (nextToken (nextToken (firstToken script)))).current = identToken name

theorem IsIdent.scan {w s : Bytes} (h : IsIdent w) (hs : isWordChar (s.getD 0 0) = false) :
    scanToken (w++s) = (identToken w,w.length) := by
  cases w with
  | nil => exact h.elim
  | cons c w =>
      rw [scanToken_word h.1.1 (List.all_eq_true.mp h.1.2) hs,h.2]
      rfl

theorem IsIdent.not_space {w s : Bytes} (h : IsIdent w) : isSpace ((w++s).getD 0 0) = false := by
  cases w with
  | nil => exact h.elim
  | cons c w =>
      have hc : isWordChar c = true := isWordChar_of_start h.1.1
      change isSpace c = false
      by_contra hspace
      exact absurd (isSpace_not_word (by simpa using hspace)) (by simp [hc])

theorem DottedWhen.tokens {script word name rest : Bytes} (h : DottedWhen script word name rest) :
    DottedTokens script word name := by
  have hwhen : bytes "when " = bytes "when"++[32] := by decide
  have hscript : script = bytes "when"++([32]++(word++(46::(name++rest)))) := by
    rw [h.text,hwhen,List.append_assoc]
  have hscanWhen : scanToken script =
      ({ type := .tokWhen, text := some (bytes "when") },4) := by
    rw [hscript]
    exact scanToken_word (c := 119) (w := [104,101,110]) (by decide) (by decide +kernel) rfl
  -- the four positions: behind `when`, the first word, the dot and before the second word
  have h₀ : firstToken script =
      ⟨script,4,0,false,{ type := .tokWhen, text := some (bytes "when") }⟩ := by
    have hdrop : ({ src := script } : Parser).src.drop 0 = []++script := rfl
    rw [firstToken,nextToken_of_drop hdrop (by simp) (by rw [hscript]; rfl),hscanWhen]
    rfl
  have hdrop₀ : script.drop 4 = [32]++(word++(46::(name++rest))) := by
    rw [hscript]
    rfl
  have h₁ : nextToken (firstToken script) =
      ⟨script,5+word.length,5,false,identToken word⟩ := by
    rw [h₀,nextToken_of_drop hdrop₀ (by decide +kernel) h.isWord.not_space,h.isWord.scan rfl]
    simp [identToken]
  have hdrop₁ : script.drop (5+word.length) = []++(46::(name++rest)) := by
    rw [← List.drop_drop,show script.drop 5 = word++(46::(name++rest)) by rw [hscript]; rfl,
      List.drop_left,List.nil_append]
  have hdot : scanToken (46::(name++rest)) = ({ type := .tokEof },1) := rfl
  have h₂ : nextToken (nextToken (firstToken script)) =
      ⟨script,6+word.length,5+word.length,true,{ type := .tokEof }⟩ := by
    rw [h₁,nextToken_of_drop hdrop₁ (by simp) rfl,hdot]
    simp
    omega
  have hdrop₂ : script.drop (6+word.length) = []++(name++rest) := by
    rw [show 6+word.length = 5+word.length+1 by omega,← List.drop_drop,hdrop₁]
    rfl
  have h₃ : (nextToken (nextToken (nextToken (firstToken script)))).current = identToken name := by
    rw [h₂,nextToken_of_drop hdrop₂ (by simp) h.isName.not_space,h.isName.scan h.behind]
  exact ⟨by rw [h₀],by rw [h₁],by rw [h₂],by rw [h₂],h₃⟩

theorem IsIdent.chars {w : Bytes} (h : IsIdent w) : ∀ b ∈ w, isWordChar b = true := by
  cases w with
  | nil => exact h.elim
  | cons c w =>
      exact List.forall_mem_cons.mpr ⟨isWordChar_of_start h.1.1,List.all_eq_true.mp h.1.2⟩

theorem strncpy_strncpy (s : Bytes) : strncpy (strncpy s) = strncpy s := by
  simp [strncpy,List.take_take]

/-- The condition of such a block is what the store holds under the first word. -/
theorem DottedWhen.condition {script word name rest : Bytes}
    (h : DottedWhen script word name rest) (env : Env) :
    evalExpression env (nextToken (firstToken script)) =
      env.lookup word >>= fun val =>
        .ok (some (strncpy (val.getD [])),nextToken (nextToken (firstToken script))) := by
  have ht := h.tokens
  have hstore : word.take 6 ≠ bytes "store." := by
    intro hw
    have hdot : (46 : UInt8) ∈ word.take 6 := by
      rw [hw]
      decide
    exact absurd (h.isWord.chars 46 (List.mem_of_mem_take hdot)) (by decide)
  have hprim : evalPrimary env (nextToken (firstToken script)) =
      env.lookup word >>= fun val =>
        .ok (some (strncpy (val.getD [])),nextToken (nextToken (firstToken script))) := by
    change primaryStep env _ _ = _
    simp only [primaryStep,ht.word,identToken,if_neg h.notValue,if_neg hstore]
  unfold evalExpression evalComparison
  rw [hprim]
  cases env.lookup word with
  | undef => rfl
  | spin => rfl
  | ok val =>
      have hrest : ∀ left, comparisonRest env left (nextToken (nextToken (firstToken script))) =
          .ok (some (strncpy left),nextToken (nextToken (firstToken script))) := by
        intro left
        rw [comparisonRest,ht.dot]
        rfl
      have hloop : ∀ left : Bytes, loop (fun x : Bytes × Parser => remaining x.2)
          (fun x => !isOperator x.2.current.type) (operandTurn env)
          (left,nextToken (nextToken (firstToken script))) =
            .ok (true,left,nextToken (nextToken (firstToken script))) := by
        intro left
        apply loop_stop
        rw [ht.dot]
        rfl
      simp only [ok_bind,hrest,hloop,strncpy_strncpy,if_true]

/-- The evaluation of such a text uses nothing behind the first dot: it ends there, or
at the second word, which is no statement. -/
theorem DottedWhen.runScript {script word name rest : Bytes}
    (h : DottedWhen script word name rest) (env : Env) :
    (∃ val, env.lookup word = .ok val ∧ strncpy (val.getD []) ≠ [] ∧
      Fil.runScript env script = .ok (true,nextToken (nextToken (firstToken script)),{})) ∨
    (∃ val q s, env.lookup word = .ok val ∧ strncpy (val.getD []) = [] ∧
      Fil.runScript env script = .ok (false,q,s) ∧ Fil.Event.failed ∈ s.log) ∨
    Fil.runScript env script = .undef := by
  have ht := h.tokens
  have hlexed : Lexed (firstToken script) := nextToken_lexed _
  have hbody : statementBody env (evalStatement env) (firstToken script,{}) =
      evalWhen env (evalStatement env) (nextToken (firstToken script)) {} := by
    simp [statementBody,ht.when]
  have hrun : Fil.runScript env script =
      (evalWhen env (evalStatement env) (nextToken (firstToken script)) {} >>= fun r =>
        if r.1 then .ok r else .ok (false,r.2.1,r.2.2.noteFailure)) >>= fun r =>
      if r.1 then evalStatements (evalStatement env) (· = .tokEof) r.2 else .ok r := by
    rw [Fil.runScript,evalStatements_eq env _ hlexed,turn,evalStatement_eq env hlexed,
      statementStep,hbody,ht.when]
    rfl
  -- both branches stay at the dot, which counts as the end of the script
  have hstop : ∀ (stop : TokenType → Bool) (s : EvalState), stop .tokEof = true →
      evalStatements (evalStatement env) stop (nextToken (nextToken (firstToken script)),s) =
        .ok (true,nextToken (nextToken (firstToken script)),s) := by
    intro stop s hs
    apply loop_stop
    rw [ht.dot]
    exact hs
  cases hval : env.lookup word with
  | undef =>
      refine Or.inr (Or.inr ?_)
      rw [hrun,evalWhen,expectValue,h.condition env,hval]
      rfl
  | spin =>
      unfold Env.lookup at hval
      split at hval <;> cases hval
  | ok val =>
      by_cases hc : strncpy (val.getD []) = []
      · refine Or.inr (Or.inl ⟨val,nextToken (nextToken (nextToken (firstToken script))),
          ({} : EvalState).noteFailure.noteFailure,rfl,hc,?_,?_⟩)
        · have hskip : skipTo .tokThen (nextToken (nextToken (firstToken script))) =
              nextToken (nextToken (firstToken script)) := by
            unfold skipTo
            cases remaining (nextToken (nextToken (firstToken script))) with
            | zero => rfl
            | succ n => simp [skipUntil,ht.dot]
          have hname : evalStatements (evalStatement env) endsBlock
              (nextToken (nextToken (nextToken (firstToken script))),{}) =
              .ok (false,nextToken (nextToken (nextToken (firstToken script))),
                ({} : EvalState).noteFailure) := by
            have hlast := nextToken_lexed (nextToken (nextToken (firstToken script)))
            rw [evalStatements_eq env _ hlast,turn,evalStatement_eq env hlast]
            simp [statementStep,statementBody,ht.name,identToken,endsBlock]
          rw [hrun,evalWhen,expectValue,h.condition env,hval]
          simp only [ok_bind,ne_eq,hc,not_true_eq_false,if_false,hskip,hname,Bool.false_eq_true]
        · simp [EvalState.noteFailure]
      · refine Or.inl ⟨val,rfl,hc,?_⟩
        rw [hrun,evalWhen,expectValue,h.condition env,hval]
        simp only [ok_bind,ne_eq,hc,not_false_eq_true,if_true,evalBlock,tryMatch,ht.dot,
          reduceCtorEq,if_false,hstop endsBlock _ rfl,hstop (· = .tokEof) _ rfl]

/-! ## The first block of a script -/

/-- The labels of widgets and the keys of stores are identifiers. -/
def Named (p : BuilderProject) : Prop :=
  ∀ node ∈ p.nodes, (node.type = .widget → IsIdent node.label) ∧
    ∀ key ∈ node.storeKey, IsIdent key

instance (p : BuilderProject) : Decidable (Named p) :=
  inferInstanceAs (Decidable (∀ node ∈ p.nodes, (_ → _) ∧ ∀ key ∈ node.storeKey, IsIdent key))

theorem isIdent_keyText {node : GraphNode} (h : ∀ key ∈ node.storeKey, IsIdent key) :
    IsIdent (keyText node) := by
  unfold keyText
  cases hkey : node.storeKey with
  | none =>
      change IsIdent (bytes "unknown")
      decide
  | some key => exact h key hkey

theorem dottedWhen_widget {label rest : Bytes} {c : UInt8} (h : IsIdent label)
    (hc : isWordChar c = false) :
    DottedWhen (bytes "when "++(bytes "widget."++(label++c::rest))) (bytes "widget") label
      (c::rest) where
  text := by
    have hdot : bytes "widget." = bytes "widget"++[46] := by decide
    rw [hdot,List.append_assoc]
    rfl
  isWord := by decide
  notValue := by decide
  isName := h
  behind := hc

theorem dottedWhen_store {key rest : Bytes} {c : UInt8} (h : IsIdent key)
    (hc : isWordChar c = false) :
    DottedWhen (bytes "when "++(bytes "store."++(key++c::rest))) (bytes "store") key
      (c::rest) where
  text := by
    have hdot : bytes "store." = bytes "store"++[46] := by decide
    rw [hdot,List.append_assoc]
    rfl
  isWord := by decide
  notValue := by decide
  isName := h
  behind := hc

/-- A block is such a text, or begins with a dash. -/
theorem template_starts {w : Wire} (hlabel : w.src.type = .widget → IsIdent w.src.label)
    (hkey : IsIdent (keyText w.src)) (rest : Bytes) :
    (∃ word name rest', DottedWhen (w.template.text++rest) word name rest') ∨
      ∃ rest', w.template.text++rest = 45::rest' := by
  have hdot : bytes "." = [46] := by decide
  have hend : bytes ".animation_end" = 46::bytes "animation_end" := by decide
  have hchanges : bytes " changes" = 32::bytes "changes" := by decide
  have hdash : bytes "-- Edge: " = 45::bytes "- Edge: " := by decide
  unfold Wire.template
  split_ifs with htrigger hstore hanimation
  · left
    simp only [Template.text,List.append_assoc,hdot,List.singleton_append]
    exact ⟨_,_,_,dottedWhen_widget (hlabel htrigger.1) (by decide)⟩
  · left
    simp only [Template.text,List.append_assoc,hchanges,List.cons_append]
    exact ⟨_,_,_,dottedWhen_store hkey (by decide)⟩
  · left
    simp only [Template.text,List.append_assoc,hend,List.cons_append]
    exact ⟨_,_,_,dottedWhen_widget (hlabel hanimation.1) (by decide)⟩
  · right
    simp only [Template.text,List.append_assoc,hdash,List.cons_append]
    exact ⟨_,rfl⟩

/-- A dash is no part of the language. -/
theorem runScript_dash (env : Env) (rest : Bytes) :
    Fil.runScript env (45::rest) = .ok (true,firstToken (45::rest),{}) ∧
      (firstToken (45::rest)).unknown = true := by
  have hfirst : firstToken (45::rest) = ⟨45::rest,1,0,true,{ type := .tokEof }⟩ := rfl
  rw [hfirst]
  refine ⟨?_,rfl⟩
  rw [Fil.runScript,hfirst]
  exact loop_stop rfl

/-- A script that begins with a block is not read to its end. -/
theorem not_undisturbed_of_block {w : Wire}
    (hlabel : w.src.type = .widget → IsIdent w.src.label) (hkey : IsIdent (keyText w.src))
    {rest : Bytes} {env : Env} {b : Bool} {x : Config}
    (hx : Fil.runScript env (w.template.text++rest) = .ok (b,x)) : ¬ Undisturbed x := by
  rintro ⟨hunknown,hlog⟩
  rcases template_starts hlabel hkey rest with ⟨word,name,rest',h⟩ | ⟨rest',h⟩
  · rcases h.runScript env with ⟨-,-,-,hr⟩ | ⟨-,q,s,-,-,hr,hfailed⟩ | hr
    · rw [hr,ok.injEq,Prod.mk.injEq] at hx
      rw [← hx.2,h.tokens.unknown] at hunknown
      cases hunknown
    · rw [hr,ok.injEq,Prod.mk.injEq] at hx
      rw [← hx.2] at hlog
      exact hlog hfailed
    · rw [hr] at hx
      cases hx
  · rw [h,(runScript_dash env rest').1,ok.injEq,Prod.mk.injEq] at hx
    rw [← hx.2,(runScript_dash env rest').2] at hunknown
    cases hunknown

/-! ## Whole scripts -/

/-- The evaluation comes to the end of the script, all statements in it successful. -/
def ReadsToEnd (env : Env) (script : Bytes) : Prop :=
  ∃ b x, Fil.runScript env script = .ok (b,x) ∧ Completed x

/-- From the value of a store or from a trigger to the `set` port of a store. -/
def Wire.IsSet (w : Wire) : Prop :=
  (w.src.type = .store ∧ w.srcPort.name = bytes "value" ∨ w.srcPort.type = .trigger) ∧
    w.dst.type = .store ∧ w.dstPort.name = bytes "set"

instance (w : Wire) : Decidable w.IsSet := inferInstanceAs (Decidable (_ ∧ _ ∧ _))

/-- If the block has a condition, it holds. -/
def ConditionTrue (env : Env) (block : Bytes) : Prop :=
  (firstToken block).current.type = .tokWhen →
    ∃ v q, evalExpression env (nextToken (firstToken block)) = .ok (some v,q) ∧ v ≠ []

/-- There is a block for the edge, and evaluated with its condition true it records a
value for the key of the store and nothing else. -/
def RecordsSet (p : BuilderProject) (e : ConnectionEdge) (w : Wire) : Prop :=
  ∃ block, edgeBlock p e = some block ∧ ∀ env, ConditionTrue env block →
    ∃ result val, filEval env block = .ok result ∧ result.sets = [(keyText w.dst,val)]

theorem appendScripts_eq (before : UInt8) (out : Bytes) (nodes : List GraphNode) :
    ∃ rest, appendScripts before out nodes = out++rest := by
  induction nodes generalizing out with
  | nil => exact ⟨[],by simp [appendScripts]⟩
  | cons node nodes ih =>
      unfold appendScripts
      cases node.checkedScript with
      | none => exact ih out
      | some script =>
          simp only
          split_ifs
          · obtain ⟨rest,h⟩ := ih (out++script++[10]++[10])
            exact ⟨_,by rw [h]; simp only [List.append_assoc]; rfl⟩
          · obtain ⟨rest,h⟩ := ih (out++script++[10])
            exact ⟨_,by rw [h]; simp only [List.append_assoc]; rfl⟩

theorem mem_nodes_of_readAt {nodes : List GraphNode} {i : ℤ} {n : GraphNode}
    (h : readAt nodes i = some n) : n ∈ nodes := by
  unfold readAt at h
  split_ifs at h
  exact List.mem_of_getElem? h

theorem src_mem_of_wireOf {p : BuilderProject} {e : ConnectionEdge} {w : Wire}
    (h : wireOf p e = some w) : w.src ∈ p.nodes := by
  simp only [wireOf,Option.bind_eq_bind,Option.bind_eq_some_iff] at h
  obtain ⟨src,hsrc,dst,-,srcPort,-,dstPort,-,h⟩ := h
  split_ifs at h
  rw [← Option.some.inj h]
  exact mem_nodes_of_readAt hsrc

theorem mem_properEdges {p : BuilderProject} {x : ConnectionEdge × Wire}
    (h : x ∈ properEdges p) : x.1 ∈ p.edges ∧ wireOf p x.1 = some x.2 := by
  obtain ⟨e,he,hx⟩ := List.mem_filterMap.mp h
  obtain ⟨w,hw,rfl⟩ := Option.map_eq_some_iff.mp hx
  exact ⟨he,hw⟩

/-- No block is written when none fits. -/
theorem edgeBlocks_eq_nil_iff (p : BuilderProject) :
    edgeBlocks p = [] ↔ ∀ x ∈ properEdges p, 1024 ≤ x.2.template.text.length := by
  rw [edgeBlocks_eq,List.filterMap_eq_nil_iff]
  refine forall₂_congr fun x _ => ?_
  split_ifs with hlen
  · exact iff_of_false (by simp) (by omega)
  · exact iff_of_true rfl (by omega)

theorem exists_of_edgeBlocks_cons {p : BuilderProject} {block : Bytes} {blocks : List Bytes}
    (h : edgeBlocks p = block::blocks) : ∃ x ∈ properEdges p, block = x.2.template.text := by
  have hmem : block ∈ edgeBlocks p := h ▸ List.mem_cons_self
  rw [edgeBlocks_eq,List.mem_filterMap] at hmem
  obtain ⟨x,hx,hblock⟩ := hmem
  split_ifs at hblock
  exact ⟨x,hx,(Option.some.inj hblock).symm⟩

/-- A script with a block in it is not read to its end. -/
theorem edgeBlocks_nil_of_readsToEnd {before : UInt8} {env : Env} {p : BuilderProject}
    (h : Named p) (hread : ReadsToEnd env (codegenFilScript before p)) : edgeBlocks p = [] := by
  cases hblocks : edgeBlocks p with
  | nil => rfl
  | cons block blocks =>
      obtain ⟨x,hx,rfl⟩ := exists_of_edgeBlocks_cons hblocks
      have hnamed := h x.2.src (src_mem_of_wireOf (mem_properEdges hx).2)
      obtain ⟨rest,hrest⟩ := appendScripts_eq before (edgeBlocks p).flatten p.nodes
      obtain ⟨b,y,hrun,hy⟩ := hread
      rw [codegenFilScript,hrest,hblocks,List.flatten_cons,List.append_assoc] at hrun
      exact absurd hy.1 (not_undisturbed_of_block hnamed.1 (isIdent_keyText hnamed.2) hrun)

/-- The generated script is read to its end, and every edge to a `set` port records its
set, exactly when no block is written, there is no such edge, and the scripts of the
FIL nodes are read to their end. -/
theorem generated_script_reads_iff (before : UInt8) (env : Env) (p : BuilderProject)
    (h : Named p) :
    (ReadsToEnd env (codegenFilScript before p) ∧
      ∀ x ∈ properEdges p, x.2.IsSet → RecordsSet p x.1 x.2) ↔
    (∀ x ∈ properEdges p, 1024 ≤ x.2.template.text.length ∧ ¬ x.2.IsSet) ∧
      ReadsToEnd env (appendScripts before [] p.nodes) := by
  constructor
  · rintro ⟨hread,hsets⟩
    have hnil := edgeBlocks_nil_of_readsToEnd h hread
    refine ⟨fun x hx => ⟨(edgeBlocks_eq_nil_iff p).mp hnil x hx,fun hset => ?_⟩,?_⟩
    · obtain ⟨block,hblock,-⟩ := hsets x hx hset
      have hmem : block ∈ edgeBlocks p :=
        List.mem_filterMap.mpr ⟨x.1,(mem_properEdges hx).1,hblock⟩
      rw [hnil] at hmem
      cases hmem
    · rw [codegenFilScript,hnil] at hread
      exact hread
  · rintro ⟨hedges,hread⟩
    have hnil := (edgeBlocks_eq_nil_iff p).mpr fun x hx => (hedges x hx).1
    rw [codegenFilScript,hnil]
    exact ⟨hread,fun x hx hset => absurd hset (hedges x hx).2⟩

/-- A widget with an input, a store, and an edge from the trigger of the one to the
`set` port of the other. -/
def inputToStore : BuilderProject :=
  Runs.run Op.apply (projectNew none 80 24)
    [.addItem (bytes "input") 0 0 10 1,.addNode 1,.addStoreNode [107] none none,.addEdge 0 0 1 1]

/-- A store that holds a text for every key. -/
def fullStore : Env :=
  { storeGet := some fun _ => some [49], value := none, regcomp := fun _ => none }

def submitBlock : Bytes :=
  bytes "when widget.input_1.on_submit then\n  set store.k to value of input_1\nend\n\n"

/-- The generated block is not read beyond its first dot and sets nothing. -/
theorem generated_block_is_no_fil :
    Named inputToStore ∧ ¬ ReadsToEnd fullStore (codegenFilScript 0 inputToStore) ∧
      (properEdges inputToStore).length = 1 ∧
      ∀ x ∈ properEdges inputToStore, x.2.IsSet ∧ ¬ RecordsSet inputToStore x.1 x.2 := by
  have hnamed : Named inputToStore := by decide +kernel
  have hset : ∀ x ∈ properEdges inputToStore, x.2.IsSet := by decide +kernel
  have hblock : ∀ x ∈ properEdges inputToStore, edgeBlock inputToStore x.1 = some submitBlock := by
    decide +kernel
  refine ⟨hnamed,fun hread => ?_,by decide +kernel,fun x hx => ⟨hset x hx,?_⟩⟩
  · have hnil := edgeBlocks_nil_of_readsToEnd hnamed hread
    exact absurd hnil (by decide +kernel)
  · rintro ⟨block,hb,hrecords⟩
    obtain rfl := Option.some.inj ((hblock x hx).symm.trans hb)
    obtain ⟨result,val,hr,hsets⟩ := hrecords fullStore fun _ =>
      ⟨[49],nextToken (nextToken (firstToken submitBlock)),by decide +kernel,by decide⟩
    have hnone : filEval fullStore submitBlock = .ok (.ofState {}) := by decide +kernel
    rw [hnone,ok.injEq] at hr
    rw [← hr] at hsets
    cases hsets

/-- A project without edges and with a FIL node that accepts. -/
def acceptNode : BuilderProject :=
  { projectNew none 80 24 with
    nodes := [{ id := 1, type := .filBlock, label := [97], widgetId := 0, storeKey := none,
                filScript := some (bytes "accept"), ports := [] }] }

theorem acceptNode_reads :
    ReadsToEnd emptyStore (codegenFilScript 0 acceptNode) ∧
      ∀ x ∈ properEdges acceptNode, x.2.IsSet → RecordsSet acceptNode x.1 x.2 := by
  refine (generated_script_reads_iff 0 emptyStore acceptNode (by decide +kernel)).mpr ⟨?_,?_⟩
  · exact fun x hx => (List.not_mem_nil hx).elim
  · exact ⟨true,(nextToken (firstToken (bytes "accept\n\n")),({} : EvalState).accept),
      by decide +kernel,⟨by decide +kernel,by decide +kernel⟩,by decide +kernel⟩

end Filly.Builder

import Filly.FilExpressions

/-!
# Conditionals

Programs of `set`, `let`, `reject`, `accept`, `show` and nested `when` statements
have a plain meaning: a non-empty condition runs the first branch, an empty one
the else branch. The evaluator has no syntax tree; it decides while it reads,
and departs from the meaning in three ways. With an empty condition the first
branch is executed before the else branch; a failure inside an else branch is
dropped; and an else branch that is not taken is passed over up to its first
`end`, which may belong to a nested `when`. On every program whose execution
meets none of the three the evaluator agrees with the meaning.
-/
namespace Filly.Fil
open CJson Descent Outcome

/-! ## Programs -/

/-- A key, a string or a number. The key `value` stands for the current value. -/
inductive Atom where
  | ident (name : Bytes)
  | string (text : Bytes) (short : text.length < 255)
  | number (n : ℤ) (short : (intText n).length < 255)

inductive Prim where
  | atom (a : Atom)
  | empty
  | not (a : Prim)

inductive Comparison where
  | plain (a : Prim)
  | isEmpty (negate : Bool) (a : Prim)
  | less (negate : Bool) (a b : Prim)
  | greater (negate : Bool) (a b : Prim)
  | equal (negate : Bool) (a : Prim) (b : Atom)
  | pattern (a b : Prim)

inductive Simple where
  | set (key : Bytes) (c : Comparison)
  | letTo (key : Bytes) (c : Comparison)
  | reject (msg : Bytes)
  | accept
  | showIf (withWhen : Bool) (c : Comparison)

/-- A sequence of statements. -/
inductive Prog where
  | done
  | simple (s : Simple) (rest : Prog)
  | whenThen (c : Comparison) (a rest : Prog)
  | whenElse (c : Comparison) (a b rest : Prog)

/-! ## Their meaning -/

/-- A store whose values, like the current value, have less than 255 bytes. -/
structure ShortStore (env : Env) where
  get : Bytes → Option Bytes
  storeGet : env.storeGet = some get
  store : ∀ key v, get key = some v → v.length < 255
  value : ∀ v, env.value = some v → v.length < 255

section
variable {env : Env} (st : ShortStore env)

def Atom.eval : Atom → Bytes
  | .ident name => if name = bytes "value" then env.value.getD [] else (st.get name).getD []
  | .string text _ => text
  | .number n _ => intText n

def Prim.eval : Prim → Bytes
  | .atom a => a.eval st
  | .empty => []
  | .not a => truth (a.eval = [])

/-- There is no value when a pattern is not a regular expression. -/
def Comparison.eval : Comparison → Option Bytes
  | .plain a => some (a.eval st)
  | .isEmpty negate a => some (truth (decide (a.eval st = []) != negate))
  | .less negate a b => some (truth (decide (atoi (a.eval st) < atoi (b.eval st)) != negate))
  | .greater negate a b => some (truth (decide (atoi (a.eval st) > atoi (b.eval st)) != negate))
  | .equal negate a b => some (truth (decide (a.eval st = b.eval st) != negate))
  | .pattern a b => (env.regcomp (b.eval st)).map fun matcher => truth (matcher (a.eval st))

/-- What a program can change. -/
structure Effects where
  sets : List (Bytes × Bytes) := []
  rejected : Bool := false
  errorMsg : Option Bytes := none
  showWidget : Bool := false
  deriving DecidableEq, Repr

/-- An update by a value, or a failure when there is none. -/
def update (v : Option Bytes) (e : Effects) (f : Bytes → Effects) : Bool × Effects :=
  match v with
  | none => (false,e)
  | some v => (true,f v)

/-- A non-empty condition takes the first branch, an empty one the second. -/
def branch (cond : Option Bytes) (e : Effects) (taken other : Bool × Effects) : Bool × Effects :=
  match cond with
  | none => (false,e)
  | some v => if v = [] then other else taken

/-- What comes next is executed unless there was a failure. -/
def andThen (first : Bool × Effects) (next : Effects → Bool × Effects) : Bool × Effects :=
  if first.1 then next first.2 else first

/-- Whether a simple statement succeeds, and its effect. -/
def Simple.exec (e : Effects) : Simple → Bool × Effects
  | .set key c => update (c.eval st) e fun v => { e with sets := e.sets++[(key,v)] }
  | .letTo key c => update (c.eval st) e fun v => { e with sets := e.sets++[(key,v)] }
  | .reject msg => (true,{ e with rejected := true, errorMsg := some msg })
  | .accept => (true,{ e with rejected := false, errorMsg := none })
  | .showIf _ c => update (c.eval st) e fun v => { e with showWidget := v ≠ [] }

/-- The meaning of a program: whether it runs to its end, and its effects up to
there or up to the statement that fails. -/
def Prog.exec (e : Effects) : Prog → Bool × Effects
  | .done => (true,e)
  | .simple s rest => andThen (s.exec st e) fun e => rest.exec e
  | .whenThen c a rest => andThen (branch (c.eval st) e (a.exec e) (true,e)) fun e => rest.exec e
  | .whenElse c a b rest =>
      andThen (branch (c.eval st) e (a.exec e) (b.exec e)) fun e => rest.exec e

/-- Whether a program runs to its end; this does not depend on the effects so far. -/
def Prog.completes (g : Prog) : Bool := (g.exec st {}).1

def Prog.noWhen : Prog → Bool
  | .done => true
  | .simple _ rest => rest.noWhen
  | .whenThen _ _ _ => false
  | .whenElse _ _ _ _ => false

/-- The execution of a program meets no branch that the evaluator mistreats:
under an empty condition the first branch has no statements and the else branch
does not fail, and an else branch that is not taken has no `when` in it. -/
def Prog.Clean : Prog → Prop
  | .done => True
  | .simple s rest => (s.exec st {}).1 = true → rest.Clean
  | .whenThen c a rest =>
      ∀ v, c.eval st = some v →
        if v = [] then a = .done ∧ rest.Clean
        else a.Clean ∧ (a.completes st = true → rest.Clean)
  | .whenElse c a b rest =>
      ∀ v, c.eval st = some v →
        if v = [] then a = .done ∧ b.Clean ∧ b.completes st = true ∧ rest.Clean
        else a.Clean ∧ (a.completes st = true → b.noWhen = true ∧ rest.Clean)

end

/-! ## Their tokens -/

def keyword (t : TokenType) : Token :=
  { type := t, text := (keywords.find? fun k => k.2 = t).map Prod.fst }

def Atom.tokens : Atom → List Token
  | .ident name => [{ type := .tokIdent, text := some name }]
  | .string text _ => [{ type := .tokString, text := some text }]
  | .number n _ => [{ type := .tokNumber, num := n }]

def Prim.tokens : Prim → List Token
  | .atom a => a.tokens
  | .empty => [keyword .tokEmpty]
  | .not a => keyword .tokNot::a.tokens

def optionalNot (negate : Bool) : List Token := if negate then [keyword .tokNot] else []

def Comparison.tokens : Comparison → List Token
  | .plain a => a.tokens
  | .isEmpty negate a => a.tokens++keyword .tokIs::(optionalNot negate++[keyword .tokEmpty])
  | .less negate a b => a.tokens++keyword .tokIs::(optionalNot negate++
      keyword .tokLess::keyword .tokThan::b.tokens)
  | .greater negate a b => a.tokens++keyword .tokIs::(optionalNot negate++
      keyword .tokGreater::keyword .tokThan::b.tokens)
  | .equal negate a b => a.tokens++keyword .tokIs::(optionalNot negate++b.tokens)
  | .pattern a b => a.tokens++keyword .tokMatches::b.tokens

def Simple.tokens : Simple → List Token
  | .set key c => [keyword .tokSet,{ type := .tokIdent, text := some key },keyword .tokTo]++c.tokens
  | .letTo key c =>
      [keyword .tokLet,{ type := .tokIdent, text := some key },keyword .tokTo]++c.tokens
  | .reject msg => [keyword .tokReject,keyword .tokWith,{ type := .tokString, text := some msg }]
  | .accept => [keyword .tokAccept]
  | .showIf withWhen c =>
      keyword .tokShow::((if withWhen then [keyword .tokWhen] else [])++c.tokens)

def Prog.tokens : Prog → List Token
  | .done => []
  | .simple s rest => s.tokens++rest.tokens
  | .whenThen c a rest =>
      keyword .tokWhen::(c.tokens++keyword .tokThen::(a.tokens++keyword .tokEnd::rest.tokens))
  | .whenElse c a b rest =>
      keyword .tokWhen::(c.tokens++keyword .tokThen::(a.tokens++
        keyword .tokElse::(b.tokens++keyword .tokEnd::rest.tokens)))

/-- The tokens at and behind the parser begin with these. -/
def Ahead : Parser → List Token → Prop
  | _, [] => True
  | p, t::ts => p.current = t ∧ Ahead (nextToken p) ts

instance decidableAhead : (p : Parser) → (ts : List Token) → Decidable (Ahead p ts)
  | _, [] => isTrue trivial
  | p, t::ts => @instDecidableAnd (p.current = t) (Ahead (nextToken p) ts) inferInstance
      (decidableAhead (nextToken p) ts)

/-! ## Reading values -/

section
variable {env : Env} (st : ShortStore env)

theorem Atom.eval_short (a : Atom) : (a.eval st).length < 255 := by
  cases a with
  | ident name =>
      simp only [Atom.eval]
      split_ifs
      · cases hv : env.value with
        | none => simp
        | some v => simpa using st.value v hv
      · cases hv : st.get name with
        | none => simp
        | some v => simpa using st.store name v hv
  | string text h => exact h
  | number n h => exact h

theorem truth_short (b : Bool) : (truth b).length < 255 := by
  cases b <;> simp [truth]

theorem Prim.eval_short (a : Prim) : (a.eval st).length < 255 := by
  cases a with
  | atom a => exact a.eval_short st
  | empty => simp [Prim.eval]
  | not a => exact truth_short _

theorem Comparison.eval_short (c : Comparison) {v : Bytes} (h : c.eval st = some v) :
    v.length < 255 := by
  cases c with
  | plain a =>
      obtain rfl : a.eval st = v := by simpa [Comparison.eval] using h
      exact a.eval_short st
  | pattern a b =>
      obtain ⟨matcher,-,rfl⟩ := Option.map_eq_some_iff.mp h
      exact truth_short _
  | _ =>
      simp only [Comparison.eval,Option.some.injEq] at h
      subst h
      exact truth_short _

theorem strncpy_short {v : Bytes} (h : v.length < 255) : strncpy v = v :=
  List.take_of_length_le (by omega)

theorem asString_short {v : Bytes} (h : v.length < 255) : asString v = .ok v := by
  rw [asString,if_pos (by omega)]

theorem atoiBuf_short {v : Bytes} (h : v.length < 255) : atoiBuf v = .ok (atoi v) := by
  rw [atoiBuf,if_pos (.inl (by omega))]

theorem strcmpEq_short {l : Bytes} (r : Bytes) (h : l.length < 255) :
    strcmpEq l r = .ok (decide (l = r)) := by
  unfold strcmpEq
  split_ifs with he hl
  · simp [he]
  · omega
  · simp [he]

/-- The text of an identifier has no dot in it. -/
theorem Lexed.ident_text {p : Parser} {w : Bytes} (hp : Lexed p)
    (ht : p.current = { type := .tokIdent, text := some w }) : w.take 6 ≠ bytes "store." := by
  have hs := hp.scans
  rw [ht] at hs
  generalize p.src.drop p.start = s at hs
  generalize p.pos-p.start = n at hs
  intro hdot
  have hmem : (46 : UInt8) ∈ w := by
    have h6 : (46 : UInt8) ∈ w.take 6 := by
      rw [hdot]
      decide
    exact List.mem_of_mem_take h6
  generalize htok : ({ type := .tokIdent, text := some w } : Token) = tok at hs
  cases hs with
  | word w' s _ hall _ =>
      obtain rfl : w = w' := by simpa using congrArg Token.text htok
      exact absurd (hall 46 hmem) (by decide)
  | _ => simp at htok

theorem evalPrimary_atom (a : Atom) {p : Parser} {rest : List Token} (hp : Lexed p)
    (h : Ahead p (a.tokens++rest)) :
    evalPrimary env p = .ok (some (a.eval st),nextToken p) ∧ Ahead (nextToken p) rest := by
  rw [evalPrimary_eq env hp]
  cases a with
  | ident name =>
      obtain ⟨hc,hrest⟩ := h
      refine ⟨?_,hrest⟩
      have hdot := hp.ident_text hc
      have hshort := (Atom.ident name).eval_short st
      simp only [Atom.eval] at hshort ⊢
      simp only [primaryStep,hc]
      split_ifs at hshort ⊢ with hv
      · rw [strncpy_short hshort]
      · simp [Env.lookup,st.storeGet,strncpy_short hshort]
  | string text hshort =>
      obtain ⟨hc,hrest⟩ := h
      refine ⟨?_,hrest⟩
      simp only [primaryStep,hc,Atom.eval,strncpy_short hshort]
  | number n hshort =>
      obtain ⟨hc,hrest⟩ := h
      refine ⟨?_,hrest⟩
      simp only [primaryStep,hc,Atom.eval,snprintf,List.take_of_length_le hshort.le]

theorem evalPrimary_prim (a : Prim) {p : Parser} {rest : List Token} (hp : Lexed p)
    (h : Ahead p (a.tokens++rest)) :
    ∃ q, evalPrimary env p = .ok (some (a.eval st),q) ∧ Lexed q ∧ Ahead q rest := by
  induction a generalizing p with
  | atom a =>
      obtain ⟨he,hrest⟩ := evalPrimary_atom st a hp h
      exact ⟨_,he,nextToken_lexed p,hrest⟩
  | empty =>
      obtain ⟨hc,hrest⟩ := h
      refine ⟨nextToken p,?_,nextToken_lexed p,hrest⟩
      rw [evalPrimary_eq env hp]
      simp only [primaryStep,hc,keyword,Prim.eval]
  | not a ih =>
      obtain ⟨hc,hrest⟩ := h
      obtain ⟨q,he,hq,hr⟩ := ih (nextToken_lexed p) hrest
      refine ⟨q,?_,hq,hr⟩
      rw [evalPrimary_eq env hp]
      simp [primaryStep,hc,keyword,he,Prim.eval]

/-- A token that does not continue a comparison. -/
def endsComparison (t : TokenType) : Bool :=
  !(t = .tokIs || t = .tokMatches || isOperator t)

/-- Behind `is` and the optional `not` the next token decides. -/
theorem comparisonRest_is {negate : Bool} {left : Bytes} {p : Parser} {t : Token}
    {rest : List Token} (ht : t.type ≠ .tokNot)
    (h : Ahead p (keyword .tokIs::(optionalNot negate++t::rest))) :
    ∃ q, comparisonRest env left p = comparisonIs env negate left q ∧ Lexed q ∧
      Ahead q (t::rest) := by
  obtain ⟨his,h⟩ := h
  cases negate with
  | true =>
      obtain ⟨hc,hrest⟩ := h
      refine ⟨nextToken (nextToken p),?_,nextToken_lexed _,hrest⟩
      simp [comparisonRest,his,tryMatch,hc,keyword]
  | false =>
      have hc : (nextToken p).current = t := h.1
      refine ⟨nextToken p,?_,nextToken_lexed p,h⟩
      simp [comparisonRest,his,tryMatch,hc,ht,keyword]

theorem evalOrder_prim (holds : ℤ → ℤ → Bool) (negate : Bool) {left : Bytes} (b : Prim)
    {p : Parser} {rest : List Token} (hl : left.length < 255)
    (h : Ahead p (keyword .tokThan::(b.tokens++rest))) :
    ∃ q, evalOrder env holds negate left p =
        .ok (some (truth (holds (atoi left) (atoi (b.eval st)) != negate)),q) ∧
      Lexed q ∧ Ahead q rest := by
  obtain ⟨hc,hrest⟩ := h
  obtain ⟨q,hb,hq,hr⟩ := evalPrimary_prim st b (nextToken_lexed p) hrest
  refine ⟨q,?_,hq,hr⟩
  simp [evalOrder,tryMatch,hc,keyword,hb,atoiBuf_short hl,atoiBuf_short (b.eval_short st)]

/-- The first token of an atom. -/
theorem Atom.tokens_eq (a : Atom) : ∃ t, a.tokens = [t] ∧
    (t.type = .tokIdent ∨ t.type = .tokString ∨ t.type = .tokNumber) := by
  cases a with
  | ident name => exact ⟨_,rfl,.inl rfl⟩
  | string text h => exact ⟨_,rfl,.inr (.inl rfl)⟩
  | number n h => exact ⟨_,rfl,.inr (.inr rfl)⟩

theorem Prim.tokens_head (a : Prim) : ∃ t ts, a.tokens = t::ts ∧
    (isLiteral t.type || t.type = .tokNot) = true := by
  cases a with
  | atom a =>
      obtain ⟨t,ht,hk⟩ := a.tokens_eq
      refine ⟨t,[],ht,?_⟩
      rcases hk with hk | hk | hk <;> simp [hk,isLiteral]
  | empty => exact ⟨_,_,rfl,rfl⟩
  | not a => exact ⟨_,_,rfl,rfl⟩

theorem Comparison.tokens_head (c : Comparison) : ∃ t ts, c.tokens = t::ts ∧
    (isLiteral t.type || t.type = .tokNot) = true := by
  have key : ∀ (a : Prim) (us : List Token), ∃ t ts, a.tokens++us = t::ts ∧
      (isLiteral t.type || t.type = .tokNot) = true := by
    intro a us
    obtain ⟨t,ts,ht,hk⟩ := a.tokens_head
    exact ⟨t,ts++us,by rw [ht,List.cons_append],hk⟩
  cases c with
  | plain a => exact a.tokens_head
  | _ => exact key _ _

theorem evalComparison_comparison (c : Comparison) {p : Parser} {t : Token} {rest : List Token}
    (hp : Lexed p) (ht : endsComparison t.type = true) (h : Ahead p (c.tokens++t::rest)) :
    ∃ q, evalComparison env p = .ok (c.eval st,q) ∧ Lexed q ∧
      (c.eval st ≠ none → Ahead q (t::rest)) := by
  have left : ∀ (a : Prim) {p ts}, Lexed p → Ahead p (a.tokens++ts) → ∃ r, Lexed r ∧ Ahead r ts ∧
      evalComparison env p = comparisonRest env (a.eval st) r := by
    intro a p ts hp h
    obtain ⟨r,hr,hlex,hts⟩ := evalPrimary_prim st a hp h
    exact ⟨r,hlex,hts,by simp [evalComparison,hr]⟩
  cases c with
  | plain a =>
      obtain ⟨r,hr,hts,he⟩ := left a hp h
      refine ⟨r,?_,hr,fun _ => hts⟩
      have hc : r.current = t := hts.1
      simp only [endsComparison,Bool.not_eq_true',Bool.or_eq_false_iff,decide_eq_false_iff_not]
        at ht
      rw [he,comparisonRest,hc,if_neg ht.1.1,if_neg ht.1.2,strncpy_short (a.eval_short st)]
      rfl
  | isEmpty negate a =>
      simp only [Comparison.tokens,List.append_assoc,List.cons_append] at h
      obtain ⟨r,hr,hts,he⟩ := left a hp h
      obtain ⟨q,hq,-,hc,hrest⟩ := comparisonRest_is (by decide) hts
      refine ⟨nextToken q,?_,nextToken_lexed q,fun _ => hrest⟩
      rw [he,hq]
      simp [comparisonIs,hc,keyword,Comparison.eval]
  | less negate a b =>
      simp only [Comparison.tokens,List.append_assoc,List.cons_append] at h
      obtain ⟨r,hr,hts,he⟩ := left a hp h
      obtain ⟨q,hq,-,hc,hrest⟩ := comparisonRest_is (by decide) hts
      obtain ⟨q',hq',hlex,hend⟩ := evalOrder_prim st (fun l r => l < r) negate b
        (a.eval_short st) hrest
      refine ⟨q',?_,hlex,fun _ => hend⟩
      rw [he,hq]
      simpa [comparisonIs,hc,keyword,Comparison.eval] using hq'
  | greater negate a b =>
      simp only [Comparison.tokens,List.append_assoc,List.cons_append] at h
      obtain ⟨r,hr,hts,he⟩ := left a hp h
      obtain ⟨q,hq,-,hc,hrest⟩ := comparisonRest_is (by decide) hts
      obtain ⟨q',hq',hlex,hend⟩ := evalOrder_prim st (fun l r => l > r) negate b
        (a.eval_short st) hrest
      refine ⟨q',?_,hlex,fun _ => hend⟩
      rw [he,hq]
      simpa [comparisonIs,hc,keyword,Comparison.eval] using hq'
  | equal negate a b =>
      simp only [Comparison.tokens,List.append_assoc,List.cons_append] at h
      obtain ⟨r,hr,hts,he⟩ := left a hp h
      obtain ⟨u,hu,hkind⟩ := b.tokens_eq
      have hts' := hts
      rw [hu,List.singleton_append] at hts'
      have hnot : u.type ≠ .tokNot := by
        rcases hkind with hk | hk | hk <;> simp [hk]
      obtain ⟨q,hq,hlex,hq'⟩ := comparisonRest_is hnot hts'
      have hc : q.current = u := hq'.1
      obtain ⟨hb,hend⟩ := evalPrimary_atom st b hlex (by rw [hu]; exact hq')
      refine ⟨nextToken q,?_,nextToken_lexed q,fun _ => hend⟩
      rw [he,hq]
      rcases hkind with hk | hk | hk <;>
        simp [comparisonIs,hc,hk,hb,strcmpEq_short _ (a.eval_short st),Comparison.eval]
  | pattern a b =>
      simp only [Comparison.tokens,List.append_assoc,List.cons_append] at h
      obtain ⟨r,hr,⟨hc,hts⟩,he⟩ := left a hp h
      obtain ⟨q,hb,hlex,hend⟩ := evalPrimary_prim st b (nextToken_lexed r) hts
      refine ⟨q,?_,hlex,fun _ => hend⟩
      rw [he]
      simp only [comparisonRest,hc,keyword,reduceCtorEq,if_false,if_true,hb,ok_bind,
        matchPattern,asString_short (b.eval_short st),Comparison.eval]
      cases env.regcomp (b.eval st) with
      | none => rfl
      | some matcher => simp [asString_short (a.eval_short st)]

theorem evalExpression_comparison (c : Comparison) {p : Parser} {t : Token} {rest : List Token}
    (hp : Lexed p) (ht : endsComparison t.type = true) (h : Ahead p (c.tokens++t::rest)) :
    ∃ q, evalExpression env p = .ok (c.eval st,q) ∧ Lexed q ∧
      (c.eval st ≠ none → Ahead q (t::rest)) := by
  obtain ⟨q,hq,hlex,hend⟩ := evalComparison_comparison st c hp ht h
  refine ⟨q,?_,hlex,hend⟩
  cases hv : c.eval st with
  | none => simp [evalExpression,hq,hv]
  | some v =>
      have hc : q.current = t := (hend (by simp [hv])).1
      have hstop : isOperator q.current.type = false := by
        rw [hc]
        simp only [endsComparison,Bool.not_eq_true',Bool.or_eq_false_iff] at ht
        exact ht.2
      rw [hv] at hq
      simp only [evalExpression,hq,ok_bind]
      rw [loop_stop (by simp [hstop])]
      simp [strncpy_short (c.eval_short st hv)]

/-! ## Executing simple statements -/

def EvalState.effects (s : EvalState) : Effects where
  sets := s.sets
  rejected := s.rejected
  errorMsg := s.errorMsg
  showWidget := s.showWidget

/-- A run that agrees with the meaning `ref`, and has read up to `rest` when it
succeeds. -/
def Agrees (r : Run) (ref : Bool × Effects) (s : EvalState) (rest : List Token) : Prop :=
  ∃ q s', r = .ok (ref.1,q,s') ∧ s'.effects = ref.2 ∧ s'.loopCount = s.loopCount ∧
    (ref.1 = true → Lexed q ∧ Ahead q rest)

/-- A statement does what its body does, and a failure has no effects. -/
theorem agrees_statement {x : Config} {ref : Bool × Effects} {rest : List Token}
    (hx : Lexed x.1) (h : Agrees (statementBody env (evalStatement env) x) ref x.2 rest) :
    Agrees (evalStatement env x) ref x.2 rest := by
  obtain ⟨q,s',hr,he,hl,hq⟩ := h
  rw [evalStatement_eq env hx,statementStep,hr,ok_bind]
  cases hb : ref.1 with
  | true =>
      refine ⟨q,s',?_,he,hl,hq⟩
      simp [hb]
  | false =>
      refine ⟨q,s'.noteFailure,?_,he,hl,hq⟩
      simp [hb]

theorem agrees_value {c : Comparison} {p : Parser} {s : EvalState} {t : Token} {rest : List Token}
    {k : Bytes → Parser → Run} {ref : Bytes → Effects} (hp : Lexed p)
    (ht : endsComparison t.type = true) (h : Ahead p (c.tokens++t::rest))
    (hk : ∀ v q, v.length < 255 → Lexed q → Ahead q (t::rest) →
      Agrees (k v q) (true,ref v) s (t::rest)) :
    Agrees (expectValue env p s k) (update (c.eval st) s.effects ref) s (t::rest) := by
  obtain ⟨q,hq,hlex,hend⟩ := evalExpression_comparison st c hp ht h
  rw [expectValue,hq,ok_bind]
  cases hv : c.eval st with
  | none => exact ⟨q,s,rfl,rfl,rfl,by simp [update]⟩
  | some v => exact hk v q (c.eval_short st hv) hlex (hend (by simp [hv]))

theorem evalStatement_simple (g : Simple) {p : Parser} {s : EvalState} {t : Token}
    {rest : List Token} (hp : Lexed p) (hs : s.loopCount ≤ 10000)
    (ht : endsComparison t.type = true) (h : Ahead p (g.tokens++t::rest)) :
    Agrees (evalStatement env (p,s)) (g.exec st s.effects) s (t::rest) := by
  refine agrees_statement hp ?_
  have hcount : ¬s.loopCount > 10000 := by omega
  have assign : ∀ {key : Bytes} {c : Comparison} {q : Parser}, Lexed q →
      Ahead q ({ type := .tokIdent, text := some key }::keyword .tokTo::(c.tokens++t::rest)) →
      Agrees (evalSet env q s) (update (c.eval st) s.effects fun v =>
        { s.effects with sets := s.effects.sets++[(key,v)] }) s (t::rest) := by
    intro key c q hq h
    obtain ⟨hk,hto,hc⟩ := h
    simp only [evalSet,expectText,expect,hk,hto,keyword,if_true]
    refine agrees_value st (nextToken_lexed _) ht hc fun v r hv hr hend => ?_
    rw [asString_short hv]
    exact ⟨r,_,rfl,rfl,rfl,fun _ => ⟨hr,hend⟩⟩
  cases g with
  | set key c =>
      obtain ⟨hc,hrest⟩ := h
      simp only [statementBody,hcount,if_false,hc,keyword]
      exact assign (nextToken_lexed p) hrest
  | letTo key c =>
      obtain ⟨hc,hrest⟩ := h
      simp only [statementBody,hcount,if_false,hc,keyword]
      exact assign (nextToken_lexed p) hrest
  | reject msg =>
      obtain ⟨hc,hw,hm,hrest⟩ := h
      refine ⟨_,s.reject msg,?_,rfl,rfl,fun _ => ⟨nextToken_lexed _,hrest⟩⟩
      simp [statementBody,hcount,hc,keyword,evalReject,expect,hw,expectText,hm,Simple.exec]
  | accept =>
      obtain ⟨hc,hrest⟩ := h
      refine ⟨_,s.accept,?_,rfl,rfl,fun _ => ⟨nextToken_lexed _,hrest⟩⟩
      simp [statementBody,hcount,hc,keyword,Simple.exec]
  | showIf withWhen c =>
      obtain ⟨hc,hrest⟩ := h
      simp only [statementBody,hcount,if_false,hc,keyword,evalShow]
      have hcond : Ahead (tryMatch (nextToken p) .tokWhen).2 (c.tokens++t::rest) := by
        cases withWhen with
        | true =>
            obtain ⟨hw,hrest⟩ := hrest
            simpa [tryMatch,hw,keyword] using hrest
        | false =>
            obtain ⟨u,us,hu,hkind⟩ := c.tokens_head
            have hcur : (nextToken p).current = u := by
              have hrest' : Ahead (nextToken p) (c.tokens++t::rest) := hrest
              rw [hu] at hrest'
              exact hrest'.1
            have hne : u.type ≠ .tokWhen := by
              intro he
              simp [he,isLiteral] at hkind
            simpa [tryMatch,hcur,hne] using hrest
      have hlex : Lexed (tryMatch (nextToken p) .tokWhen).2 :=
        (tryMatch_forward (nextToken_lexed p) (by decide)).lexed
      refine agrees_value st hlex ht hcond fun v r hv hr hend => ?_
      exact ⟨r,_,rfl,rfl,rfl,fun _ => ⟨hr,hend⟩⟩

/-! ## Executing programs -/

theorem Simple.exec_fst (g : Simple) (e e' : Effects) : (g.exec st e).1 = (g.exec st e').1 := by
  have key : ∀ (v : Option Bytes) (f f' : Bytes → Effects), (update v e f).1 = (update v e' f').1 := by
    intro v f f'
    cases v <;> rfl
  cases g with
  | reject msg => rfl
  | accept => rfl
  | _ => exact key _ _ _

theorem branch_fst {cond : Option Bytes} {e e' : Effects} {x x' y y' : Bool × Effects}
    (hx : x.1 = x'.1) (hy : y.1 = y'.1) : (branch cond e x y).1 = (branch cond e' x' y').1 := by
  cases cond with
  | none => rfl
  | some v =>
      simp only [branch]
      split_ifs
      · exact hy
      · exact hx

theorem andThen_fst {x x' : Bool × Effects} {f : Effects → Bool × Effects} (hx : x.1 = x'.1)
    (hf : ∀ e e', (f e).1 = (f e').1) : (andThen x f).1 = (andThen x' f).1 := by
  simp only [andThen,← hx]
  split_ifs
  · exact hf _ _
  · exact hx

theorem Prog.exec_fst (g : Prog) (e e' : Effects) : (g.exec st e).1 = (g.exec st e').1 := by
  induction g generalizing e e' with
  | done => rfl
  | simple s rest ih => exact andThen_fst (s.exec_fst st e e') ih
  | whenThen c a rest iha ih => exact andThen_fst (branch_fst (iha e e') rfl) ih
  | whenElse c a b rest iha ihb ih => exact andThen_fst (branch_fst (iha e e') (ihb e e')) ih

theorem Prog.completes_eq (g : Prog) (e : Effects) : g.completes st = (g.exec st e).1 :=
  g.exec_fst st {} e

def startsStatement (t : TokenType) : Bool :=
  t = .tokSet || t = .tokLet || t = .tokReject || t = .tokAccept || t = .tokShow || t = .tokWhen

theorem endsComparison_of_starts {t : TokenType} (h : startsStatement t = true) :
    endsComparison t = true := by
  revert h
  cases t <;> decide

/-- The token behind a program, or at its start. -/
theorem Prog.tokens_head (g : Prog) (t : Token) (rest : List Token) :
    ∃ u us, g.tokens++t::rest = u::us ∧ (startsStatement u.type = true ∨ u = t) := by
  cases g with
  | done => exact ⟨t,rest,rfl,.inr rfl⟩
  | simple s g => cases s <;> exact ⟨_,_,rfl,.inl rfl⟩
  | whenThen c a g => exact ⟨_,_,rfl,.inl rfl⟩
  | whenElse c a b g => exact ⟨_,_,rfl,.inl rfl⟩

/-- Tokens that are passed over on the way to `end`. -/
def passesOver (t : Token) : Bool := !(t.type = .tokEnd || t.type = .tokEof)

theorem Prim.tokens_passed (a : Prim) : a.tokens.all passesOver = true := by
  induction a with
  | atom a => cases a <;> rfl
  | empty => rfl
  | not a ih => simpa [Prim.tokens,passesOver,keyword] using ih

theorem Atom.tokens_passed (a : Atom) : a.tokens.all passesOver = true := by
  cases a <;> rfl

theorem Comparison.tokens_passed (c : Comparison) : c.tokens.all passesOver = true := by
  have hnot : ∀ b, (optionalNot b).all passesOver = true := by decide
  cases c <;>
    simp [Comparison.tokens,List.all_append,Prim.tokens_passed,Atom.tokens_passed,hnot] <;> decide

theorem Prog.tokens_passed (g : Prog) (h : g.noWhen = true) : g.tokens.all passesOver = true := by
  induction g with
  | done => rfl
  | simple s g ih =>
      have hs : s.tokens.all passesOver = true := by
        cases s with
        | showIf withWhen c =>
            cases withWhen <;> simpa [Simple.tokens,passesOver,keyword] using c.tokens_passed
        | set key c => simpa [Simple.tokens,passesOver,keyword] using c.tokens_passed
        | letTo key c => simpa [Simple.tokens,passesOver,keyword] using c.tokens_passed
        | reject msg => rfl
        | accept => rfl
      simp only [Prog.tokens,List.all_append,hs,ih h,Bool.and_self]
  | whenThen c a g => simp [Prog.noWhen] at h
  | whenElse c a b g => simp [Prog.noWhen] at h

theorem skipUntil_ahead {u : TokenType} {ts rest : List Token} {p : Parser} {t : Token} {n : ℕ}
    (hp : Lexed p) (hts : ∀ v ∈ ts, v.type ≠ u ∧ v.type ≠ .tokEof) (ht : t.type = u)
    (h : Ahead p (ts++t::rest)) (hn : ts.length ≤ n) :
    Lexed (skipUntil (fun v => v = u || v = .tokEof) p n) ∧
      Ahead (skipUntil (fun v => v = u || v = .tokEof) p n) (t::rest) := by
  induction ts generalizing p n with
  | nil =>
      have hc : p.current = t := h.1
      have hs : skipUntil (fun v => v = u || v = .tokEof) p n = p := by
        cases n <;> simp [skipUntil,hc,ht]
      rw [hs]
      exact ⟨hp,h⟩
  | cons v vs ih =>
      obtain ⟨n,rfl⟩ : ∃ k, n = k+1 := ⟨n-1,by simp at hn; omega⟩
      obtain ⟨hc,hrest⟩ := h
      have hv : (decide (p.current.type = u) || decide (p.current.type = .tokEof)) = false := by
        rw [hc]
        simpa using hts v (by simp)
      rw [skipUntil,if_neg (by rw [hv]; decide)]
      exact ih (nextToken_lexed p) (fun w hw => hts w (by simp [hw])) hrest (by simpa using hn)

theorem length_le_remaining {ts rest : List Token} {p : Parser} (hp : Lexed p)
    (hts : ∀ v ∈ ts, v.type ≠ .tokEof) (h : Ahead p (ts++rest)) : ts.length ≤ remaining p := by
  induction ts generalizing p with
  | nil => exact Nat.zero_le _
  | cons u us ih =>
      obtain ⟨hc,hrest⟩ := h
      have hne : p.current.type ≠ .tokEof := by
        rw [hc]
        exact hts u (by simp)
      have hlt := remaining_nextToken_lt hp hne
      have hle := ih (nextToken_lexed p) (fun v hv => hts v (by simp [hv])) hrest
      rw [List.length_cons]
      omega

/-- The tokens in front of the next one of a type are passed over. -/
theorem skipTo_ahead {u : TokenType} {ts rest : List Token} {p : Parser} {t : Token} (hp : Lexed p)
    (hts : ∀ v ∈ ts, v.type ≠ u ∧ v.type ≠ .tokEof) (ht : t.type = u)
    (h : Ahead p (ts++t::rest)) : Lexed (skipTo u p) ∧ Ahead (skipTo u p) (t::rest) :=
  skipUntil_ahead hp hts ht h (length_le_remaining hp (fun v hv => (hts v hv).2) h)

/-- An else branch without `when` is passed over up to its own `end`. -/
theorem skipTo_end {g : Prog} {p : Parser} {t : Token} {rest : List Token} (hp : Lexed p)
    (hg : g.noWhen = true) (ht : t.type = .tokEnd) (h : Ahead p (g.tokens++t::rest)) :
    Lexed (skipTo .tokEnd p) ∧ Ahead (skipTo .tokEnd p) (t::rest) := by
  refine skipTo_ahead hp (fun v hv => ?_) ht h
  have hpass := List.all_eq_true.mp (g.tokens_passed hg) v hv
  simpa [passesOver] using hpass

/-- A loop over statements that stops at `t` and at no statement. -/
structure StopsAt (stop : TokenType → Bool) (t : Token) : Prop where
  here : stop t.type = true
  statements : ∀ u, startsStatement u = true → stop u = false
  ends : endsComparison t.type = true

/-- One statement and the statements behind it. -/
theorem agrees_cons {next : Effects → Bool × Effects} {stop : TokenType → Bool} {p : Parser}
    {s : EvalState} {first : Bool × Effects} {mid rest : List Token}
    (hp : Lexed p) (hstop : stop p.current.type = false)
    (h : Agrees (evalStatement env (p,s)) first s mid)
    (hnext : first.1 = true → ∀ q s', Lexed q → Ahead q mid → s'.loopCount = s.loopCount →
      s'.effects = first.2 →
      Agrees (evalStatements (evalStatement env) stop (q,s')) (next first.2) s' rest) :
    Agrees (evalStatements (evalStatement env) stop (p,s)) (andThen first next) s rest := by
  obtain ⟨q,s',hr,heff,hl,hq⟩ := h
  rw [evalStatements_eq env stop hp]
  obtain ⟨b,e'⟩ := first
  simp only [turn,hstop,hr,ok_bind]
  cases b with
  | false => exact ⟨q,s',rfl,heff,hl,by simp [andThen]⟩
  | true =>
      obtain ⟨q2,s2,hr2,heff2,hl2,hq2⟩ := hnext rfl q s' (hq rfl).1 (hq rfl).2 hl heff
      exact ⟨q2,s2,hr2,heff2,hl2.trans hl,hq2⟩

theorem ahead_end {q : Parser} {mid : List Token} (h : Ahead q (keyword .tokEnd::mid)) :
    Lexed (tryMatch q .tokEnd).2 ∧ Ahead (tryMatch q .tokEnd).2 mid := by
  obtain ⟨hc,hmid⟩ := h
  have he : tryMatch q .tokEnd = (true,nextToken q) := by simp [tryMatch,hc,keyword]
  rw [he]
  exact ⟨nextToken_lexed q,hmid⟩

/-- `when` with a non-empty condition: the block is executed and an else part is
passed over by `hskip`. -/
theorem agrees_taken {v : Bytes} {q r : Parser} {s : EvalState} {ref : Bool × Effects}
    {us mid : List Token} (hv : v ≠ []) (hexp : evalExpression env q = .ok (some v,r))
    (hthen : r.current = keyword .tokThen)
    (hblock : Agrees (evalStatements (evalStatement env) endsBlock (nextToken r,s)) ref s us)
    (hskip : ref.1 = true → ∀ q1, Lexed q1 → Ahead q1 us →
      Ahead (if (tryMatch q1 .tokElse).1 then skipTo .tokEnd (tryMatch q1 .tokElse).2
        else (tryMatch q1 .tokElse).2) (keyword .tokEnd::mid)) :
    Agrees (evalWhen env (evalStatement env) q s) ref s mid := by
  obtain ⟨q1,s1,hr,he,hl,hq⟩ := hblock
  have hb : evalBlock (evalStatement env) r s = .ok (ref.1,q1,s1) := by
    rw [← hr,evalBlock]
    simp [tryMatch,hthen,keyword]
  simp only [evalWhen,expectValue,hexp,ok_bind,if_pos hv,hb]
  cases hb : ref.1 with
  | false => exact ⟨q1,s1,by simp [hb],he,hl,by simp [hb]⟩
  | true =>
      obtain ⟨hlex,hend⟩ := ahead_end (hskip hb q1 (hq hb).1 (hq hb).2)
      exact ⟨_,s1,by simp [hb],he,hl,fun _ => ⟨hlex,hend⟩⟩

/-- `when` with an empty condition and no statement before `else` or `end`. -/
theorem evalWhen_untaken {q r : Parser} {s : EvalState} {u : Token} {us : List Token}
    (hexp : evalExpression env q = .ok (some [],r)) (hend : endsBlock u.type = true)
    (h : Ahead r (keyword .tokThen::u::us)) :
    evalWhen env (evalStatement env) q s =
      if u.type = .tokElse then
        evalBlock (evalStatement env) (nextToken (nextToken r)) s >>= fun x =>
          .ok (true,(tryMatch x.2.1 .tokEnd).2,x.2.2)
      else .ok (true,(tryMatch (nextToken r) .tokEnd).2,s) := by
  obtain ⟨hthen,hu,-⟩ := h
  have hskip : skipTo .tokThen r = r := by
    rw [skipTo]
    cases remaining r <;> simp [skipUntil,hthen,keyword]
  have hloop : evalStatements (evalStatement env) endsBlock (nextToken r,s) =
      .ok (true,nextToken r,s) := loop_stop (by simpa [hu] using hend)
  simp [evalWhen,expectValue,hexp,hskip,hloop,hu]

/-- The statement `when`, for a condition with the value `cond`. -/
theorem agrees_when (mid : List Token) {c : Comparison} {p : Parser} {s : EvalState}
    {taken other : Bool × Effects} {us : List Token} (hp : Lexed p) (hs : s.loopCount ≤ 10000)
    (h : Ahead p (keyword .tokWhen::(c.tokens++keyword .tokThen::us)))
    (htaken : ∀ v q r, c.eval st = some v → v ≠ [] → evalExpression env q = .ok (some v,r) →
      Ahead r (keyword .tokThen::us) → Agrees (evalWhen env (evalStatement env) q s) taken s mid)
    (hother : ∀ q r, c.eval st = some [] → evalExpression env q = .ok (some [],r) →
      Ahead r (keyword .tokThen::us) → Agrees (evalWhen env (evalStatement env) q s) other s mid) :
    Agrees (evalStatement env (p,s)) (branch (c.eval st) s.effects taken other) s mid := by
  obtain ⟨hw,hcond⟩ := h
  obtain ⟨r,hexp,-,hthen⟩ := evalExpression_comparison st c (nextToken_lexed p) rfl hcond
  have hbody : statementBody env (evalStatement env) (p,s) =
      evalWhen env (evalStatement env) (nextToken p) s := by
    simp [statementBody,hw,keyword,show ¬10000 < s.loopCount by omega]
  refine agrees_statement hp ?_
  rw [hbody]
  cases hv : c.eval st with
  | none => exact ⟨r,s,by simp [evalWhen,expectValue,hexp,hv,branch],rfl,rfl,by simp [branch]⟩
  | some v =>
      rw [hv] at hexp
      have hr := hthen (by simp [hv])
      simp only [branch]
      split_ifs with hv0
      · subst hv0
        exact hother _ r hv hexp hr
      · exact htaken v _ r hv hv0 hexp hr

theorem stopsAt_endsBlock {u : Token} (h : u.type = .tokEnd ∨ u.type = .tokElse) :
    StopsAt endsBlock u := by
  refine ⟨?_,by intro u; cases u <;> decide,?_⟩
  · rcases h with h | h <;> rw [h] <;> rfl
  · rcases h with h | h <;> rw [h] <;> rfl

/-- `when` with an empty condition and an else part. -/
theorem agrees_otherwise {q r : Parser} {s : EvalState} {b : Prog} {ref : Bool × Effects}
    {mid : List Token} (hexp : evalExpression env q = .ok (some [],r))
    (h : Ahead r (keyword .tokThen::keyword .tokElse::(b.tokens++keyword .tokEnd::mid)))
    (hblock : Agrees (evalStatements (evalStatement env) endsBlock (nextToken (nextToken r),s)) ref s
      (keyword .tokEnd::mid)) (hok : ref.1 = true) :
    Agrees (evalWhen env (evalStatement env) q s) ref s mid := by
  have hne : (nextToken (nextToken r)).current.type ≠ .tokThen := by
    obtain ⟨u,us,hu,hkind⟩ := b.tokens_head (keyword .tokEnd) mid
    have hfirst := h.2.2
    rw [hu] at hfirst
    rw [hfirst.1]
    intro hthen
    rcases hkind with hk | rfl
    · simp [startsStatement,hthen] at hk
    · simp [keyword] at hthen
  obtain ⟨q1,s1,hr1,he,hl,hq1⟩ := hblock
  obtain ⟨hlex,hend⟩ := ahead_end (hq1 hok).2
  refine ⟨_,s1,?_,he,hl,fun _ => ⟨hlex,hend⟩⟩
  rw [evalWhen_untaken hexp rfl h,hok]
  simp [keyword,evalBlock,tryMatch,hne,hr1]

/-- Behind a `when` that succeeds the rest of the program is clean. -/
theorem clean_whenThen {c : Comparison} {a g : Prog} {e : Effects}
    (h : (Prog.whenThen c a g).Clean st)
    (hok : (branch (c.eval st) e (a.exec st e) (true,e)).1 = true) : g.Clean st := by
  cases hv : c.eval st with
  | none => simp [hv,branch] at hok
  | some v =>
      have hc := h v hv
      simp only [hv,branch] at hok
      split_ifs at hc hok with hv0
      · exact hc.2
      · exact hc.2 (by rw [a.completes_eq st e]; exact hok)

theorem clean_whenElse {c : Comparison} {a b g : Prog} {e : Effects}
    (h : (Prog.whenElse c a b g).Clean st)
    (hok : (branch (c.eval st) e (a.exec st e) (b.exec st e)).1 = true) : g.Clean st := by
  cases hv : c.eval st with
  | none => simp [hv,branch] at hok
  | some v =>
      have hc := h v hv
      simp only [hv,branch] at hok
      split_ifs at hc hok with hv0
      · exact hc.2.2.2
      · exact (hc.2 (by rw [a.completes_eq st e]; exact hok)).2

theorem evalStatements_prog (g : Prog) {stop : TokenType → Bool} {p : Parser} {s : EvalState}
    {t : Token} {rest : List Token} (hp : Lexed p) (hs : s.loopCount ≤ 10000)
    (ht : StopsAt stop t) (hclean : g.Clean st) (h : Ahead p (g.tokens++t::rest)) :
    Agrees (evalStatements (evalStatement env) stop (p,s)) (g.exec st s.effects) s (t::rest) := by
  induction g generalizing stop p s t rest with
  | done =>
      have hc : p.current = t := h.1
      refine ⟨p,s,?_,rfl,rfl,fun _ => ⟨hp,h⟩⟩
      exact loop_stop (by simpa [hc] using ht.here)
  | simple g0 g ih =>
      obtain ⟨u,us,hu,hkind⟩ := g.tokens_head t rest
      rw [Prog.tokens,List.append_assoc,hu] at h
      have hends : endsComparison u.type = true := by
        rcases hkind with hk | rfl
        · exact endsComparison_of_starts hk
        · exact ht.ends
      have hstart : startsStatement p.current.type = true := by
        cases g0 <;> (rw [h.1]; rfl)
      refine agrees_cons hp (ht.statements _ hstart) (evalStatement_simple st g0 hp hs hends h) ?_
      intro hok q s' hq hmid hl heff
      rw [← heff]
      refine ih hq (by omega) ht (hclean ?_) (by rw [hu]; exact hmid)
      rw [← g0.exec_fst st s.effects]
      exact hok
  | whenThen c a g iha ih =>
      simp only [Prog.tokens,List.cons_append,List.append_assoc] at h
      have hstart : startsStatement p.current.type = true := by
        rw [h.1]
        rfl
      refine agrees_cons hp (ht.statements _ hstart)
        (agrees_when st (g.tokens++t::rest) hp hs h ?_ ?_) ?_
      · intro v q r hv hv0 hexp hr
        have hc := hclean v hv
        rw [if_neg hv0] at hc
        refine agrees_taken hv0 hexp hr.1
          (iha (nextToken_lexed r) hs (stopsAt_endsBlock (.inl rfl)) hc.1 hr.2) fun _ q1 _ hq1 => ?_
        have he : tryMatch q1 .tokElse = (false,q1) := by simp [tryMatch,hq1.1,keyword]
        simpa [he] using hq1
      · intro q r hv hexp hr
        have hc := hclean [] hv
        rw [if_pos rfl] at hc
        obtain ⟨rfl,-⟩ := hc
        obtain ⟨hlex,hend⟩ := ahead_end hr.2
        exact ⟨_,s,evalWhen_untaken hexp rfl hr,rfl,rfl,fun _ => ⟨hlex,hend⟩⟩
      · intro hok q s' hq hmid hl heff
        rw [← heff]
        exact ih hq (by omega) ht (clean_whenThen st hclean hok) hmid
  | whenElse c a b g iha ihb ih =>
      simp only [Prog.tokens,List.cons_append,List.append_assoc] at h
      have hstart : startsStatement p.current.type = true := by
        rw [h.1]
        rfl
      refine agrees_cons hp (ht.statements _ hstart)
        (agrees_when st (g.tokens++t::rest) hp hs h ?_ ?_) ?_
      · intro v q r hv hv0 hexp hr
        have hc := hclean v hv
        rw [if_neg hv0] at hc
        refine agrees_taken hv0 hexp hr.1
          (iha (nextToken_lexed r) hs (stopsAt_endsBlock (.inr rfl)) hc.1 hr.2) fun hok q1 _ hq1 => ?_
        have he : tryMatch q1 .tokElse = (true,nextToken q1) := by simp [tryMatch,hq1.1,keyword]
        rw [he]
        exact (skipTo_end (nextToken_lexed q1)
          (hc.2 (by rw [a.completes_eq st s.effects]; exact hok)).1 rfl hq1.2).2
      · intro q r hv hexp hr
        have hc := hclean [] hv
        rw [if_pos rfl] at hc
        obtain ⟨rfl,hb,hcomp,-⟩ := hc
        rw [b.completes_eq st s.effects] at hcomp
        refine agrees_otherwise hexp hr ?_ hcomp
        exact ihb (nextToken_lexed (nextToken r)) hs (stopsAt_endsBlock (.inl rfl)) hb hr.2.2
      · intro hok q s' hq hmid hl heff
        rw [← heff]
        exact ih hq (by omega) ht (clean_whenElse st hclean hok) hmid

/-- The effects that a result reports. -/
def FilResult.effects (r : FilResult) : Effects where
  sets := r.sets
  rejected := !r.accepted
  errorMsg := r.errorMsg
  showWidget := r.showWidget

/-- Every script that reads as a program, and whose execution meets no branch
that the evaluator mistreats, has the effects that the program means. -/
theorem filEval_agrees_of_clean (g : Prog) (script : Bytes)
    (h : Ahead (firstToken script) (g.tokens++[{ type := .tokEof }])) (hclean : g.Clean st) :
    ∃ result, filEval env script = .ok result ∧ result.effects = (g.exec st {}).2 := by
  have hstop : StopsAt (· = .tokEof) { type := .tokEof } :=
    ⟨rfl,by intro u; cases u <;> decide,rfl⟩
  obtain ⟨q,s,hr,he,-,-⟩ :=
    evalStatements_prog st g (s := {}) (nextToken_lexed _) (Nat.zero_le _) hstop hclean h
  refine ⟨.ofState s,?_,?_⟩
  · have hrun : runScript env script = .ok ((g.exec st {}).1,q,s) := hr
    simp [filEval,hrun]
  · have heff : (FilResult.ofState s).effects = s.effects := by
      simp [FilResult.effects,FilResult.ofState,EvalState.effects]
    rw [heff,he]
    rfl

end

/-- A current value and an empty store. -/
def onlyValue (v : Bytes) : Env := { emptyStore with value := some v }

def onlyValueShort {v : Bytes} (h : v.length < 255) : ShortStore (onlyValue v) where
  get := fun _ => none
  storeGet := rfl
  store := fun _ _ h => by simp at h
  value := fun w hw => by
    obtain rfl : v = w := by simpa [onlyValue] using hw
    exact h

/-- `when value is "v" then reject with "no" else show when a end set b to "1"`. -/
def guardProg : Prog :=
  .whenElse (.equal false (.atom (.ident (bytes "value"))) (.string (bytes "v") (by decide)))
    (.simple (.reject (bytes "no")) .done)
    (.simple (.showIf true (.plain (.atom (.ident (bytes "a"))))) .done)
    (.simple (.set (bytes "b") (.plain (.atom (.string (bytes "1") (by decide))))) .done)

theorem filEval_agrees_of_clean_guardProg :
    ∃ result, filEval (onlyValue (bytes "v"))
        (bytes "when value is \"v\" then reject with \"no\" else show when a end set b to \"1\"") =
        .ok result ∧
      result.effects = { sets := [(bytes "b",bytes "1")], rejected := true,
                         errorMsg := some (bytes "no") } := by
  have hclean : guardProg.Clean (onlyValueShort (v := bytes "v") (by decide)) := by
    intro v hv
    obtain rfl : [49] = v := by
      have he : some [49] = some v := by
        rw [← hv]
        decide +kernel
      simpa using he
    exact ⟨fun _ => trivial,fun _ => ⟨rfl,fun _ => trivial⟩⟩
  exact filEval_agrees_of_clean (onlyValueShort (v := bytes "v") (by decide)) guardProg
    (bytes "when value is \"v\" then reject with \"no\" else show when a end set b to \"1\"")
    (by decide +kernel) hclean

/-- `when empty then set a to "1" end`. -/
def emptyProg : Prog :=
  .whenThen (.plain .empty)
    (.simple (.set (bytes "a") (.plain (.atom (.string (bytes "1") (by decide))))) .done) .done

/-- With an empty condition the first branch is executed all the same. -/
theorem empty_condition_runs_branch :
    Ahead (firstToken (bytes "when empty then set a to \"1\" end"))
        (emptyProg.tokens++[{ type := .tokEof }]) ∧
      ¬∃ result, filEval (onlyValue []) (bytes "when empty then set a to \"1\" end") = .ok result ∧
        result.effects = (emptyProg.exec (onlyValueShort (v := []) (by decide)) {}).2 := by
  refine ⟨by decide +kernel,?_⟩
  rintro ⟨result,hr,he⟩
  have hs : filEval (onlyValue []) (bytes "when empty then set a to \"1\" end") =
      .ok (.ofState { sets := [(bytes "a",bytes "1")] }) := by decide +kernel
  rw [hs] at hr
  obtain rfl : FilResult.ofState { sets := [(bytes "a",bytes "1")] } = result := by simpa using hr
  exact absurd he (by decide +kernel)

end Filly.Fil

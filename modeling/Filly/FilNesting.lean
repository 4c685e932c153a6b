import Filly.FilBlocks

/-!
# Open loops and conditionals

What evaluation does with the `end`s of a script. An expression that has a value is
not read beyond its tokens. So, as long as no statement fails, every `end` that is
stepped over closes a loop or a conditional that was opened before it: the evaluator
may misplace branches and bodies, but it does not leave the sequence it was called in.
-/
namespace Filly.Fil
open CJson Descent Outcome

/-! ## Bodies -/

/-- The tokens that expressions are made of. -/
def inExpression (t : TokenType) : Bool :=
  isLiteral t || t = .tokNot || t = .tokIs || t = .tokMatches || t = .tokLess ||
    t = .tokGreater || t = .tokThan || t = .tokOf || t = .tokWith || isOperator t

/-- Tokens of an expression that do not end with `and` or `or`. -/
structure Words (ts : List Token) : Prop where
  inside : ∀ t ∈ ts, inExpression t.type = true
  closed : ∀ t, ts.getLast? = some t → isOperator t.type = false

/-- An expression by its tokens; whether they have a value is left open. -/
abbrev Expr := { ts : List Token // ts ≠ [] ∧ Words ts }

inductive Stmt where
  | set (key : Bytes) (e : Expr)
  | letTo (key : Bytes) (e : Expr)
  | reject (msg : Bytes)
  | accept
  | showIf (withWhen : Bool) (e : Expr)
  | style (widget : Bytes) (child : Option Bytes) (props : List (Bytes × Expr))
  | animate (target name : Bytes)
  | control (kind : Control) (target : Bytes)

/-- A sequence of statements. -/
inductive Body where
  | done
  | stmt (g : Stmt) (rest : Body)
  | keymap (scope : Bytes) (bindings : List (Bytes × Bytes)) (rest : Body)
  | whenThen (e : Expr) (a rest : Body)
  | whenElse (e : Expr) (a b rest : Body)
  | forEach (var arr : Bytes) (a rest : Body)

def Stmt.tokens : Stmt → List Token
  | .set key e => keyword .tokSet::identToken key::keyword .tokTo::e.1
  | .letTo key e => keyword .tokLet::identToken key::keyword .tokTo::e.1
  | .reject msg => [keyword .tokReject,keyword .tokWith,stringToken msg]
  | .accept => [keyword .tokAccept]
  | .showIf withWhen e => keyword .tokShow::((if withWhen then [keyword .tokWhen] else [])++e.1)
  | .style widget child props =>
      (BlockStmt.style widget child (props.map fun x => (x.1,x.2.1))).tokens
  | .animate target name => (BlockStmt.animate target name).tokens
  | .control kind target => (BlockStmt.control kind target).tokens

/-- `for each var in arr do`. -/
def forTokens (var arr : Bytes) : List Token :=
  [keyword .tokFor,keyword .tokEach,identToken var,keyword .tokIn,identToken arr,keyword .tokDo]

def Body.tokens : Body → List Token
  | .done => []
  | .stmt g rest => g.tokens++rest.tokens
  | .keymap scope bindings rest => (BlockStmt.keymap scope bindings).tokens++rest.tokens
  | .whenThen e a rest =>
      keyword .tokWhen::(e.1++keyword .tokThen::(a.tokens++keyword .tokEnd::rest.tokens))
  | .whenElse e a b rest =>
      keyword .tokWhen::(e.1++keyword .tokThen::(a.tokens++
        keyword .tokElse::(b.tokens++keyword .tokEnd::rest.tokens)))
  | .forEach var arr a rest => forTokens var arr++(a.tokens++keyword .tokEnd::rest.tokens)

/-! ## Parsers further on -/

/-- The parser `n` tokens on. -/
def advance (n : ℕ) (p : Parser) : Parser := nextToken^[n] p

def failures (s : EvalState) : ℕ := s.log.count .failed

/-! ## Through an expression -/

/-- The parser stands in front of the last tokens of an expression, or behind it. -/
def Along (us ts : List Token) (q : Parser) : Prop :=
  Lexed q ∧ ∃ vs, vs <:+ us ∧ Ahead q (vs++ts)

section
variable {env : Env} {us ts : List Token} {t : Token} {p q : Parser}

theorem Along.next (ht : inExpression t.type = false) (h : Along us (t::ts) q)
    (hq : inExpression q.current.type = true) : Along us (t::ts) (nextToken q) := by
  obtain ⟨-,vs,hvs,hahead⟩ := h
  cases vs with
  | nil =>
      rw [hahead.1,ht] at hq
      cases hq
  | cons v vs => exact ⟨nextToken_lexed q,vs,(List.suffix_cons v vs).trans hvs,hahead.2⟩

/-- Behind an operator there is another token to step over. -/
theorem Along.skip (hus : Words us) (ht : inExpression t.type = false) (h : Along us (t::ts) q)
    (hq : isOperator q.current.type = true) : Along us (t::ts) (nextToken (nextToken q)) := by
  obtain ⟨-,vs,hvs,hahead⟩ := h
  cases vs with
  | nil =>
      rw [hahead.1] at hq
      simp [inExpression,hq] at ht
  | cons v vs =>
      obtain ⟨hv,hahead⟩ := hahead
      cases vs with
      | nil =>
          obtain ⟨ws,rfl⟩ := hvs
          have hclosed := hus.closed v (by simp)
          rw [hv,hclosed] at hq
          cases hq
      | cons w vs =>
          refine ⟨nextToken_lexed _,vs,?_,hahead.2⟩
          exact ((List.suffix_cons w vs).trans (List.suffix_cons v _)).trans hvs

theorem Along.optional {u : TokenType} (ht : inExpression t.type = false)
    (h : Along us (t::ts) q) (hu : inExpression u = true) :
    Along us (t::ts) (tryMatch q u).2 := by
  unfold tryMatch
  split_ifs with hc
  · exact h.next ht (hc ▸ hu)
  · exact h

theorem evalPrimary_along (ht : inExpression t.type = false)
    (h : Along us (t::ts) p) {v : Bytes} (hv : evalPrimary env p = .ok (some v,q)) :
    Along us (t::ts) q := by
  obtain ⟨n,hn⟩ : ∃ n, remaining p < n := ⟨_,Nat.lt_succ_self _⟩
  induction n generalizing p v with
  | zero => omega
  | succ n ih =>
      rcases evalPrimary_some h.1 hv with ⟨hlit,rfl⟩ | ⟨hnot,w,hw,-⟩
      · exact h.next ht (by simp [inExpression,hlit])
      · have hlt := remaining_nextToken_lt h.1 (by rw [hnot]; decide)
        exact ih (h.next ht (by rw [hnot]; rfl)) hw (by omega)

theorem evalOrder_along {holds : ℤ → ℤ → Bool} {negate : Bool} {left v : Bytes}
    (ht : inExpression t.type = false) (h : Along us (t::ts) p)
    (hv : evalOrder env holds negate left p = .ok (some v,q)) : Along us (t::ts) q := by
  obtain ⟨right,hr⟩ := evalOrder_stops hv
  exact evalPrimary_along ht (h.optional ht rfl) hr

theorem comparisonRest_along {left v : Bytes} (ht : inExpression t.type = false)
    (h : Along us (t::ts) p) (hv : comparisonRest env left p = .ok (some v,q)) :
    Along us (t::ts) q := by
  unfold comparisonRest at hv
  split_ifs at hv with his hmatches
  · have hnot : Along us (t::ts) (tryMatch (nextToken p) .tokNot).2 :=
      (h.next ht (by rw [his]; rfl)).optional ht rfl
    dsimp only at hv
    generalize tryMatch (nextToken p) .tokNot = m at hv hnot
    unfold comparisonIs at hv
    split at hv
    · rename_i hc
      obtain ⟨-,rfl⟩ : _ ∧ nextToken m.2 = q := by simpa using hv
      exact hnot.next ht (by rw [hc]; rfl)
    · rename_i hc
      exact evalOrder_along ht (hnot.next ht (by rw [hc]; rfl)) hv
    · rename_i hc
      exact evalOrder_along ht (hnot.next ht (by rw [hc]; rfl)) hv
    · obtain ⟨⟨right,r⟩,hr,hv⟩ := bind_eq_ok.mp hv
      cases right with
      | none => simp at hv
      | some right =>
          obtain ⟨eq,-,hv⟩ := bind_eq_ok.mp hv
          obtain ⟨-,rfl⟩ : _ ∧ r = q := by simpa using hv
          exact evalPrimary_along ht hnot hr
  · obtain ⟨⟨pattern,r⟩,hr,hv⟩ := bind_eq_ok.mp hv
    cases pattern with
    | none => simp at hv
    | some pattern =>
        rw [matchPattern_stops hv]
        exact evalPrimary_along ht (h.next ht (by rw [hmatches]; rfl)) hr
  · obtain ⟨-,rfl⟩ : _ ∧ p = q := by simpa using hv
    exact h

theorem evalComparison_along {v : Bytes} (ht : inExpression t.type = false)
    (h : Along us (t::ts) p) (hv : evalComparison env p = .ok (some v,q)) :
    Along us (t::ts) q := by
  obtain ⟨l,r,hl,hr⟩ := evalComparison_some hv
  exact comparisonRest_along ht (evalPrimary_along ht h hl) hr

/-- An expression that has a value does not reach behind its tokens. -/
theorem evalExpression_along {v : Bytes} (hus : Words us) (ht : inExpression t.type = false)
    (h : Along us (t::ts) p) (hv : evalExpression env p = .ok (some v,q)) :
    Along us (t::ts) q := by
  unfold evalExpression at hv
  obtain ⟨⟨left,r⟩,hr,hv⟩ := bind_eq_ok.mp hv
  cases left with
  | none => simp at hv
  | some left =>
      obtain ⟨⟨success,left',r'⟩,hloop,hv⟩ := bind_eq_ok.mp hv
      cases success with
      | false => simp at hv
      | true =>
          obtain ⟨-,rfl⟩ : _ ∧ r' = q := by simpa using hv
          refine (loop_success (fun x => Along us (t::ts) x.2) ?_
            (evalComparison_along ht h hr) hloop).1
          rintro ⟨a,x⟩ ⟨b,y⟩ hx hstop hturn
          have hop : isOperator x.current.type = true := by simpa using hstop
          obtain ⟨⟨right,z⟩,hz,hturn⟩ := bind_eq_ok.mp hturn
          cases right with
          | none => simp at hturn
          | some right =>
              obtain ⟨-,rfl⟩ : _ ∧ z = y := by simpa using hturn
              exact evalComparison_along ht (hx.skip hus ht hop) hz

end

/-! ## Open loops and conditionals -/

def bindingTokens (x : Bytes × Bytes) : List Token :=
  [keyword .tokWhen,keyword .tokKey,keyword .tokIs,stringToken x.1,keyword .tokThen,
    stringToken x.2,keyword .tokEnd]

/-- At these tokens a number of loops and conditionals is open; behind the `end` of the
last one stands `rest`. -/
inductive Nested (rest : List Token) : ℕ → List Token → Prop
  | behind : Nested rest 0 rest
  | close {d : ℕ} {ts : List Token} :
      Nested rest d ts → Nested rest (d+1) (keyword .tokEnd::ts)
  | pass {d : ℕ} {ts : List Token} {t : Token} :
      t.type = .tokThen ∨ t.type = .tokElse ∨ t.type = .tokRbrace →
      Nested rest d ts → Nested rest d (t::ts)
  | stmt {d : ℕ} {ts : List Token} (g : Stmt) :
      Nested rest d ts → Nested rest d (g.tokens++ts)
  | keymap {d : ℕ} {ts : List Token} (scope : Bytes) :
      Nested rest d ts → Nested rest d (keyword .tokKeymap::identToken scope::lbrace::ts)
  | binding {d : ℕ} {ts : List Token} (x : Bytes × Bytes) :
      Nested rest d ts → Nested rest d (bindingTokens x++ts)
  | whenever {d : ℕ} {ts : List Token} (e : Expr) :
      Nested rest (d+1) ts → Nested rest d (keyword .tokWhen::(e.1++keyword .tokThen::ts))
  | forEach {d : ℕ} {ts : List Token} (var arr : Bytes) :
      Nested rest (d+1) ts → Nested rest d (forTokens var arr++ts)

theorem Body.nested (g : Body) {rest ts : List Token} {d : ℕ} (h : Nested rest d ts) :
    Nested rest d (g.tokens++ts) := by
  induction g generalizing d ts with
  | done => exact h
  | stmt g next ih =>
      rw [Body.tokens,List.append_assoc]
      exact .stmt g (ih h)
  | keymap scope bindings next ih =>
      have key : ∀ us, Nested rest d us → Nested rest d (bindings.flatMap bindingTokens++us) := by
        intro us hus
        induction bindings with
        | nil => exact hus
        | cons x xs ihx =>
            rw [List.flatMap_cons,List.append_assoc]
            exact .binding x ihx
      have htokens : (Body.keymap scope bindings next).tokens++ts =
          keyword .tokKeymap::identToken scope::lbrace::(bindings.flatMap bindingTokens++
            rbrace::(next.tokens++ts)) := by
        simp only [Body.tokens,BlockStmt.tokens,List.cons_append,List.append_assoc,List.nil_append]
        rfl
      rw [htokens]
      exact .keymap scope (key _ (.pass (t := rbrace) (.inr (.inr rfl)) (ih h)))
  | whenThen e a next iha ih =>
      simp only [Body.tokens,List.cons_append,List.append_assoc]
      exact .whenever e (iha (.close (ih h)))
  | whenElse e a b next iha ihb ih =>
      simp only [Body.tokens,List.cons_append,List.append_assoc]
      exact .whenever e (iha (.pass (t := keyword .tokElse) (.inr (.inl rfl)) (ihb (.close (ih h)))))
  | forEach var arr a next iha ih =>
      simp only [Body.tokens,List.cons_append,List.append_assoc]
      exact .forEach var arr (iha (.close (ih h)))

/-- Tokens without `end`. -/
def Plain (ts : List Token) : Prop := ∀ t ∈ ts, t.type ≠ .tokEnd ∧ t.type ≠ .tokEof

theorem Words.plain {ts : List Token} (h : Words ts) : Plain ts := by
  intro t ht
  have hin := h.inside t ht
  constructor <;> (intro he; rw [he] at hin; cases hin)

theorem Plain.append {ts us : List Token} (h : Plain ts) (h' : Plain us) : Plain (ts++us) :=
  fun t ht => (List.mem_append.mp ht).elim (h t) (h' t)

theorem Plain.cons {ts : List Token} {t : Token} (ht : t.type ≠ .tokEnd ∧ t.type ≠ .tokEof)
    (h : Plain ts) : Plain (t::ts) :=
  List.forall_mem_cons.mpr ⟨ht,h⟩

theorem Stmt.plain (g : Stmt) : Plain g.tokens := by
  cases g with
  | set key e => exact .cons (by decide) (.cons (by simp [identToken]) (.cons (by decide) e.2.2.plain))
  | letTo key e =>
      exact .cons (by decide) (.cons (by simp [identToken]) (.cons (by decide) e.2.2.plain))
  | reject msg => simp [Plain,Stmt.tokens,keyword,stringToken]
  | accept => simp [Plain,Stmt.tokens,keyword]
  | showIf withWhen e =>
      refine .cons (by decide) (.append ?_ e.2.2.plain)
      cases withWhen <;> simp [Plain,keyword]
  | style widget child props =>
      refine .cons (by decide) (.cons (by simp [identToken]) (.append ?_ (.cons (by decide)
        (.append ?_ (by simp [Plain,rbrace])))))
      · cases child <;> simp [Plain,identToken]
      · intro t ht
        obtain ⟨⟨prop,us⟩,hmem,ht⟩ := List.mem_flatMap.mp ht
        obtain ⟨⟨prop',e⟩,-,hx⟩ := List.mem_map.mp hmem
        obtain ⟨rfl,rfl⟩ : prop' = prop ∧ e.1 = us := by simpa using hx
        exact Plain.cons (by simp [identToken]) (.cons (by decide) e.2.2.plain) t ht
  | animate target name => simp [Plain,Stmt.tokens,BlockStmt.tokens,keyword,stringToken]
  | control kind target =>
      cases kind <;>
        simp [Plain,Stmt.tokens,BlockStmt.tokens,Control.token,keyword,stringToken]

/-- What is open has at least as many tokens in front of the rest. -/
theorem Nested.split {rest ts : List Token} {d : ℕ} (h : Nested rest d ts) :
    ∃ us, ts = us++rest ∧ (∀ t ∈ us, t.type ≠ .tokEof) ∧ d ≤ us.length := by
  have extend : ∀ (us : List Token) {ts : List Token} {d d' : ℕ}, (∀ t ∈ us, t.type ≠ .tokEof) →
      d ≤ us.length+d' → (∃ vs, ts = vs++rest ∧ (∀ t ∈ vs, t.type ≠ .tokEof) ∧ d' ≤ vs.length) →
      ∃ vs, us++ts = vs++rest ∧ (∀ t ∈ vs, t.type ≠ .tokEof) ∧ d ≤ vs.length := by
    rintro us _ d d' hus hd ⟨vs,rfl,hvs,hle⟩
    refine ⟨us++vs,by rw [List.append_assoc],fun t ht => ?_,?_⟩
    · exact (List.mem_append.mp ht).elim (hus t) (hvs t)
    · rw [List.length_append]
      omega
  induction h with
  | behind => exact ⟨[],rfl,by simp,le_rfl⟩
  | close _ ih => exact extend [keyword .tokEnd] (by simp [keyword]) (by simp) ih
  | @pass _ _ t ht _ ih =>
      refine extend [t] ?_ (by simp) ih
      rcases ht with ht | ht | ht <;> simp [ht]
  | stmt g _ ih => exact extend g.tokens (fun t ht => (g.plain t ht).2) (by omega) ih
  | keymap scope _ ih =>
      exact extend [keyword .tokKeymap,identToken scope,lbrace]
        (by simp [keyword,identToken,lbrace]) (by omega) ih
  | binding x _ ih =>
      exact extend (bindingTokens x) (by simp [bindingTokens,keyword,stringToken])
        (by omega) ih
  | whenever e _ ih =>
      have hus : Plain (keyword .tokWhen::(e.1++[keyword .tokThen])) :=
        .cons (by decide) (e.2.2.plain.append (by simp [Plain,keyword]))
      simpa using extend _ (fun t ht => (hus t ht).2) (Nat.le_add_left_of_le (Nat.le_succ _)) ih
  | forEach var arr _ ih =>
      exact extend (forTokens var arr) (by simp [forTokens,keyword,identToken])
        (by omega) ih

/-- The next `end` leaves at most one less open than `d`. -/
def NextEnd (rest : List Token) (d : ℕ) (ts : List Token) : Prop :=
  ∃ us vs e, ts = us++keyword .tokEnd::vs ∧ Plain us ∧ Nested rest e vs ∧ d ≤ e+1

theorem Plain.nextEnd {rest us ts : List Token} {d d' : ℕ} (hus : Plain us)
    (h : NextEnd rest d' ts) (hd : d ≤ d') : NextEnd rest d (us++ts) := by
  obtain ⟨ws,vs,e,rfl,hws,hn,hle⟩ := h
  exact ⟨us++ws,vs,e,by rw [List.append_assoc],hus.append hws,hn,hd.trans hle⟩

theorem Nested.nextEnd {rest ts : List Token} {d : ℕ} (h : Nested rest d ts) (hd : d ≠ 0) :
    NextEnd rest d ts := by
  induction h with
  | behind => exact absurd rfl hd
  | close h _ => exact ⟨[],_,_,rfl,by simp [Plain],h,le_rfl⟩
  | @pass d ts t ht h ih =>
      have hus : Plain [t] := by rcases ht with ht | ht | ht <;> simp [Plain,ht]
      exact hus.nextEnd (ih hd) le_rfl
  | stmt g h ih => exact g.plain.nextEnd (ih hd) le_rfl
  | keymap scope h ih =>
      have hus : Plain [keyword .tokKeymap,identToken scope,lbrace] := by
        simp [Plain,keyword,identToken,lbrace]
      exact hus.nextEnd (ih hd) le_rfl
  | binding x h _ =>
      refine ⟨[keyword .tokWhen,keyword .tokKey,keyword .tokIs,stringToken x.1,keyword .tokThen,
        stringToken x.2],_,_,rfl,?_,h,Nat.le_succ _⟩
      simp [Plain,keyword,stringToken]
  | @whenever d ts e h ih =>
      have hus : Plain (keyword .tokWhen::(e.1++[keyword .tokThen])) :=
        .cons (by decide) (e.2.2.plain.append (by simp [Plain,keyword]))
      simpa using hus.nextEnd (ih (Nat.succ_ne_zero d)) (Nat.le_succ d)
  | @forEach d ts var arr h ih =>
      have hus : Plain (forTokens var arr) := by simp [Plain,forTokens,keyword,identToken]
      exact hus.nextEnd (ih (Nat.succ_ne_zero d)) (Nat.le_succ d)

/-- The tokens that statements begin with. -/
def startsBody (t : TokenType) : Bool :=
  t = .tokAnimate || t = .tokStop || t = .tokPause || t = .tokResume || t = .tokStyle ||
    t = .tokKeymap || t = .tokWhen || t = .tokLet || t = .tokSet || t = .tokReject ||
    t = .tokAccept || t = .tokShow || t = .tokFor

theorem Stmt.tokens_head (g : Stmt) : ∃ t us, g.tokens = t::us ∧ startsBody t.type = true := by
  cases g with
  | control kind target => exact ⟨_,_,rfl,by cases kind <;> rfl⟩
  | _ => exact ⟨_,_,rfl,rfl⟩

theorem Nested.head {rest ts : List Token} {d : ℕ} (h : Nested rest d ts) (hd : d ≠ 0) :
    ∃ t us, ts = t::us ∧ inExpression t.type = false ∧ t.type ≠ .tokEof := by
  cases h with
  | behind => exact absurd rfl hd
  | @pass _ us t ht _ =>
      refine ⟨t,us,rfl,?_⟩
      rcases ht with ht | ht | ht <;> (rw [ht]; decide)
  | @stmt _ us g _ =>
      obtain ⟨t,ts,ht,hstart⟩ := g.tokens_head
      refine ⟨t,ts++us,by rw [ht,List.cons_append],?_⟩
      revert hstart
      cases t.type <;> decide
  | close | keymap | binding | whenever | forEach => exact ⟨_,_,rfl,by decide,by decide⟩

/-- Behind `then` and `else` as much is open as before. -/
theorem Nested.passed {rest ts : List Token} {t : Token} {d : ℕ} (h : Nested rest d (t::ts))
    (hd : d ≠ 0) (ht : t.type = .tokThen ∨ t.type = .tokElse) : Nested rest d ts := by
  generalize hus : t::ts = us at h
  cases h with
  | behind => exact absurd rfl hd
  | pass _ h =>
      obtain ⟨-,rfl⟩ := List.cons.inj hus
      exact h
  | stmt g _ =>
      obtain ⟨u,us,hu,hstart⟩ := g.tokens_head
      rw [hu] at hus
      obtain ⟨rfl,-⟩ := List.cons.inj hus
      rcases ht with ht | ht <;> (rw [ht] at hstart; cases hstart)
  | close | keymap | binding | whenever | forEach =>
      obtain ⟨rfl,-⟩ := List.cons.inj hus
      rcases ht with ht | ht <;> cases ht

/-! ## The parser inside -/

/-- At least `d` loops and conditionals are open at the parser, which may still stand in
an expression. -/
def Inside (rest : List Token) (d : ℕ) (q : Parser) : Prop :=
  Lexed q ∧ ∃ us ts e, Words us ∧ d ≤ e ∧ Nested rest e ts ∧ Ahead q (us++ts)

theorem Words.suffix {us vs : List Token} (h : Words us) (hvs : vs <:+ us) : Words vs := by
  refine ⟨fun t ht => h.inside t (hvs.mem ht),fun t ht => h.closed t ?_⟩
  obtain ⟨ws,rfl⟩ := hvs
  rw [List.getLast?_append,ht]
  rfl

section
variable {rest us ts : List Token} {d : ℕ} {q : Parser}

theorem Along.inside (h : Along us ts q) (hus : Words us) (hn : Nested rest d ts) :
    Inside rest d q := by
  obtain ⟨hq,vs,hvs,hahead⟩ := h
  exact ⟨hq,vs,ts,d,hus.suffix hvs,le_rfl,hn,hahead⟩

theorem inside_nested (hq : Lexed q) (h : Ahead q ts) (hn : Nested rest d ts) : Inside rest d q :=
  ⟨hq,[],ts,d,⟨by simp,by simp⟩,le_rfl,hn,h⟩

theorem Inside.mono {e : ℕ} (h : Inside rest d q) (he : e ≤ d) : Inside rest e q := by
  obtain ⟨hq,us,ts,e',hus,hle,hn,hahead⟩ := h
  exact ⟨hq,us,ts,e',hus,he.trans hle,hn,hahead⟩

theorem Inside.nextEnd (h : Inside rest (d+1) q) :
    ∃ us vs e, Ahead q (us++keyword .tokEnd::vs) ∧ Plain us ∧ Nested rest e vs ∧ d ≤ e := by
  obtain ⟨-,us,ts,e,hus,hle,hn,hahead⟩ := h
  obtain ⟨ws,vs,e',heq,hws,hn',hle'⟩ := hus.plain.nextEnd (hn.nextEnd (by omega)) hle
  rw [heq] at hahead
  exact ⟨ws,vs,e',hahead,hws,hn',by omega⟩

theorem Inside.close (h : Inside rest (d+1) q) : Inside rest d (tryMatch q .tokEnd).2 := by
  unfold tryMatch
  split_ifs with hc
  · obtain ⟨us,vs,e,hahead,hus,hn,hle⟩ := h.nextEnd
    cases us with
    | nil => exact (inside_nested (nextToken_lexed q) hahead.2 hn).mono hle
    | cons u us =>
        have hu := (hus u (by simp)).1
        rw [← hahead.1] at hu
        exact absurd hc hu
  · exact h.mono (Nat.le_succ d)

theorem Inside.skipTo_end (h : Inside rest (d+1) q) : Inside rest (d+1) (skipTo .tokEnd q) := by
  obtain ⟨us,vs,e,hahead,hus,hn,hle⟩ := h.nextEnd
  obtain ⟨hlex,hend⟩ := skipTo_ahead h.1 hus rfl hahead
  exact (inside_nested hlex hend (.close hn)).mono (by omega)

theorem Inside.nested (h : Inside rest d q) (hq : inExpression q.current.type = false) :
    ∃ ts e, d ≤ e ∧ Nested rest e ts ∧ Ahead q ts := by
  obtain ⟨-,us,ts,e,hus,hle,hn,hahead⟩ := h
  cases us with
  | nil => exact ⟨ts,e,hle,hn,hahead⟩
  | cons u us =>
      have hu := hus.inside u (by simp)
      rw [← hahead.1,hq] at hu
      cases hu

theorem Inside.next (h : Inside rest (d+1) q)
    (hq : q.current.type = .tokThen ∨ q.current.type = .tokElse) :
    Inside rest (d+1) (nextToken q) := by
  obtain ⟨ts,e,hle,hn,hahead⟩ := h.nested (by rcases hq with hq | hq <;> (rw [hq]; rfl))
  obtain ⟨t,us,rfl,-,-⟩ := hn.head (by omega)
  rw [hahead.1] at hq
  exact (inside_nested (nextToken_lexed q) hahead.2 (hn.passed (by omega) hq)).mono hle

end

/-! ## One statement -/

/-- What a run says about its end: failures are only added, by a failure one at least, and
without a new failure as much stays open as before. -/
structure Closed (rest : List Token) (x : Config) (b : Bool) (y : Config) : Prop where
  grows : failures x.2 ≤ failures y.2
  fails : b = false → failures x.2 < failures y.2
  inside : ∀ d, Inside rest (d+1) x.1 → b = true → failures y.2 = failures x.2 →
    Inside rest (d+1) y.1

def Closes (rest : List Token) (f : Config → Run) : Prop :=
  ∀ x b y, f x = .ok (b,y) → Closed rest x b y

theorem failures_stable (n : ℕ) : Stable fun s => n ≤ failures s where
  recordSet _ _ _ h := h
  recordStyle _ _ _ h := h
  recordKeymap _ _ h := h
  recordAnimation _ _ _ h := h
  reject _ _ h := by simpa [failures,EvalState.reject] using h
  accept _ h := by simpa [failures,EvalState.accept] using h
  setShow _ _ h := h
  noteFailure _ h := h.trans (by simp [failures,EvalState.noteFailure])
  countLoop _ h := h

section
variable {rest : List Token} {f : Config → Run} {env : Env}

theorem Closed.refl (x : Config) : Closed rest x true x := ⟨le_rfl,by simp,fun _ hx _ _ => hx⟩

theorem Closed.trans {x y z : Config} {b : Bool} (h : Closed rest x true y)
    (h' : Closed rest y b z) : Closed rest x b z := by
  refine ⟨h.grows.trans h'.grows,fun hb => h.grows.trans_lt (h'.fails hb),?_⟩
  intro d hx hb heq
  have h1 := h.grows
  have h2 := h'.grows
  exact h'.inside d (h.inside d hx rfl (by omega)) hb (by omega)

theorem evalStatements_closes (hf : Closes rest f) (stop : TokenType → Bool) :
    Closes rest (evalStatements f stop) := fun x _ _ h =>
  loop_outcome (Closed rest x true) (Closed rest x) (fun _ hz _ => hz)
    (fun z w hz _ hw => hz.trans (hf z true w hw)) (fun z w hz _ hw => hz.trans (hf z false w hw))
    (.refl x) h

theorem evalBlock_closes (hf : Closes rest f) {p : Parser} {s : EvalState} {b : Bool} {y : Config}
    (h : evalBlock f p s = .ok (b,y)) : Closed rest (p,s) b y := by
  have hy := evalStatements_closes hf _ _ b y h
  refine ⟨hy.grows,hy.fails,fun d hx => hy.inside d ?_⟩
  change Inside rest (d+1) p at hx
  change Inside rest (d+1) (tryMatch p .tokThen).2
  unfold tryMatch
  split_ifs with hc
  · exact hx.next (.inl hc)
  · exact hx

theorem expectValue_true {p : Parser} {s : EvalState} {k : Bytes → Parser → Run} {y : Config}
    (h : expectValue env p s k = .ok (true,y)) :
    ∃ v q, evalExpression env p = .ok (some v,q) ∧ k v q = .ok (true,y) := by
  obtain ⟨⟨v,q⟩,hv,h⟩ := bind_eq_ok.mp h
  cases v with
  | none => simp at h
  | some v => exact ⟨v,q,hv,h⟩

theorem expect_true {t : TokenType} {p : Parser} {s : EvalState} {k : Parser → Run} {y : Config}
    (h : expect t p s k = .ok (true,y)) : p.current.type = t ∧ k (nextToken p) = .ok (true,y) := by
  unfold expect at h
  split_ifs at h with ht
  · exact ⟨ht,h⟩
  · simp at h

theorem expectText_true {t : TokenType} {p : Parser} {s : EvalState} {k : Bytes → Parser → Run}
    {y : Config} (h : expectText t p s k = .ok (true,y)) :
    p.current.type = t ∧ ∃ text, k text (nextToken p) = .ok (true,y) := by
  unfold expectText at h
  split_ifs at h with ht
  · cases htext : p.current.text with
    | none => simp [htext] at h
    | some text => exact ⟨ht,text,by simpa [htext] using h⟩
  · simp at h

theorem ahead_along {us ts : List Token} {p : Parser} (hp : Lexed p) (h : Ahead p (us++ts)) :
    Along us ts p :=
  ⟨hp,us,List.suffix_rfl,h⟩

/-- Behind the first branch: an `else` and its branch up to the next `end`. -/
theorem Inside.skipElse {d : ℕ} {q : Parser} (h : Inside rest (d+1) q) :
    Inside rest (d+1)
      (if (tryMatch q .tokElse).1 then skipTo .tokEnd (tryMatch q .tokElse).2
        else (tryMatch q .tokElse).2) := by
  unfold tryMatch
  by_cases hc : q.current.type = .tokElse
  · rw [if_pos hc]
    exact (h.next (.inr hc)).skipTo_end
  · rw [if_neg hc]
    exact h

theorem evalWhen_inside (hf : Closes rest f) {e : Expr} {ts : List Token} {d : ℕ} {p : Parser}
    {s : EvalState} {y : Config} (hp : Lexed p) (h : Ahead p (e.1++keyword .tokThen::ts))
    (hn : Nested rest (d+1) ts) (hr : evalWhen env f p s = .ok (true,y))
    (hfail : failures y.2 = failures s) : Inside rest d y.1 := by
  obtain ⟨v,q,hv,hr⟩ := expectValue_true hr
  have hq : Along e.1 (keyword .tokThen::ts) q :=
    evalExpression_along e.2.2 rfl (ahead_along hp h) hv
  split_ifs at hr with hcond
  · -- the first branch is executed
    obtain ⟨⟨b,r,s'⟩,hblock,hr⟩ := bind_eq_ok.mp hr
    have hclosed := evalBlock_closes hf hblock
    cases b with
    | false => simp at hr
    | true =>
        obtain rfl : (_,_) = y := congrArg Prod.snd (ok.inj hr)
        have hin : Inside rest (d+1) q := hq.inside e.2.2 (.pass (t := keyword .tokThen) (.inl rfl) hn)
        exact ((hclosed.inside d hin rfl hfail).skipElse).close
  · -- the first branch is executed as well, and then the `else` branch
    have hskip : Inside rest (d+1) (nextToken (skipTo .tokThen q)) := by
      obtain ⟨hlex,vs,hvs,hahead⟩ := hq
      have hwords := e.2.2.suffix hvs
      have hpass : ∀ t ∈ vs, t.type ≠ .tokThen ∧ t.type ≠ .tokEof := by
        intro t ht
        refine ⟨fun he => ?_,(hwords.plain t ht).2⟩
        have hin := hwords.inside t ht
        rw [he] at hin
        cases hin
      exact inside_nested (nextToken_lexed _) (skipTo_ahead hlex hpass rfl hahead).2.2 hn
    obtain ⟨⟨b,r,s'⟩,hstmts,hr⟩ := bind_eq_ok.mp hr
    have hclosed := evalStatements_closes hf _ _ _ _ hstmts
    cases b with
    | false => simp at hr
    | true =>
        have hgrows : failures s ≤ failures s' := hclosed.grows
        dsimp only at hr
        rw [if_pos rfl] at hr
        split_ifs at hr with helse
        · obtain ⟨⟨b,r',s''⟩,hblock,hr⟩ := bind_eq_ok.mp hr
          have hclosed' := evalBlock_closes hf hblock
          obtain rfl : (_,_) = y := congrArg Prod.snd (ok.inj hr)
          change failures s'' = failures s at hfail
          have hsame : failures s' = failures s := by
            have hle : failures s' ≤ failures s'' := hclosed'.grows
            omega
          have hin : Inside rest (d+1) r := hclosed.inside d hskip rfl hsame
          cases b with
          | true =>
              refine (hclosed'.inside d (hin.next (.inr helse)) rfl ?_).close
              change failures s'' = failures s'
              omega
          | false =>
              have hlt : failures s' < failures s'' := hclosed'.fails rfl
              omega
        · obtain rfl : (_,_) = y := congrArg Prod.snd (ok.inj hr)
          exact (hclosed.inside d hskip rfl hfail).close

theorem evalStatement_of_body {x y : Config} (hx : Lexed x.1)
    (h : statementBody env (evalStatement env) x = .ok (true,y)) :
    evalStatement env x = .ok (true,y) := by
  rw [evalStatement_eq env hx,statementStep,h]
  rfl

/-- A statement that succeeds starts like one, and the cap is not exceeded. -/
theorem statementBody_true {p : Parser} {s : EvalState} {y : Config}
    (h : statementBody env f (p,s) = .ok (true,y)) :
    startsBody p.current.type = true ∧ s.loopCount ≤ 10000 := by
  unfold statementBody at h
  by_cases hcount : s.loopCount > 10000
  · simp [hcount] at h
  · refine ⟨?_,by omega⟩
    simp only [hcount,if_false] at h
    cases hc : p.current.type <;> simp [hc,startsBody] at h ⊢

/-- Only `when` evaluates statements in it. -/
theorem statementBody_congr_of_ne {g : Config → Run} {p : Parser} {s : EvalState}
    (hp : p.current.type ≠ .tokWhen) : statementBody env f (p,s) = statementBody env g (p,s) := by
  unfold statementBody
  cases hc : p.current.type with
  | tokWhen => exact absurd hc hp
  | _ => simp only [hc]

theorem evalSet_along {key : Bytes} {e : Expr} {p : Parser} {s : EvalState} {y : Config}
    {t : Token} {ts : List Token} (ht : inExpression t.type = false)
    (h : Ahead p (identToken key::keyword .tokTo::(e.1++t::ts)))
    (hr : evalSet env p s = .ok (true,y)) : Along e.1 (t::ts) y.1 := by
  obtain ⟨hkey,hto,hahead⟩ := h
  simp only [evalSet,expectText,expect,hkey,hto,identToken,keyword,if_true] at hr
  obtain ⟨v,q,hv,hr⟩ := expectValue_true hr
  obtain ⟨w,-,hr⟩ := bind_eq_ok.mp hr
  obtain rfl : (_,_) = y := congrArg Prod.snd (ok.inj hr)
  exact evalExpression_along e.2.2 ht (ahead_along (nextToken_lexed _) hahead) hv

theorem evalShow_along {withWhen : Bool} {e : Expr} {p : Parser} {s : EvalState} {y : Config}
    {t : Token} {ts : List Token} (hp : Lexed p) (ht : inExpression t.type = false)
    (h : Ahead p ((if withWhen then [keyword .tokWhen] else [])++(e.1++t::ts)))
    (hr : evalShow env p s = .ok (true,y)) : Along e.1 (t::ts) y.1 := by
  obtain ⟨v,q,hv,hr⟩ := expectValue_true hr
  obtain rfl : (_,_) = y := congrArg Prod.snd (ok.inj hr)
  refine evalExpression_along e.2.2 ht ?_ hv
  cases withWhen with
  | true =>
      obtain ⟨hwhen,hahead⟩ := h
      have hm : tryMatch p .tokWhen = (true,nextToken p) := by simp [tryMatch,hwhen,keyword]
      rw [hm]
      exact ahead_along (nextToken_lexed p) hahead
  | false =>
      have hahead : Ahead p (e.1++t::ts) := h
      obtain ⟨u,us,hu⟩ := List.exists_cons_of_ne_nil e.2.1
      have hword := e.2.2.inside u (by rw [hu]; simp)
      have hne : p.current.type ≠ .tokWhen := by
        rw [hu] at hahead
        rw [hahead.1]
        intro he
        rw [he] at hword
        cases hword
      have hm : tryMatch p .tokWhen = (false,p) := by simp [tryMatch,hne]
      rw [hm]
      exact ahead_along hp hahead

/-- What stands between the braces of a style block. -/
def propTokens (props : List (Bytes × Expr)) : List Token :=
  props.flatMap fun x => identToken x.1::keyword .tokIs::x.2.1

theorem words_props (props : List (Bytes × Expr)) : Words (propTokens props) := by
  induction props with
  | nil => exact ⟨by simp [propTokens],by simp [propTokens]⟩
  | cons x props ih =>
      obtain ⟨prop,us,hne,hus⟩ := x
      rw [propTokens,List.flatMap_cons]
      constructor
      · intro t ht
        rcases List.mem_append.mp ht with ht | ht
        · rcases List.mem_cons.mp ht with rfl | ht
          · rfl
          · rcases List.mem_cons.mp ht with rfl | ht
            · rfl
            · exact hus.inside t ht
        · exact ih.inside t ht
      · intro t ht
        rw [List.getLast?_append] at ht
        cases hlast : (propTokens props).getLast? with
        | some u =>
            change (propTokens props).getLast?.or _ = some t at ht
            rw [hlast] at ht
            exact ih.closed t (hlast.trans ht)
        | none =>
            change (propTokens props).getLast?.or _ = some t at ht
            rw [hlast,Option.none_or] at ht
            obtain ⟨u,us,rfl⟩ := List.exists_cons_of_ne_nil hne
            rw [List.getLast?_cons_cons,List.getLast?_cons_cons] at ht
            exact hus.closed t ht

theorem endsBraces_of_word {t : TokenType} (h : inExpression t = true) : endsBraces t = false := by
  revert h
  cases t <;> decide

/-- A style block that succeeds is read up to its brace. -/
theorem style_inside {widget : Bytes} {child : Option Bytes} {props : List (Bytes × Expr)}
    {p : Parser} {s : EvalState} {y : Config} {ts : List Token} (hs : s.loopCount ≤ 10000)
    (h : Ahead p ((Stmt.style widget child props).tokens++ts))
    (hr : statementBody env (evalStatement env) (p,s) = .ok (true,y)) : Along [] ts y.1 := by
  have h' : Ahead p (keyword .tokStyle::identToken widget::((child.map identToken).toList++
      lbrace::(propTokens props++rbrace::ts))) := by
    simpa [Stmt.tokens,BlockStmt.tokens,propTokens,List.flatMap_map] using h
  rcases statementBody_style env hs h' with ⟨q,hq⟩ | ⟨c,q,-,hlex,hq,hbody⟩
  · rw [hq] at hr
    simp at hr
  · rw [hbody] at hr
    obtain ⟨⟨b,r,s'⟩,hloop,hr⟩ := bind_eq_ok.mp hr
    cases b with
    | false => simp at hr
    | true =>
        have hwords := words_props props
        have hbrace : inExpression rbrace.type = false := rfl
        have hstep : ∀ x z : Config, Along (propTokens props) (rbrace::ts) x.1 →
            endsBraces x.1.current.type = false → styleProperty env c [] x = .ok (true,z) →
            Along (propTokens props) (rbrace::ts) z.1 := by
          intro x z hx _ hz
          obtain ⟨ht,prop,hz⟩ := expectText_true hz
          obtain ⟨ht',hz⟩ := expect_true hz
          obtain ⟨v,q',hv,hz⟩ := expectValue_true hz
          obtain ⟨w,-,hz⟩ := bind_eq_ok.mp hz
          obtain rfl : (_,_) = z := congrArg Prod.snd (ok.inj hz)
          have hx' := (hx.next hbrace (by rw [ht]; rfl)).next hbrace (by rw [ht']; rfl)
          exact evalExpression_along hwords hbrace hx' hv
        obtain ⟨⟨-,vs,hvs,hahead⟩,hstop⟩ := loop_success _ hstep (ahead_along hlex hq) hloop
        have hnil : vs = [] := by
          cases vs with
          | nil => rfl
          | cons v vs =>
              have hv := endsBraces_of_word (hwords.inside v (hvs.mem (by simp)))
              rw [← hahead.1,hstop] at hv
              cases hv
        subst hnil
        obtain rfl : (_,_) = y := congrArg Prod.snd (ok.inj hr)
        have hc : r.current = rbrace := hahead.1
        have hm : tryMatch r .tokRbrace = (true,nextToken r) := by simp [tryMatch,hc,rbrace]
        change Along [] ts (tryMatch r .tokRbrace).2
        rw [hm]
        exact ahead_along (nextToken_lexed r) hahead.2

/-- A statement that succeeds is read up to its end, or up to a token of its expression. -/
theorem stmt_along (g : Stmt) {p : Parser} {s : EvalState} {y : Config} {t : Token}
    {ts : List Token} (hp : Lexed p) (ht : inExpression t.type = false)
    (h : Ahead p (g.tokens++t::ts)) (hr : statementBody env f (p,s) = .ok (true,y)) :
    ∃ us, Words us ∧ Along us (t::ts) y.1 := by
  have hwords : Words [] := ⟨by simp,by simp⟩
  obtain ⟨-,hs⟩ := statementBody_true hr
  have hcount : ¬s.loopCount > 10000 := by omega
  have hstmt : p.current.type ≠ .tokWhen → evalStatement env (p,s) = .ok (true,y) := fun hne =>
    evalStatement_of_body hp ((statementBody_congr_of_ne hne).trans hr)
  cases g with
  | set key e =>
      obtain ⟨hc,hahead⟩ := h
      simp only [statementBody,hcount,if_false,hc,keyword] at hr
      exact ⟨e.1,e.2.2,evalSet_along ht hahead hr⟩
  | letTo key e =>
      obtain ⟨hc,hahead⟩ := h
      simp only [statementBody,hcount,if_false,hc,keyword] at hr
      exact ⟨e.1,e.2.2,evalSet_along ht hahead hr⟩
  | reject msg =>
      obtain ⟨hc,hwith,hmsg,hahead⟩ := h
      simp only [statementBody,hcount,if_false,hc,keyword,evalReject,expect,hwith,expectText,hmsg,
        stringToken,if_true] at hr
      obtain rfl : (_,_) = y := congrArg Prod.snd (ok.inj hr)
      exact ⟨[],hwords,ahead_along (nextToken_lexed _) hahead⟩
  | accept =>
      obtain ⟨hc,hahead⟩ := h
      simp only [statementBody,hcount,if_false,hc,keyword] at hr
      obtain rfl : (_,_) = y := congrArg Prod.snd (ok.inj hr)
      exact ⟨[],hwords,ahead_along (nextToken_lexed _) hahead⟩
  | showIf withWhen e =>
      simp only [Stmt.tokens,List.cons_append,List.append_assoc] at h
      obtain ⟨hc,hahead⟩ := h
      simp only [statementBody,hcount,if_false,hc,keyword] at hr
      exact ⟨e.1,e.2.2,evalShow_along (nextToken_lexed p) ht hahead hr⟩
  | style widget child props =>
      have hne : p.current.type ≠ .tokWhen := by
        rw [h.1]
        decide
      exact ⟨[],hwords,style_inside hs h ((statementBody_congr_of_ne hne).trans hr)⟩
  | animate target name =>
      have hne : p.current.type ≠ .tokWhen := by
        rw [h.1]
        decide
      obtain ⟨q,hq⟩ : ∃ q, evalStatement env (p,s) = .ok (false,q,_) := evalStatement_animate hp hs h
      rw [hstmt hne] at hq
      simp at hq
  | control kind target =>
      have hne : p.current.type ≠ .tokWhen := by
        rw [h.1]
        cases kind <;> decide
      obtain ⟨q,hq⟩ : ∃ q, evalStatement env (p,s) = .ok (false,q,_) := evalStatement_control hp hs h
      rw [hstmt hne] at hq
      simp at hq

theorem evalExpression_start {p q : Parser} {v : Bytes} (hp : Lexed p)
    (h : evalExpression env p = .ok (some v,q)) :
    isLiteral p.current.type = true ∨ p.current.type = .tokNot := by
  unfold evalExpression at h
  obtain ⟨⟨left,r⟩,hr,h⟩ := bind_eq_ok.mp h
  cases left with
  | none => simp at h
  | some left => exact evalComparison_start hp hr

/-- A loop records its items and returns at its body, or behind an `end` there. -/
theorem statementBody_for {var arr : Bytes} {p : Parser} {s : EvalState} {ts : List Token}
    (hs : s.loopCount ≤ 10000) (h : Ahead p (forTokens var arr++ts)) :
    statementBody env f (p,s) = env.lookup arr >>= fun stored =>
      .ok (true,(tryMatch (advance 6 p) .tokEnd).2,s.recordItems var (storedItems stored)) := by
  have hcount : ¬s.loopCount > 10000 := by omega
  obtain ⟨hfor,heach,hvar,hin,harr,hdo,-⟩ := h
  have hm : tryMatch (nextToken p) .tokEach = (true,nextToken (nextToken p)) := by
    simp [tryMatch,heach,keyword]
  simp only [statementBody,hcount,if_false,hfor,keyword,evalFor,hm,expectText,hvar,identToken,
    if_true,expect,hin,harr,hdo]
  rfl

theorem ahead_drop {us ts : List Token} {p : Parser} (h : Ahead p (us++ts)) :
    Ahead (advance us.length p) ts := by
  induction us generalizing p with
  | nil => exact h
  | cons u us ih => exact ih h.2

theorem advance_lexed {n : ℕ} {p : Parser} (hp : Lexed p) : Lexed (advance n p) := by
  cases n with
  | zero => exact hp
  | succ n =>
      rw [advance,Function.iterate_succ_apply']
      exact nextToken_lexed _

theorem not_word_of_start {t : TokenType} (h : startsBody t = true) : inExpression t = false := by
  revert h
  cases t <;> decide

theorem statementBody_inside (hf : Closes rest f) {p : Parser} {s : EvalState} {y : Config} {d : ℕ}
    (h : Inside rest (d+1) p) (hr : statementBody env f (p,s) = .ok (true,y))
    (hfail : failures y.2 = failures s) : Inside rest (d+1) y.1 := by
  obtain ⟨hstart,hs⟩ := statementBody_true hr
  obtain ⟨ts,e,hle,hn,hahead⟩ := h.nested (not_word_of_start hstart)
  have hcount : ¬s.loopCount > 10000 := by omega
  refine Inside.mono (d := e) ?_ hle
  cases hn with
  | behind => omega
  | close _ =>
      rw [hahead.1] at hstart
      cases hstart
  | pass ht _ =>
      rw [hahead.1] at hstart
      rcases ht with ht | ht | ht <;> (rw [ht] at hstart; cases hstart)
  | stmt g hn =>
      obtain ⟨t,us,rfl,ht,-⟩ := hn.head (by omega)
      obtain ⟨vs,hvs,halong⟩ := stmt_along g h.1 ht hahead hr
      exact halong.inside hvs hn
  | keymap scope _ =>
      have hne : p.current.type ≠ .tokWhen := by
        rw [hahead.1]
        decide
      obtain ⟨q,hq⟩ : ∃ q, evalStatement env (p,s) = .ok (false,q,_) :=
        evalStatement_keymap h.1 hs hahead
      rw [evalStatement_of_body h.1 ((statementBody_congr_of_ne hne).trans hr)] at hq
      simp at hq
  | binding x _ =>
      obtain ⟨hwhen,hkey,-⟩ := hahead
      simp only [statementBody,hcount,if_false,hwhen,keyword] at hr
      obtain ⟨v,q,hv,-⟩ := expectValue_true hr
      have hliteral := evalExpression_start (nextToken_lexed p) hv
      rw [hkey] at hliteral
      rcases hliteral with hl | hl <;> cases hl
  | whenever e hn =>
      obtain ⟨hwhen,hahead⟩ := hahead
      simp only [statementBody,hcount,if_false,hwhen,keyword] at hr
      exact evalWhen_inside hf (nextToken_lexed p) hahead hn hr hfail
  | forEach var arr hn =>
      rw [statementBody_for hs hahead] at hr
      obtain ⟨stored,-,hr⟩ := bind_eq_ok.mp hr
      obtain rfl : (_,_) = y := congrArg Prod.snd (ok.inj hr)
      have hts := ahead_drop hahead
      have hin : Inside rest (e+1) (advance 6 p) := inside_nested (advance_lexed h.1) hts hn
      dsimp only
      exact hin.close

/-- Failures are only added, and without one as much stays open as before. -/
theorem statementStep_closes (hf : Closes rest f) : Closes rest (statementStep env f) := by
  rintro ⟨p,s⟩ b y h
  obtain ⟨⟨b',z⟩,hz,h⟩ := bind_eq_ok.mp h
  have hgrows : failures s ≤ failures z.2 :=
    statementBody_keeps (failures_stable (failures s)) (fun x hx w hw =>
      hx.trans (hf x w.1 w.2 hw).grows) (p,s) le_rfl _ hz
  cases b' with
  | true =>
      obtain ⟨rfl,rfl⟩ : true = b ∧ z = y := by simpa using h
      exact ⟨hgrows,by simp,fun d hd _ hfail => statementBody_inside hf hd hz hfail⟩
  | false =>
      obtain ⟨rfl,rfl⟩ : false = b ∧ (z.1,z.2.noteFailure) = y := by simpa using h
      have hlt : failures s < failures z.2.noteFailure := by
        simpa [failures,EvalState.noteFailure] using Nat.lt_succ_of_le hgrows
      exact ⟨hlt.le,fun _ => hlt,by simp⟩

theorem evalStatement_closes (rest : List Token) (env : Env) : Closes rest (evalStatement env) := by
  have key := @descend_induct Config (Bool × Config) (fun x => remaining x.1) (statementStep env)
    (fun x r => ∀ b y, r = .ok (b,y) → Closed rest x b y)
  exact key (fun _ _ _ hy => by simp at hy) fun g hg x b y => statementStep_closes hg x b y

end

end Filly.Fil

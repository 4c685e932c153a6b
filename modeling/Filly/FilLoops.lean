import Filly.FilNesting
import Mathlib.Logic.Relation

/-!
# Loops

A loop `for each x in arr do … end` should run its body once for each item of a
stored array. The evaluator records the items one after another and returns at the
body, which the surrounding statements then go through once, up to an `end` that is
no statement. So a loop is what it should be when it has no body, and no other loop
is ever left.
-/
namespace Filly.Fil
open CJson Descent Outcome

/-! ## What a loop should do -/

/-- With a variable bound to an item. -/
def Env.bind (env : Env) (var item : Bytes) : Env :=
  { env with storeGet := env.storeGet.map fun get key => if key = var then some item else get key }

/-- The body between two parsers runs once for each item, with the variable bound to it. -/
inductive Iterated (env : Env) (var : Bytes) (start stop : Parser) :
    List Bytes → EvalState → EvalState → Prop
  | nil {s : EvalState} : Iterated env var start stop [] s s
  | cons {item : Bytes} {items : List Bytes} {s s' s'' : EvalState} :
      evalStatements (evalStatement (env.bind var item)) endsBlock
        (start,s.countLoop.recordSet var item) = .ok (true,stop,s') →
      Iterated env var start stop items s' s'' → Iterated env var start stop (item::items) s s''

/-- One statement of the surrounding sequence. -/
def Turn (env : Env) (x y : Config) : Prop := evalStatement env x = .ok (true,y)

/-- From the loop the evaluation comes to what stands behind its `end`; no statement has
failed, and the state is that of as many runs of the body as there are items. -/
def LoopRuns (env : Env) (p : Parser) (s : EvalState) (var : Bytes) (items : List Bytes)
    (body : Body) : Prop :=
  ∃ s', Iterated env var (advance 6 p) (advance (6+body.tokens.length) p) items s s' ∧
    failures s' = failures s ∧
    Relation.ReflTransGen (Turn env) (p,s) (advance (6+body.tokens.length+1) p,s')

section
variable {env : Env}

/-! ## Runs -/

theorem turns_closed (rest : List Token) {x y : Config} (h : Relation.ReflTransGen (Turn env) x y) :
    Closed rest x true y := by
  induction h with
  | refl => exact .refl x
  | tail _ hturn ih => exact ih.trans (evalStatement_closes rest env _ _ _ hturn)

theorem turns_forward {x y : Config} (hx : Lexed x.1)
    (h : Relation.ReflTransGen (Turn env) x y) :
    Lexed y.1 ∧ (x = y ∨ remaining y.1 < remaining x.1) := by
  induction h with
  | refl => exact ⟨hx,.inl rfl⟩
  | tail _ hturn ih =>
      obtain ⟨hlex,-,hlt⟩ := (evalStatement_ends env ih.1).of_eq hturn
      refine ⟨hlex,.inr ?_⟩
      rcases ih.2 with rfl | hle
      · exact hlt rfl
      · exact (hlt rfl).trans hle

theorem exists_ahead_eof {p : Parser} (hp : Lexed p) :
    ∃ ts t, Ahead p (ts++[t]) ∧ t.type = .tokEof ∧ ∀ u ∈ ts, u.type ≠ .tokEof := by
  obtain ⟨n,hn⟩ : ∃ n, remaining p < n := ⟨_,Nat.lt_succ_self _⟩
  induction n generalizing p with
  | zero => omega
  | succ n ih =>
      by_cases hc : p.current.type = .tokEof
      · exact ⟨[],p.current,⟨rfl,trivial⟩,hc,by simp⟩
      · have hlt := remaining_nextToken_lt hp hc
        obtain ⟨ts,t,hahead,ht,hts⟩ := ih (nextToken_lexed p) (by omega)
        exact ⟨p.current::ts,t,⟨rfl,hahead⟩,ht,List.forall_mem_cons.mpr ⟨hc,hts⟩⟩

theorem ahead_append {us ts : List Token} {p : Parser} (h : Ahead p us)
    (h' : Ahead (advance us.length p) ts) : Ahead p (us++ts) := by
  induction us generalizing p with
  | nil => exact h'
  | cons u us ih => exact ⟨h.1,ih h.2 h'⟩

/-- The tokens up to the end of the text are unique. -/
theorem ahead_eof_unique {us ts : List Token} {u t : Token} {p : Parser} (h : Ahead p (ts++[t]))
    (h' : Ahead p (us++[u])) (ht : t.type = .tokEof) (hts : ∀ v ∈ ts, v.type ≠ .tokEof)
    (hu : u.type = .tokEof) (hus : ∀ v ∈ us, v.type ≠ .tokEof) : ts.length = us.length := by
  induction ts generalizing us p with
  | nil =>
      cases us with
      | nil => rfl
      | cons v us =>
          have hv := hus v (by simp)
          rw [← h'.1,h.1] at hv
          exact absurd ht hv
  | cons v ts ih =>
      cases us with
      | nil =>
          have hv := hts v (by simp)
          rw [← h.1,h'.1] at hv
          exact absurd hu hv
      | cons w us =>
          rw [List.length_cons,List.length_cons,ih h.2 h'.2 (fun w hw => hts w (by simp [hw]))
            (fun v hv => hus v (by simp [hv]))]

/-- Behind the last `end` nothing is open. -/
theorem not_inside_behind {ts : List Token} {t : Token} {d : ℕ} {q : Parser}
    (h : Ahead q (ts++[t])) (ht : t.type = .tokEof) (hts : ∀ v ∈ ts, v.type ≠ .tokEof) :
    ¬Inside (ts++[t]) (d+1) q := by
  rintro ⟨-,us,vs,e,hus,hle,hn,hahead⟩
  obtain ⟨ws,rfl,hws,hlen⟩ := hn.split
  rw [← List.append_assoc,← List.append_assoc] at hahead
  have heq := ahead_eof_unique h hahead ht hts ht fun v hv => by
    rcases List.mem_append.mp hv with hv | hv
    · exact (List.mem_append.mp hv).elim (fun hv => (hus.plain v hv).2) (hws v)
    · exact hts v hv
  rw [List.length_append,List.length_append] at heq
  omega

/-! ## Without a body -/

def EvalState.bindItems (s : EvalState) (var : Bytes) (items : List Bytes) : EvalState :=
  items.foldl (fun s item => s.countLoop.recordSet var item) s

theorem bindItems_loopCount (var : Bytes) (items : List Bytes) (s : EvalState) :
    (s.bindItems var items).loopCount = s.loopCount+items.length := by
  induction items generalizing s with
  | nil => rfl
  | cons item items ih =>
      rw [EvalState.bindItems,List.foldl_cons,List.length_cons]
      have hcount : (s.countLoop.recordSet var item).loopCount = s.loopCount+1 := rfl
      have htail := ih (s.countLoop.recordSet var item)
      rw [hcount] at htail
      rw [EvalState.bindItems] at htail
      omega

/-- Runs of an empty body only bind the variable. -/
theorem iterated_done_iff {var : Bytes} {p : Parser} {items : List Bytes} {s s' : EvalState}
    (hp : p.current.type = .tokEnd) :
    Iterated env var p p items s s' ↔ s' = s.bindItems var items := by
  have hrun : ∀ item s, evalStatements (evalStatement (env.bind var item)) endsBlock (p,s) =
      .ok (true,p,s) := fun item s => loop_stop (by simp [hp,endsBlock])
  constructor
  · intro h
    induction h with
    | nil => rfl
    | cons hbody _ ih =>
        rw [hrun] at hbody
        obtain rfl := congrArg (fun x : Bool × Config => x.2.2) (ok.inj hbody)
        exact ih
  · rintro rfl
    induction items generalizing s with
    | nil => exact .nil
    | cons item items ih => exact .cons (hrun item _) ih

theorem recordItems_strings {var : Bytes} {items : List Bytes} {s : EvalState}
    (h : s.loopCount+items.length ≤ 10000) :
    s.recordItems var (items.map .string) = s.bindItems var items := by
  induction items generalizing s with
  | nil => rfl
  | cons item items ih =>
      rw [List.length_cons] at h
      have hlt : s.loopCount < 10000 := by omega
      have hnext : (s.countLoop.recordSet var item).loopCount+items.length ≤ 10000 := by
        have hcount : (s.countLoop.recordSet var item).loopCount = s.loopCount+1 := rfl
        omega
      simp only [List.map_cons,EvalState.recordItems,hlt,if_true,Json.valuestring]
      exact ih hnext

theorem recordItems_loopCount_le {var : Bytes} {items : List Json} {s : EvalState}
    (h : s.loopCount ≤ 10000) : (s.recordItems var items).loopCount ≤ 10000 := by
  induction items generalizing s with
  | nil => exact h
  | cons item items ih =>
      rw [EvalState.recordItems]
      split_ifs with hlt
      · cases item.valuestring with
        | none => exact ih hlt
        | some v => exact ih (s := s.countLoop.recordSet var v) hlt
      · exact h

theorem bindItems_failures (var : Bytes) (items : List Bytes) (s : EvalState) :
    failures (s.bindItems var items) = failures s := by
  induction items generalizing s with
  | nil => rfl
  | cons item items ih => exact ih (s.countLoop.recordSet var item)

theorem Body.tokens_head {body : Body} (h : body ≠ .done) :
    ∃ t us, body.tokens = t::us ∧ t.type ≠ .tokEnd := by
  cases body with
  | done => exact absurd rfl h
  | stmt g next =>
      obtain ⟨t,us,ht,-⟩ := g.tokens_head
      exact ⟨t,us++next.tokens,by rw [Body.tokens,ht,List.cons_append],
        (g.plain t (by rw [ht]; simp)).1⟩
  | keymap | whenThen | whenElse | forEach => exact ⟨_,_,rfl,by decide⟩

theorem turn_starts {x y : Config} (hx : Lexed x.1) (h : Turn env x y) :
    startsBody x.1.current.type = true ∧ x.2.loopCount ≤ 10000 ∧
      statementBody env (evalStatement env) x = .ok (true,y) := by
  rw [Turn,evalStatement_eq env hx] at h
  obtain ⟨⟨b,w⟩,hw,h⟩ := bind_eq_ok.mp h
  cases b with
  | false => simp at h
  | true =>
      obtain rfl : w = y := by simpa using h
      obtain ⟨hstart,hs⟩ := statementBody_true hw
      exact ⟨hstart,hs,hw⟩

/-- What the statement `for each` itself does. -/
theorem turn_for {var arr text : Bytes} {get : Bytes → Option Bytes} {p : Parser} {s : EvalState}
    {z : Config} {ts : List Token} (hp : Lexed p) (h : Ahead p (forTokens var arr++ts))
    (hstore : env.storeGet = some get) (htext : get arr = some text) :
    Turn env (p,s) z ↔ s.loopCount ≤ 10000 ∧
      z = ((tryMatch (advance 6 p) .tokEnd).2,s.recordItems var (storedItems (some text))) := by
  have hlookup : env.lookup arr = .ok (some text) := by rw [Env.lookup,hstore,← htext]
  constructor
  · intro hturn
    rw [Turn,evalStatement_eq env hp] at hturn
    obtain ⟨⟨b,w⟩,hw,hturn⟩ := bind_eq_ok.mp hturn
    cases b with
    | false => simp at hturn
    | true =>
        obtain rfl : w = z := by simpa using hturn
        obtain ⟨-,hs⟩ := statementBody_true hw
        rw [statementBody_for hs h,hlookup] at hw
        exact ⟨hs,(congrArg Prod.snd (ok.inj hw)).symm⟩
  · rintro ⟨hs,rfl⟩
    refine evalStatement_of_body hp ?_
    rw [statementBody_for hs h,hlookup]
    rfl

theorem advance_succ (n : ℕ) (p : Parser) : advance (n+1) p = nextToken (advance n p) :=
  Function.iterate_succ_apply' nextToken n p

theorem remaining_advance_le {n : ℕ} {p : Parser} (hp : Lexed p) :
    remaining (advance n p) ≤ remaining p := by
  induction n with
  | zero => exact le_rfl
  | succ n ih =>
      rw [advance_succ]
      exact (remaining_nextToken_le (advance_lexed hp)).trans ih

theorem advance_ne {n : ℕ} {p : Parser} (hp : Lexed p) (hc : p.current.type ≠ .tokEof) :
    advance (n+1) p ≠ p := by
  intro he
  have hlt := remaining_nextToken_lt hp hc
  have hle := remaining_advance_le (n := n) (nextToken_lexed p)
  have hstep : advance (n+1) p = advance n (nextToken p) := rfl
  rw [← hstep,he] at hle
  omega

/-- A loop with a body is never left behind its `end`. -/
theorem not_loopRuns_of_body {var arr text : Bytes} {get : Bytes → Option Bytes} {p : Parser}
    {s : EvalState} {items : List Bytes} {body : Body} (hp : Lexed p)
    (h : Ahead p (forTokens var arr++(body.tokens++[keyword .tokEnd])))
    (hstore : env.storeGet = some get) (htext : get arr = some text) (hbody : body ≠ .done) :
    ¬LoopRuns env p s var items body := by
  rintro ⟨s',-,hfail,hrun⟩
  obtain ⟨rest,t,hrest,ht,hnone⟩ := exists_ahead_eof (p := advance (6+body.tokens.length+1) p)
    (advance_lexed hp)
  have hfull : Ahead p (forTokens var arr++(body.tokens++keyword .tokEnd::(rest++[t]))) := by
    have hlen : (forTokens var arr++(body.tokens++[keyword .tokEnd])).length =
        6+body.tokens.length+1 := by
      simp [forTokens]
      omega
    rw [← hlen] at hrest
    simpa using ahead_append h hrest
  have hbody' : Ahead (advance 6 p) (body.tokens++keyword .tokEnd::(rest++[t])) := ahead_drop hfull
  obtain heq | ⟨z,hz,hrun⟩ := Relation.ReflTransGen.cases_head hrun
  · refine advance_ne hp ?_ (congrArg Prod.fst heq).symm
    rw [h.1]
    decide
  · have hfirst := evalStatement_closes (rest++[t]) env _ _ _ hz
    have hclosed := turns_closed (rest++[t]) hrun
    obtain ⟨hs,rfl⟩ := (turn_for hp h hstore htext).mp hz
    have hstart : tryMatch (advance 6 p) .tokEnd = (false,advance 6 p) := by
      obtain ⟨u,us,hu,hne⟩ := body.tokens_head hbody
      rw [hu] at hbody'
      rw [← hbody'.1] at hne
      rw [tryMatch,if_neg hne]
    rw [hstart] at hfirst hclosed
    have hin : Inside (rest++[t]) 1 (advance 6 p) :=
      inside_nested (advance_lexed hp) hbody' (body.nested (.close .behind))
    have hgrows := hfirst.grows
    have hgrows' := hclosed.grows
    exact not_inside_behind hrest ht hnone (hclosed.inside 0 hin rfl (by dsimp only at *; omega))

/-- A loop runs its body for each item just when there is no body, the stored text begins with
a bracket unless there are no items, and the cap allows for the items. -/
theorem loopRuns_iff (env : Env) {var arr text : Bytes} {get : Bytes → Option Bytes} {p : Parser}
    (s : EvalState) {items : List Bytes} {body : Body} (hp : Lexed p)
    (h : Ahead p (forTokens var arr++(body.tokens++[keyword .tokEnd])))
    (hstore : env.storeGet = some get) (htext : get arr = some text)
    (hjson : cJSONParse text = some (.array (items.map .string))) :
    LoopRuns env p s var items body ↔
      body = .done ∧ (items = [] ∨ text.head? = some 91) ∧ s.loopCount+items.length ≤ 10000 := by
  by_cases hbody : body = .done
  · subst hbody
    have hend : (advance 6 p).current = keyword .tokEnd := (ahead_drop h).1
    have hnext : (tryMatch (advance 6 p) .tokEnd).2 = advance 7 p := by
      rw [tryMatch,if_pos (by rw [hend]; rfl)]
      exact (advance_succ 6 p).symm
    have hitems : storedItems (some text) = if text.head? = some 91 then items.map .string else [] := by
      simp only [storedItems,hjson]
    have hdone : ∀ s', Iterated env var (advance 6 p) (advance 6 p) items s s' ↔
        s' = s.bindItems var items := fun s' => iterated_done_iff (by rw [hend]; rfl)
    have hturn : ∀ z, Turn env (p,s) z ↔ s.loopCount ≤ 10000 ∧
        z = (advance 7 p,s.recordItems var (storedItems (some text))) := by
      intro z
      rw [turn_for hp h hstore htext,hnext]
    constructor
    · rintro ⟨s',hiter,-,hrun⟩
      obtain heq | ⟨z,hz,hrun⟩ := Relation.ReflTransGen.cases_head hrun
      · exact absurd (congrArg Prod.fst heq).symm (advance_ne hp (by rw [h.1]; decide))
      obtain ⟨hs,rfl⟩ := (hturn z).mp hz
      have hlex : Lexed (advance 7 p) := advance_lexed hp
      obtain heq | hlt := (turns_forward hlex hrun).2
      · have hstate : s.recordItems var (storedItems (some text)) = s.bindItems var items :=
          (congrArg Prod.snd heq).trans ((hdone s').mp hiter)
        have hcount := bindItems_loopCount var items s
        rw [← hstate] at hcount
        refine ⟨rfl,?_,by rw [← hcount]; exact recordItems_loopCount_le hs⟩
        by_cases hhead : text.head? = some 91
        · exact .inr hhead
        · rw [hitems,if_neg hhead] at hcount
          exact .inl (List.length_eq_zero_iff.mp (Nat.left_eq_add.mp hcount))
      · exact absurd hlt (lt_irrefl _)
    · rintro ⟨-,hhead,hcap⟩
      have hstored : storedItems (some text) = items.map .string := by
        rw [hitems]
        rcases hhead with rfl | hhead
        · simp
        · rw [if_pos hhead]
      refine ⟨_,(hdone _).mpr rfl,bindItems_failures var items s,.single ((hturn _).mpr ⟨by omega,?_⟩)⟩
      rw [hstored,recordItems_strings hcap]
      rfl
  · exact iff_of_false (not_loopRuns_of_body hp h hstore htext hbody) fun hc => hbody hc.1

end

/-! ## A loop over one item -/

def arrayText : Bytes := bytes "[\"a\"]"

/-- A store with one array. -/
def arrayStore (key : Bytes) : Option Bytes := if key = bytes "arr" then some arrayText else none

def arrayEnv : Env := { emptyStore with storeGet := some arrayStore }

def emptyLoop : Parser := firstToken (bytes "for each x in arr do end show x")

theorem emptyLoop_runs : LoopRuns arrayEnv emptyLoop {} (bytes "x") [bytes "a"] .done := by
  have hahead : Ahead emptyLoop (forTokens (bytes "x") (bytes "arr")++
      (Body.done.tokens++[keyword .tokEnd])) := by decide +kernel
  have htext : arrayStore (bytes "arr") = some arrayText := by decide +kernel
  have hjson : cJSONParse arrayText = some (.array ([bytes "a"].map .string)) := by rfl
  exact (loopRuns_iff arrayEnv {} (nextToken_lexed _) hahead rfl htext hjson).mpr
    ⟨rfl,.inr (by decide +kernel),by decide⟩

/-- `set a to x`. -/
def setBody : Body :=
  .stmt (.set (bytes "a") ⟨[identToken (bytes "x")],by simp,
    ⟨by simp [inExpression,isLiteral,identToken],by simp [isOperator,identToken]⟩⟩) .done

def setLoop : Parser := firstToken (bytes "for each x in arr do set a to x end show x")

/-- With a body the evaluation stops at the `end`, and the body has not seen the item. -/
theorem setLoop_stops :
    Ahead setLoop (forTokens (bytes "x") (bytes "arr")++(setBody.tokens++[keyword .tokEnd])) ∧
      ¬LoopRuns arrayEnv setLoop {} (bytes "x") [bytes "a"] setBody := by
  refine ⟨by decide +kernel,?_⟩
  rintro ⟨s',-,-,hrun⟩
  have hfirst : evalStatement arrayEnv (setLoop,{}) =
      .ok (true,advance 6 setLoop,{ sets := [(bytes "x",bytes "a")], loopCount := 1 }) := by
    decide +kernel
  have hset : evalStatement arrayEnv
      (advance 6 setLoop,{ sets := [(bytes "x",bytes "a")], loopCount := 1 }) =
      .ok (true,advance 10 setLoop,
        { sets := [(bytes "x",bytes "a"),(bytes "a",[])], loopCount := 1 }) := by
    decide +kernel
  have hend : ∀ z, ¬Turn arrayEnv (advance 10 setLoop,
      { sets := [(bytes "x",bytes "a"),(bytes "a",[])], loopCount := 1 }) z := by
    intro z hz
    exact absurd (turn_starts (advance_lexed (nextToken_lexed _)) hz).1 (by decide +kernel)
  have hbehind : ∀ n ∈ [0,6,10], advance n setLoop ≠
      advance (6+setBody.tokens.length+1) setLoop := by decide +kernel
  obtain heq | ⟨z,hz,hrun⟩ := Relation.ReflTransGen.cases_head hrun
  · exact hbehind 0 (by decide) (congrArg Prod.fst heq)
  obtain rfl := congrArg Prod.snd (ok.inj (hfirst.symm.trans hz))
  obtain heq | ⟨z,hz,hrun⟩ := Relation.ReflTransGen.cases_head hrun
  · exact hbehind 6 (by decide) (congrArg Prod.fst heq)
  obtain rfl := congrArg Prod.snd (ok.inj (hset.symm.trans hz))
  obtain heq | ⟨z,hz,-⟩ := Relation.ReflTransGen.cases_head hrun
  · exact hbehind 10 (by decide) (congrArg Prod.fst heq)
  · exact hend z hz

end Filly.Fil

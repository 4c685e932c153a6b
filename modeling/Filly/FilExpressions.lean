import Filly.FilProgress

/-!
# Chains of comparisons

`eval_expression` is meant to fold a chain `c₁ op₁ c₂ … cₙ` from the left. Its
loop matches an operator, which already moves on to the operand, then tests the
operand for being `or` and passes over its first token. So the operator is lost
and so is the first token of every later operand. Such an operand is still
accepted at its place only when that token was a `not`.
-/
namespace Filly.Fil
open CJson Descent Outcome

/-! ## Where a value can start -/

/-- The tokens that are values by themselves. -/
def isLiteral (t : TokenType) : Bool :=
  t = .tokEmpty || t = .tokIdent || t = .tokString || t = .tokNumber

theorem Scans.text_cases {s w : Bytes} {t : Token} {n : ℕ} (h : Scans s t n)
    (ht : t.text = some w) : t.type = .tokIdent ∨ t.type = .tokString ∨ (w,t.type) ∈ keywords := by
  cases h with
  | word w' s _ _ _ =>
      obtain rfl : w' = w := by simpa using ht
      by_cases hi : wordType w' = .tokIdent
      · exact .inl hi
      · exact .inr (.inr (wordType_mem rfl hi))
  | closed => simp
  | unclosed => simp
  | _ => simp at ht

theorem keywords_alpha : ∀ k ∈ keywords, k.1.head?.any isAlpha = true := by decide

theorem of_text {w : Bytes} (h : (w,TokenType.tokOf) ∈ keywords) : w = bytes "of" := by
  have hk : ∀ k ∈ keywords, k.2 = .tokOf → k.1 = bytes "of" := by decide
  exact hk _ h rfl

/-- The named functions are unreachable: a call is always read as one of the
function `of`. -/
theorem evalFunction_of {env : Env} {prim : Parser → Read} {p q : Parser} {v : Bytes}
    (hp : Lexed p) (ht : p.current.type = .tokOf) :
    evalFunction env prim p ≠ .ok (some v,q) := by
  intro h
  unfold evalFunction at h
  cases htext : p.current.text with
  | none => simp [htext] at h
  | some w =>
      have hw : w = bytes "of" := by
        rcases hp.scans.text_cases htext with hi | hs | hk
        · simp [ht] at hi
        · simp [ht] at hs
        · exact of_text (ht ▸ hk)
      subst hw
      rw [htext] at h
      dsimp only at h
      generalize tryMatch (nextToken p) .tokOf = m at h
      obtain ⟨b,q1⟩ := m
      cases b with
      | false => simp at h
      | true =>
          obtain ⟨⟨arg,q2⟩,-,h⟩ := bind_eq_ok.mp h
          cases arg with
          | none => simp at h
          | some arg => exact absurd h (by simp [bytes])

/-- A keyword other than `empty` and `not` starts no value. -/
theorem primaryStep_keyword {env : Env} {prim : Parser → Read} {p q : Parser} {v : Bytes}
    (hp : Lexed p) (hi : p.current.type ≠ .tokIdent) (hs : p.current.type ≠ .tokString) :
    (if (p.current.text.bind List.head?).any isAlpha then
        let p := nextToken p
        if p.current.type = .tokOf then evalFunction env prim p else .ok (none,p)
      else evalFunction env prim p) ≠ .ok (some v,q) := by
  split
  · dsimp only
    split
    · exact evalFunction_of (nextToken_lexed p) (by assumption)
    · simp
  · rename_i ha
    cases ht : p.current.text with
    | none => simp [evalFunction,ht]
    | some w =>
        rcases hp.scans.text_cases ht with h | h | h
        · exact absurd h hi
        · exact absurd h hs
        · exact absurd (by simpa [ht] using keywords_alpha _ h) ha

theorem evalPrimary_some {env : Env} {p q : Parser} {v : Bytes} (hp : Lexed p)
    (h : evalPrimary env p = .ok (some v,q)) :
    isLiteral p.current.type = true ∧ q = nextToken p ∨
      p.current.type = .tokNot ∧
        ∃ w, evalPrimary env (nextToken p) = .ok (some w,q) ∧ v = truth (w = []) := by
  rw [evalPrimary_eq env hp] at h
  unfold primaryStep at h
  cases ht : p.current.type with
  | tokEmpty =>
      simp only [ht,ok.injEq,Prod.mk.injEq] at h
      exact .inl ⟨rfl,h.2.symm⟩
  | tokNot =>
      simp only [ht] at h
      obtain ⟨⟨w,r⟩,hw,h⟩ := bind_eq_ok.mp h
      simp only [ok.injEq,Prod.mk.injEq] at h
      obtain ⟨w,rfl,hv⟩ := Option.map_eq_some_iff.mp h.1
      exact .inr ⟨rfl,w,h.2 ▸ hw,hv.symm⟩
  | tokIdent =>
      simp only [ht] at h
      cases hw : p.current.text with
      | none => simp [hw] at h
      | some key =>
          simp only [hw] at h
          split at h
          · simp only [ok.injEq,Prod.mk.injEq] at h
            exact .inl ⟨rfl,h.2.symm⟩
          · obtain ⟨val,-,h⟩ := bind_eq_ok.mp h
            simp only [ok.injEq,Prod.mk.injEq] at h
            exact .inl ⟨rfl,h.2.symm⟩
  | tokString =>
      simp only [ht] at h
      cases hw : p.current.text with
      | none => simp [hw] at h
      | some text =>
          simp only [hw,ok.injEq,Prod.mk.injEq] at h
          exact .inl ⟨rfl,h.2.symm⟩
  | tokNumber =>
      simp only [ht,ok.injEq,Prod.mk.injEq] at h
      exact .inl ⟨rfl,h.2.symm⟩
  | _ =>
      simp only [ht] at h
      exact absurd h (primaryStep_keyword hp (by simp [ht]) (by simp [ht]))

/-! ## The end of a comparison does not depend on the left value -/

theorem matchPattern_stops {env : Env} {pattern subject v : Bytes} {p q : Parser}
    (h : matchPattern env pattern subject p = .ok (some v,q)) : q = p := by
  unfold matchPattern at h
  obtain ⟨pat,-,h⟩ := bind_eq_ok.mp h
  cases hr : env.regcomp pat with
  | none => simp [hr] at h
  | some matcher =>
      simp only [hr] at h
      obtain ⟨sub,-,h⟩ := bind_eq_ok.mp h
      simp only [ok.injEq,Prod.mk.injEq] at h
      exact h.2.symm

/-- The parser behind the right operand of an order comparison. -/
theorem evalOrder_stops {env : Env} {holds : ℤ → ℤ → Bool} {negate : Bool} {left v : Bytes}
    {p q : Parser} (h : evalOrder env holds negate left p = .ok (some v,q)) :
    ∃ right, evalPrimary env (tryMatch p .tokThan).2 = .ok (some right,q) := by
  unfold evalOrder at h
  obtain ⟨⟨right,r⟩,hr,h⟩ := bind_eq_ok.mp h
  cases right with
  | none => simp at h
  | some right =>
      obtain ⟨_,-,h⟩ := bind_eq_ok.mp h
      obtain ⟨_,-,h⟩ := bind_eq_ok.mp h
      simp only [ok.injEq,Prod.mk.injEq] at h
      exact ⟨right,h.2 ▸ hr⟩

theorem evalOrder_stops_eq {env : Env} {holds holds' : ℤ → ℤ → Bool} {negate negate' : Bool}
    {left left' v v' : Bytes} {p q q' : Parser}
    (h : evalOrder env holds negate left p = .ok (some v,q))
    (h' : evalOrder env holds' negate' left' p = .ok (some v',q')) : q = q' := by
  obtain ⟨right,hr⟩ := evalOrder_stops h
  obtain ⟨right',hr'⟩ := evalOrder_stops h'
  rw [hr] at hr'
  simp only [ok.injEq,Prod.mk.injEq] at hr'
  exact hr'.2

theorem comparisonRest_stops {env : Env} {l l' v v' : Bytes} {p q q' : Parser}
    (h : comparisonRest env l p = .ok (some v,q))
    (h' : comparisonRest env l' p = .ok (some v',q')) : q = q' := by
  unfold comparisonRest at h h'
  split at h
  · rename_i his
    rw [if_pos his] at h'
    generalize tryMatch (nextToken p) .tokNot = m at h h'
    obtain ⟨negate,r⟩ := m
    dsimp only [comparisonIs] at h h'
    split at h
    · rename_i ht
      simp only [ht,ok.injEq,Prod.mk.injEq] at h h'
      exact h.2.symm.trans h'.2
    · rename_i ht
      simp only [ht] at h'
      exact evalOrder_stops_eq h h'
    · rename_i ht
      simp only [ht] at h'
      exact evalOrder_stops_eq h h'
    · obtain ⟨⟨right,r1⟩,hr,h⟩ := bind_eq_ok.mp h
      simp only [hr,ok_bind] at h'
      cases right with
      | none => simp at h
      | some right =>
          obtain ⟨_,-,h⟩ := bind_eq_ok.mp h
          obtain ⟨_,-,h'⟩ := bind_eq_ok.mp h'
          simp only [ok.injEq,Prod.mk.injEq] at h h'
          exact h.2.symm.trans h'.2
  · rename_i his
    rw [if_neg his] at h'
    split at h
    · rename_i hm
      rw [if_pos hm] at h'
      obtain ⟨⟨pattern,r⟩,hr,h⟩ := bind_eq_ok.mp h
      simp only [hr,ok_bind] at h'
      cases pattern with
      | none => simp at h
      | some pattern => exact (matchPattern_stops h).trans (matchPattern_stops h').symm
    · rename_i hm
      simp only [if_neg hm,ok.injEq,Prod.mk.injEq] at h h'
      exact h.2.symm.trans h'.2

/-! ## Chains -/

/-- A later operand of a chain: its operator, the parser where it starts, the
parser behind it and its value. -/
structure Operand where
  operator : TokenType
  start : Parser
  stop : Parser
  value : Bytes

/-- Behind a comparison that ends at `p`, the operands `rest` follow up to `q`:
each of them is accepted by `eval_comparison`, and no operator follows the last. -/
inductive Operands (env : Env) : Parser → List Operand → Parser → Prop where
  | nil (p : Parser) (h : isOperator p.current.type = false) : Operands env p [] p
  | cons (p q r : Parser) (v : Bytes) (rest : List Operand)
      (hop : isOperator p.current.type = true)
      (hv : evalComparison env (nextToken p) = .ok (some v,q)) (h : Operands env q rest r) :
      Operands env p (⟨p.current.type,nextToken p,q,v⟩::rest) r

/-- The truth value of a chain, folded from the left with the written operators. -/
def foldOperands (first : Bool) (rest : List Operand) : Bool :=
  rest.foldl (fun b o => if o.operator = .tokOr then b || o.value ≠ [] else b && o.value ≠ []) first

/-- The operand starts with `not`, and without it has the value `u`. -/
def Stripped (env : Env) (o : Operand) (u : Bytes) : Prop :=
  o.start.current.type = .tokNot ∧
    evalComparison env (nextToken o.start) = .ok (some u,o.stop)

theorem evalComparison_some {env : Env} {p q : Parser} {v : Bytes}
    (h : evalComparison env p = .ok (some v,q)) :
    ∃ l r, evalPrimary env p = .ok (some l,r) ∧ comparisonRest env l r = .ok (some v,q) := by
  unfold evalComparison at h
  obtain ⟨⟨left,r⟩,hr,h⟩ := bind_eq_ok.mp h
  cases left with
  | none => simp at h
  | some l => exact ⟨l,r,hr,h⟩

/-- The first token of a comparison is a literal or `not`. -/
theorem evalComparison_start {env : Env} {p q : Parser} {v : Bytes} (hp : Lexed p)
    (h : evalComparison env p = .ok (some v,q)) :
    isLiteral p.current.type = true ∨ p.current.type = .tokNot := by
  obtain ⟨l,r,hl,-⟩ := evalComparison_some h
  rcases evalPrimary_some hp hl with ⟨ht,-⟩ | ⟨ht,-⟩
  · exact .inl ht
  · exact .inr ht

/-- The loop of `eval_expression`. -/
abbrev operandLoop (env : Env) : Bytes × Parser → Outcome (Bool × Bytes × Parser) :=
  loop (fun x => remaining x.2) (fun x => !isOperator x.2.current.type) (operandTurn env)

theorem operandTurn_eq {env : Env} {left : Bytes} {p : Parser}
    (h : (nextToken p).current.type ≠ .tokOr) :
    operandTurn env (left,p) = evalComparison env (nextToken (nextToken p)) >>= fun r =>
      match r.1 with
      | none => .ok (false,left,r.2)
      | some right => .ok (true,truth (left ≠ [] && right ≠ []),r.2) := by
  unfold operandTurn
  refine bind_congr_ok fun r _ => ?_
  obtain ⟨right,q⟩ := r
  cases right with
  | none => rfl
  | some right => simp [h]

theorem operandLoop_cons {env : Env} {left u : Bytes} {p q : Parser} (hp : Lexed p)
    (hop : isOperator p.current.type = true) (ht : (nextToken p).current.type ≠ .tokOr)
    (hu : evalComparison env (nextToken (nextToken p)) = .ok (some u,q)) :
    operandLoop env (left,p) = operandLoop env (truth (left ≠ [] && u ≠ []),q) := by
  rw [operandLoop,operandLoop_eq env (left,p) hp]
  simp [turn,hop,operandTurn_eq ht,hu]

theorem truth_ne_nil (b : Bool) : decide (truth b ≠ []) = b := by
  cases b <;> rfl

/-- When all later operands start with `not`, the loop goes through. -/
theorem operandLoop_of_stripped {env : Env} (left : Bytes) {p q : Parser} {rest : List Operand}
    {us : List Bytes} (hp : Lexed p) (h : Operands env p rest q)
    (hs : List.Forall₂ (Stripped env) rest us) :
    ∃ left', operandLoop env (left,p) = .ok (true,left',q) ∧
      decide (left' ≠ []) = (decide (left ≠ []) && us.all (· ≠ [])) := by
  induction h generalizing left us with
  | nil p hop =>
      cases hs
      refine ⟨left,?_,by simp⟩
      exact loop_stop (by simp [hop])
  | cons p q r v rest hop hv h ih =>
      cases hs with
      | cons hstrip hs =>
          rename_i u us
          have hq : Lexed q := ((evalComparison_ends env (nextToken_lexed _)).of_eq hv).lexed
          obtain ⟨hnot,hu⟩ := hstrip
          have hor : (nextToken p).current.type ≠ .tokOr := by
            intro ho
            exact absurd (hnot.symm.trans ho) (by decide)
          rw [operandLoop_cons hp hop hor hu]
          obtain ⟨left',hl,ht⟩ := ih (truth (left ≠ [] && u ≠ [])) hq hs
          refine ⟨left',hl,?_⟩
          rw [ht,truth_ne_nil]
          simp [Bool.and_assoc]

/-- The loop goes through only when all later operands start with `not`. -/
theorem stripped_of_operandLoop {env : Env} {left left' : Bytes} {p q : Parser}
    {rest : List Operand} (hp : Lexed p) (h : Operands env p rest q)
    (hl : operandLoop env (left,p) = .ok (true,left',q)) :
    ∃ us, List.Forall₂ (Stripped env) rest us := by
  induction h generalizing left with
  | nil p hop => exact ⟨[],.nil⟩
  | cons p q r v rest hop hv h ih =>
      have hstart : Lexed (nextToken p) := nextToken_lexed p
      have hq : Lexed q := ((evalComparison_ends env hstart).of_eq hv).lexed
      have hor : (nextToken p).current.type ≠ .tokOr := by
        intro ho
        rcases evalComparison_start hstart hv with ht | ht
        · simp [ho,isLiteral] at ht
        · simp [ho] at ht
      -- The loop has read a comparison behind the first token of the operand.
      obtain ⟨u,s,hu⟩ : ∃ u s, evalComparison env (nextToken (nextToken p)) = .ok (some u,s) := by
        rw [operandLoop,operandLoop_eq env (left,p) hp] at hl
        simp only [turn,hop,operandTurn_eq hor] at hl
        obtain ⟨r1,hr1,hl⟩ := bind_eq_ok.mp hl
        obtain ⟨⟨u,s⟩,hu,hr1⟩ := bind_eq_ok.mp hr1
        cases u with
        | none =>
            obtain rfl : (false,left,s) = r1 := by simpa using hr1
            simp at hl
        | some u => exact ⟨u,s,hu⟩
      rw [operandLoop_cons hp hop hor hu] at hl
      have hs := ((evalComparison_ends env (nextToken_lexed _)).of_eq hu)
      obtain ⟨l,r1,hl1,hrest⟩ := evalComparison_some hv
      rcases evalPrimary_some hstart hl1 with ⟨hlit,rfl⟩ | ⟨hnot,w,hw,-⟩
      · -- A literal operand: what follows it would have to start a comparison.
        exfalso
        have hnext := evalComparison_start (nextToken_lexed _) hu
        obtain rfl : q = nextToken (nextToken p) := by
          unfold comparisonRest at hrest
          split at hrest
          · rename_i his
            simp [his,isLiteral] at hnext
          · split at hrest
            · rename_i hm
              simp [hm,isLiteral] at hnext
            · simp only [ok.injEq,Prod.mk.injEq] at hrest
              exact hrest.2.symm
        cases h with
        | cons _ _ _ _ _ hop' _ _ =>
            rcases hnext with ht | ht
            · simp only [isLiteral,isOperator,Bool.or_eq_true,decide_eq_true_eq] at ht hop'
              rcases hop' with ho | ho <;> simp [ho] at ht
            · simp [isOperator,ht] at hop'
        | nil _ _ =>
            have hend := (operandLoop_ends env (truth (left ≠ [] && u ≠ []),s) hs.lexed).of_eq hl
            have hlt := hs.lt rfl
            have hle := hend.le
            dsimp only at hlt hle
            omega
      · obtain ⟨l2,r2,hl2,hrest2⟩ := evalComparison_some hu
        rw [hw] at hl2
        obtain ⟨hwl,hrr⟩ : w = l2 ∧ r1 = r2 := by simpa using hl2
        subst hrr
        obtain rfl := comparisonRest_stops hrest hrest2
        obtain ⟨us,hus⟩ := ih hq hl
        exact ⟨u::us,.cons ⟨hnot,hu⟩ hus⟩

theorem evalExpression_some {env : Env} {p q q' : Parser} {v r : Bytes}
    (hv : evalComparison env p = .ok (some v,q)) :
    evalExpression env p = .ok (some r,q') ↔
      ∃ left, operandLoop env (v,q) = .ok (true,left,q') ∧ r = strncpy left := by
  unfold evalExpression
  simp only [hv,ok_bind]
  constructor
  · intro h
    obtain ⟨⟨b,left,q1⟩,hl,h⟩ := bind_eq_ok.mp h
    cases b with
    | false => simp at h
    | true =>
        simp only [if_true,ok.injEq,Prod.mk.injEq,Option.some.injEq] at h
        exact ⟨left,h.2 ▸ hl,h.1.symm⟩
  · rintro ⟨left,hl,rfl⟩
    rw [show loop _ _ _ _ = _ from hl]
    rfl

theorem strncpy_ne_nil (s : Bytes) : strncpy s ≠ [] ↔ s ≠ [] := by
  cases s <;> simp [strncpy]

/-- A chain is read to its end with the value of the written fold exactly when
every later operand starts with `not` and the conjunction of the first
comparison and the later ones without their `not` has the same truth value. -/
theorem evalExpression_folds_iff (env : Env) {p q r : Parser} {v : Bytes} {rest : List Operand}
    (hp : Lexed p) (hv : evalComparison env p = .ok (some v,q)) (hrest : Operands env q rest r) :
    (∃ result, evalExpression env p = .ok (some result,r) ∧
      (result ≠ [] ↔ foldOperands (v ≠ []) rest = true)) ↔
    ∃ us, List.Forall₂ (Stripped env) rest us ∧
      (decide (v ≠ []) && us.all (· ≠ [])) = foldOperands (v ≠ []) rest := by
  have hq : Lexed q := ((evalComparison_ends env hp).of_eq hv).lexed
  constructor
  · rintro ⟨result,hres,hfold⟩
    obtain ⟨left,hl,rfl⟩ := (evalExpression_some hv).mp hres
    obtain ⟨us,hus⟩ := stripped_of_operandLoop hq hrest hl
    obtain ⟨left',hl',ht⟩ := operandLoop_of_stripped v hq hrest hus
    obtain rfl : left = left' := by
      rw [hl] at hl'
      simpa using hl'
    refine ⟨us,hus,?_⟩
    rw [← ht,Bool.eq_iff_iff,decide_eq_true_iff,← strncpy_ne_nil]
    exact hfold
  · rintro ⟨us,hus,hfold⟩
    obtain ⟨left,hl,ht⟩ := operandLoop_of_stripped v hq hrest hus
    refine ⟨strncpy left,(evalExpression_some hv).mpr ⟨left,hl,rfl⟩,?_⟩
    rw [strncpy_ne_nil,← hfold,← ht,decide_eq_true_iff]

/-- The chain of `"x" or not "y"` and of `"x" and not "y"`. -/
theorem operands_not {script : Bytes} {op : TokenType}
    (hop : isOperator op = true) (h1 : (nextToken (firstToken script)).current.type = op)
    (h2 : evalComparison emptyStore (nextToken^[2] (firstToken script)) =
      .ok (some [],nextToken^[4] (firstToken script)))
    (h3 : isOperator (nextToken^[4] (firstToken script)).current.type = false) :
    Operands emptyStore (nextToken (firstToken script))
      [⟨op,nextToken^[2] (firstToken script),nextToken^[4] (firstToken script),[]⟩]
      (nextToken^[4] (firstToken script)) := by
  subst h1
  exact .cons _ _ _ _ _ hop h2 (.nil _ h3)

/-- In `"x" or not "y"` the lost operator and the lost `not` make up for each other. -/
theorem evalExpression_folds_or_not :
    ∃ result, evalExpression emptyStore (firstToken (bytes "\"x\" or not \"y\"")) =
        .ok (some result,nextToken^[4] (firstToken (bytes "\"x\" or not \"y\""))) ∧
      (result ≠ [] ↔ foldOperands (bytes "x" ≠ [])
        [⟨.tokOr,nextToken^[2] (firstToken (bytes "\"x\" or not \"y\"")),
          nextToken^[4] (firstToken (bytes "\"x\" or not \"y\"")),[]⟩] = true) := by
  refine (evalExpression_folds_iff emptyStore (nextToken_lexed _) (by decide +kernel)
    (operands_not rfl (by decide +kernel) (by decide +kernel) (by decide +kernel))).mpr
    ⟨[bytes "y"],.cons ⟨by decide +kernel,by decide +kernel⟩ .nil,by decide +kernel⟩

/-- `"x" and not "y"` comes out true. -/
theorem and_not_reads_as_and :
    evalComparison emptyStore (firstToken (bytes "\"x\" and not \"y\"")) =
        .ok (some (bytes "x"),nextToken (firstToken (bytes "\"x\" and not \"y\""))) ∧
      Operands emptyStore (nextToken (firstToken (bytes "\"x\" and not \"y\"")))
        [⟨.tokAnd,nextToken^[2] (firstToken (bytes "\"x\" and not \"y\"")),
          nextToken^[4] (firstToken (bytes "\"x\" and not \"y\"")),[]⟩]
        (nextToken^[4] (firstToken (bytes "\"x\" and not \"y\""))) ∧
      ¬∃ result, evalExpression emptyStore (firstToken (bytes "\"x\" and not \"y\"")) =
          .ok (some result,nextToken^[4] (firstToken (bytes "\"x\" and not \"y\""))) ∧
        (result ≠ [] ↔ foldOperands (bytes "x" ≠ [])
          [⟨.tokAnd,nextToken^[2] (firstToken (bytes "\"x\" and not \"y\"")),
            nextToken^[4] (firstToken (bytes "\"x\" and not \"y\"")),[]⟩] = true) := by
  refine ⟨by decide +kernel,
    operands_not rfl (by decide +kernel) (by decide +kernel) (by decide +kernel),?_⟩
  rintro ⟨result,hres,hfold⟩
  have he : evalExpression emptyStore (firstToken (bytes "\"x\" and not \"y\"")) =
      .ok (some [49],nextToken^[4] (firstToken (bytes "\"x\" and not \"y\""))) := by
    decide +kernel
  rw [he] at hres
  obtain rfl : [49] = result := by simpa using hres
  exact absurd (hfold.mp (by decide)) (by decide)

end Filly.Fil

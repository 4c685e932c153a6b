import Filly.Fil

/-!
# The evaluator moves forward

Every function of the evaluator ends, and leaves the parser no further back than
it found it; a successful one has moved it forward. The rewinds of the block
statements are included: a keyword is stepped over and then the position is
taken back by the length of the keyword, which never leads before the keyword.
With this the step equations of the evaluator hold without a cut-off.
-/
namespace Filly.Fil
open CJson Descent Outcome

/-! ## Tokens -/

theorem Scans.type_of_text {s text : Bytes} {t : Token} {n : ℕ} (h : Scans s t n)
    (ht : t.text = some text) : t.type ≠ .tokEof := by
  cases h with
  | word w s _ _ _ =>
      intro he
      have hm := wordType_mem he (by decide)
      simp [keywords] at hm
  | closed => simp
  | unclosed => simp
  | _ => simp at ht

theorem Lexed.start_le_pos {p : Parser} (h : Lexed p) : p.start ≤ p.pos := by
  rw [h.pos]
  exact Nat.le_add_right _ _

theorem Lexed.start_lt_pos {p : Parser} (h : Lexed p) (ht : p.current.type ≠ .tokEof) :
    p.start < p.pos := by
  have := h.scans.pos ht
  omega

theorem Lexed.start_lt_length {p : Parser} (h : Lexed p) (ht : p.current.type ≠ .tokEof) :
    p.start < p.src.length := by
  have hle := h.scans.length_le
  have hlt := h.start_lt_pos ht
  rw [List.length_drop] at hle
  omega

theorem remaining_nextToken_le {p : Parser} (h : Lexed p) :
    remaining (nextToken p) ≤ remaining p := by
  have h1 := h.start_le_pos
  have h2 := pos_le_start p
  unfold remaining
  rw [nextToken_src]
  omega

theorem remaining_nextToken_lt {p : Parser} (h : Lexed p) (ht : p.current.type ≠ .tokEof) :
    remaining (nextToken p) < remaining p := by
  have h1 := h.start_lt_pos ht
  have h2 := h.start_lt_length ht
  have h3 := pos_le_start p
  unfold remaining
  rw [nextToken_src]
  omega

/-- The parser `q` lies at or behind `p`, and behind it after a success. -/
structure Forward (p : Parser) (success : Bool) (q : Parser) : Prop where
  lexed : Lexed q
  le : remaining q ≤ remaining p
  lt : success = true → remaining q < remaining p

theorem Forward.refl {p : Parser} (h : Lexed p) : Forward p false p := ⟨h,le_rfl,by simp⟩

theorem Forward.next {p : Parser} (h : Lexed p) : Forward p false (nextToken p) :=
  ⟨nextToken_lexed p,remaining_nextToken_le h,by simp⟩

theorem Forward.next_lt {p : Parser} (h : Lexed p) (ht : p.current.type ≠ .tokEof) :
    Forward p true (nextToken p) :=
  ⟨nextToken_lexed p,remaining_nextToken_le h,fun _ => remaining_nextToken_lt h ht⟩

theorem Forward.trans {p q r : Parser} {b c : Bool} (h : Forward p b q) (h' : Forward q c r) :
    Forward p (b || c) r := by
  refine ⟨h'.lexed,h'.le.trans h.le,fun hbc => ?_⟩
  rcases Bool.or_eq_true _ _ ▸ hbc with hb | hc
  · exact h'.le.trans_lt (h.lt hb)
  · exact (h'.lt hc).trans_le h.le

/-- Behind a success, anything further on is a success. -/
theorem Forward.after {p q r : Parser} {b c : Bool} (h : Forward p true q) (h' : Forward q c r) :
    Forward p b r :=
  ⟨h'.lexed,h'.le.trans h.le,fun _ => h'.le.trans_lt (h.lt rfl)⟩

/-- A success behind something further on. -/
theorem Forward.before {p q r : Parser} {b c : Bool} (h : Forward p b q) (h' : Forward q true r) :
    Forward p c r :=
  ⟨h'.lexed,h'.le.trans h.le,fun _ => (h'.lt rfl).trans_le h.le⟩

theorem Forward.weaken {p q r : Parser} {b c : Bool} (h : Forward p b q) (h' : Forward q c r) :
    Forward p false r := ⟨h'.lexed,h'.le.trans h.le,by simp⟩

theorem tryMatch_forward {p : Parser} {t : TokenType} (h : Lexed p) (ht : t ≠ .tokEof) :
    Forward p (tryMatch p t).1 (tryMatch p t).2 := by
  unfold tryMatch
  split_ifs with hc
  · exact .next_lt h (hc ▸ ht)
  · exact .refl h

/-- Taking back the length of the keyword that was stepped over. -/
theorem rewind_forward {p : Parser} {k : ℕ} (h : Lexed p) (hk : p.pos-p.start = k) :
    Forward p false (rewind k (nextToken p)) := by
  refine ⟨rewind_lexed _ _,?_,by simp⟩
  have h1 := pos_le_start { nextToken p with pos := (nextToken p).pos-k }
  change (nextToken p).pos-k ≤ (rewind k (nextToken p)).start at h1
  have h2 := pos_le_start p
  have h3 := (nextToken_lexed p).start_le_pos
  have h4 := h.start_le_pos
  have hs : (rewind k (nextToken p)).src = p.src := rfl
  unfold remaining
  rw [hs]
  omega

/-- The length of a keyword. -/
theorem Lexed.keyword_length {p : Parser} {t : TokenType} {k : ℕ} (h : Lexed p)
    (ht : p.current.type = t) (hk : ∀ w ∈ keywords, w.2 = t → w.1.length = k)
    (hkey : t ∈ keywords.map Prod.snd) : p.pos-p.start = k := by
  have hs := h.scans
  generalize p.pos-p.start = n at hs
  generalize p.src.drop p.start = s at hs
  generalize p.current = c at hs ht
  have hne : t ≠ .tokIdent := by
    rintro rfl
    simp [keywords] at hkey
  cases hs with
  | word w s _ _ _ => exact hk _ (wordType_mem ht hne) rfl
  | _ =>
      subst ht
      simp [keywords] at hkey

/-! ## Expressions -/

/-- The function reads a value behind a parser, or nothing. -/
def ReadsForward (p : Parser) : Read → Prop := Ends fun r => Forward p r.1.isSome r.2

theorem asString_ends (b : Bytes) : (asString b).Ends fun _ => True := by
  unfold asString
  split_ifs <;> trivial

theorem strcmpEq_ends (l r : Bytes) : (strcmpEq l r).Ends fun _ => True := by
  unfold strcmpEq
  split_ifs <;> trivial

theorem atoiBuf_ends (b : Bytes) : (atoiBuf b).Ends fun _ => True := by
  unfold atoiBuf
  split_ifs <;> trivial

theorem lookup_ends (env : Env) (key : Bytes) : (env.lookup key).Ends fun _ => True := by
  unfold Env.lookup
  split <;> trivial

theorem matchPattern_ends {env : Env} {pattern subject : Bytes} {p q : Parser}
    (h : Forward p true q) : ReadsForward p (matchPattern env pattern subject q) := by
  refine (asString_ends pattern).bind fun pattern _ => ?_
  cases env.regcomp pattern with
  | none => exact h.after (.refl h.lexed)
  | some matcher => exact (asString_ends subject).bind fun _ _ => h

/-- What comes behind the name of a function, whether there is an `of` or not. -/
theorem forward_of {p q : Parser} {text : Bytes} {b : Bool} (hp : Lexed p)
    (ht : p.current.text = some text) (hof : tryMatch (nextToken p) .tokOf = (b,q)) :
    Forward p true q := by
  have hnext : Forward p true (nextToken p) := .next_lt hp (hp.scans.type_of_text ht)
  have hforward := tryMatch_forward (t := .tokOf) hnext.lexed (by decide)
  rw [hof] at hforward
  exact hnext.after hforward

theorem evalFunction_ends {env : Env} {prim : Parser → Read} {p : Parser} (hp : Lexed p)
    (hprim : ∀ q, Lexed q → remaining q < remaining p → ReadsForward q (prim q)) :
    ReadsForward p (evalFunction env prim p) := by
  unfold evalFunction
  cases ht : p.current.text with
  | none => trivial
  | some text =>
      dsimp only
      generalize hof : tryMatch (nextToken p) .tokOf = m
      obtain ⟨b,q⟩ := m
      have hq : Forward p true q := forward_of hp ht hof
      have hq' : ∀ c, Forward p c q := fun c => hq.after (.refl hq.lexed)
      cases b with
      | false => exact hq' _
      | true =>
          refine (hprim q hq.lexed (hq.lt rfl)).bind fun r hr => ?_
          obtain ⟨arg,q'⟩ := r
          have hr' : Forward p true q' := hq.after hr
          have hall : ∀ c, Forward p c q' := fun c => hr'.after (.refl hr'.lexed)
          have hstr : ∀ f : Bytes → Bytes, ∀ a, ReadsForward p
              (asString a >>= fun a => .ok (some (f a),q')) :=
            fun f a => (asString_ends a).bind fun _ _ => hr'
          cases arg with
          | none => exact hall _
          | some arg =>
              dsimp only
              split
              · exact hstr _ _
              split
              · exact hstr _ _
              split
              · exact hstr _ _
              split
              · exact hstr _ _
              split
              · have hw := tryMatch_forward (t := .tokWith) hr'.lexed (by decide)
                generalize tryMatch q' .tokWith = m at hw
                obtain ⟨b,q2⟩ := m
                have hq2 : Forward p true q2 := hr'.after hw
                cases b with
                | false => exact hq2.after (.refl hq2.lexed)
                | true =>
                    refine (hprim q2 hq2.lexed (hq2.lt rfl)).bind fun r hr => ?_
                    obtain ⟨pat,q3⟩ := r
                    have hq3 : Forward p true q3 := hq2.after hr
                    cases pat with
                    | none => exact hq3.after (.refl hq3.lexed)
                    | some pat => exact matchPattern_ends hq3
              · exact hall _

theorem primaryStep_ends {env : Env} {prim : Parser → Read} {p : Parser} (hp : Lexed p)
    (hprim : ∀ q, Lexed q → remaining q < remaining p → ReadsForward q (prim q)) :
    ReadsForward p (primaryStep env prim p) := by
  have hnext : ∀ {t}, p.current.type = t → t ≠ .tokEof → Forward p true (nextToken p) :=
    fun h ht => .next_lt hp (h ▸ ht)
  have hother : ReadsForward p (if (p.current.text.bind List.head?).any isAlpha then
      let p := nextToken p
      if p.current.type = .tokOf then evalFunction env prim p else .ok (none,p)
      else evalFunction env prim p) := by
    split
    · have hf := Forward.next hp
      dsimp only
      split
      · refine (evalFunction_ends hf.lexed ?_).mono fun r hr => ?_
        · exact fun q hq hlt => hprim q hq (hlt.trans_le hf.le)
        · exact hf.trans hr
      · exact hf
    · exact evalFunction_ends hp hprim
  unfold primaryStep
  cases ht : p.current.type with
  | tokEmpty => exact hnext ht (by decide)
  | tokNot =>
      have hf := hnext ht (by decide)
      refine (hprim _ hf.lexed (hf.lt rfl)).bind fun r hr => ?_
      exact hf.after hr
  | tokIdent =>
      cases p.current.text with
      | none => trivial
      | some key =>
          dsimp only
          split
          · exact hnext ht (by decide)
          · exact (lookup_ends _ _).bind fun _ _ => hnext ht (by decide)
  | tokString =>
      cases p.current.text with
      | none => trivial
      | some text => exact hnext ht (by decide)
  | tokNumber => exact hnext ht (by decide)
  | _ => exact hother

theorem evalFunction_congr {env : Env} {f g : Parser → Read} {p : Parser} (hp : Lexed p)
    (hfg : ∀ q, Lexed q → remaining q < remaining p → f q = g q ∧ ReadsForward q (f q)) :
    evalFunction env f p = evalFunction env g p := by
  unfold evalFunction
  cases ht : p.current.text with
  | none => rfl
  | some text =>
      dsimp only
      generalize hof : tryMatch (nextToken p) .tokOf = m
      obtain ⟨b,q⟩ := m
      have hq : Forward p true q := forward_of hp ht hof
      cases b with
      | false => rfl
      | true =>
          obtain ⟨he,hf⟩ := hfg q hq.lexed (hq.lt rfl)
          simp only [Bool.not_true,Bool.false_eq_true,if_false,← he]
          refine bind_congr_ok fun r hr => ?_
          obtain ⟨arg,q'⟩ := r
          have hr' : Forward p true q' := hq.after (hf.of_eq hr)
          cases arg with
          | none => rfl
          | some arg =>
              have hw := tryMatch_forward (t := .tokWith) hr'.lexed (by decide)
              dsimp only
              generalize tryMatch q' .tokWith = m at hw
              obtain ⟨b,q2⟩ := m
              have hq2 : Forward p true q2 := hr'.after hw
              rw [(hfg q2 hq2.lexed (hq2.lt rfl)).1]

theorem primaryStep_congr {env : Env} {f g : Parser → Read} {p : Parser} (hp : Lexed p)
    (hfg : ∀ q, Lexed q → remaining q < remaining p → f q = g q ∧ ReadsForward q (f q)) :
    primaryStep env f p = primaryStep env g p := by
  have hf := Forward.next hp
  have hfun : evalFunction env f p = evalFunction env g p := evalFunction_congr hp hfg
  have hfun' : evalFunction env f (nextToken p) = evalFunction env g (nextToken p) :=
    evalFunction_congr hf.lexed fun q hq hlt => hfg q hq (hlt.trans_le hf.le)
  unfold primaryStep
  cases ht : p.current.type with
  | tokNot =>
      have hlt := remaining_nextToken_lt hp (by rw [ht]; decide)
      simp only [(hfg _ hf.lexed hlt).1]
  | _ => simp only [hfun,hfun']

theorem primary_descends (env : Env) :
    Descends Lexed remaining ReadsForward (primaryStep env) where
  keeps _ _ hp hf := primaryStep_ends hp hf
  congr _ _ _ hp hfg := primaryStep_congr hp hfg

theorem evalPrimary_eq (env : Env) {p : Parser} (hp : Lexed p) :
    evalPrimary env p = primaryStep env (evalPrimary env) p :=
  (primary_descends env).descend_eq hp

theorem evalPrimary_ends (env : Env) {p : Parser} (hp : Lexed p) :
    ReadsForward p (evalPrimary env p) := (primary_descends env).descend_good hp

theorem evalOrder_ends {env : Env} {holds : ℤ → ℤ → Bool} {negate : Bool} {left : Bytes}
    {p q : Parser} (h : Forward p true q) :
    ReadsForward p (evalOrder env holds negate left q) := by
  have hthan : Forward p true (tryMatch q .tokThan).2 :=
    h.after (tryMatch_forward h.lexed (by decide))
  refine (evalPrimary_ends env hthan.lexed).bind fun r hr => ?_
  obtain ⟨right,q'⟩ := r
  have hq' : Forward p true q' := hthan.after hr
  cases right with
  | none => exact hq'.after (.refl hq'.lexed)
  | some right =>
      exact (atoiBuf_ends left).bind fun _ _ => (atoiBuf_ends right).bind fun _ _ => hq'

theorem comparisonRest_ends (env : Env) (left : Bytes) {p q : Parser} (hq : Forward p true q) :
    ReadsForward p (comparisonRest env left q) := by
  have hnext := hq.after (b := true) (.next hq.lexed)
  unfold comparisonRest
  split
  · have hnot := tryMatch_forward (t := .tokNot) hnext.lexed (by decide)
    generalize tryMatch (nextToken q) .tokNot = m at hnot
    obtain ⟨negate,q1⟩ := m
    have hq1 : Forward p true q1 := hnext.after hnot
    have hq2 := hq1.after (b := true) (.next hq1.lexed)
    dsimp only [comparisonIs]
    split
    · exact hq2
    · exact evalOrder_ends hq2
    · exact evalOrder_ends hq2
    · refine (evalPrimary_ends env hq1.lexed).bind fun r hr => ?_
      obtain ⟨right,q3⟩ := r
      have hq3 : Forward p true q3 := hq1.after hr
      cases right with
      | none => exact hq3.after (.refl hq3.lexed)
      | some right => exact (strcmpEq_ends left right).bind fun _ _ => hq3
  · split
    · refine (evalPrimary_ends env hnext.lexed).bind fun r hr => ?_
      obtain ⟨pattern,q3⟩ := r
      have hq3 : Forward p true q3 := hnext.after hr
      cases pattern with
      | none => exact hq3.after (.refl hq3.lexed)
      | some pattern => exact matchPattern_ends hq3
    · exact hq

theorem evalComparison_ends (env : Env) {p : Parser} (hp : Lexed p) :
    ReadsForward p (evalComparison env p) := by
  refine (evalPrimary_ends env hp).bind fun r hr => ?_
  obtain ⟨left,q⟩ := r
  cases left with
  | none => exact hr
  | some left => exact comparisonRest_ends env left hr

theorem operandTurn_forward (env : Env) {x : Bytes × Parser} (hx : Lexed x.2)
    (hop : isOperator x.2.current.type = true) :
    (operandTurn env x).Ends fun r => Forward x.2 true r.2.2 := by
  have hne : x.2.current.type ≠ .tokEof := by
    intro h
    simp [isOperator,h] at hop
  have h1 := Forward.next_lt hx hne
  have h2 : Forward x.2 true (nextToken (nextToken x.2)) := h1.after (.next h1.lexed)
  refine (evalComparison_ends env h2.lexed).bind fun r hr => ?_
  obtain ⟨right,q⟩ := r
  have hq : Forward x.2 true q := h2.after hr
  cases right with
  | none => exact hq
  | some right => exact hq

theorem operandTurn_shrinks (env : Env) (bound : ℕ) :
    Shrinks (fun x : Bytes × Parser => Lexed x.2) (fun x => remaining x.2)
      (fun x => !isOperator x.2.current.type) (operandTurn env) bound := by
  intro x hx _ hstop
  refine (operandTurn_forward env hx (by simpa using hstop)).mono fun r hr => ?_
  exact ⟨hr.lexed,hr.le,fun _ => hr.lt rfl⟩

/-- One turn of the operand loop at a time. -/
theorem operandLoop_eq (env : Env) (x : Bytes × Parser) (hx : Lexed x.2) :
    loop (fun x => remaining x.2) (fun x => !isOperator x.2.current.type) (operandTurn env) x =
      turn (fun x => !isOperator x.2.current.type) (operandTurn env)
        (loop (fun x => remaining x.2) (fun x => !isOperator x.2.current.type) (operandTurn env)) x :=
  loop_eq (operandTurn_shrinks env (remaining x.2+1)) hx (Nat.lt_succ_self _)

theorem operandLoop_ends (env : Env) (x : Bytes × Parser) (hx : Lexed x.2) :
    (loop (fun x => remaining x.2) (fun x => !isOperator x.2.current.type) (operandTurn env) x).Ends
      fun r => Forward x.2 false r.2.2 := by
  refine (loop_ends (operandTurn_shrinks env (remaining x.2+1)) hx (Nat.lt_succ_self _)).mono ?_
  exact fun r hr => ⟨hr.1,hr.2.1,by simp⟩

theorem evalExpression_ends (env : Env) {p : Parser} (hp : Lexed p) :
    ReadsForward p (evalExpression env p) := by
  refine (evalComparison_ends env hp).bind fun r hr => ?_
  obtain ⟨left,q⟩ := r
  cases left with
  | none => exact hr
  | some left =>
      have hq : Forward p true q := hr
      refine (operandLoop_ends env (left,q) hq.lexed).bind fun r hr => ?_
      exact hq.after hr

/-! ## Statements -/

/-- The statement leaves the parser at or behind `p`, and behind it when it
succeeds. -/
def RunsForward (p : Parser) : Run → Prop := Ends fun r => Forward p r.1 r.2.1

theorem expect_ends {p q : Parser} {c : Bool} {t : TokenType} {s : EvalState}
    {rest : Parser → Run} (hq : Forward p c q) (ht : t ≠ .tokEof)
    (h : ∀ r, Forward p true r → RunsForward p (rest r)) :
    RunsForward p (expect t q s rest) := by
  unfold expect
  split_ifs with hc
  · exact h _ (hq.before (.next_lt hq.lexed (hc ▸ ht)))
  · exact hq.weaken (.refl hq.lexed)

theorem expectText_ends {p q : Parser} {c : Bool} {t : TokenType} {s : EvalState}
    {rest : Bytes → Parser → Run} (hq : Forward p c q) (ht : t ≠ .tokEof)
    (h : ∀ text r, Forward p true r → RunsForward p (rest text r)) :
    RunsForward p (expectText t q s rest) := by
  unfold expectText
  split_ifs with hc
  · cases q.current.text with
    | none => trivial
    | some text => exact h text _ (hq.before (.next_lt hq.lexed (hc ▸ ht)))
  · exact hq.weaken (.refl hq.lexed)

theorem expectValue_ends {env : Env} {p q : Parser} {s : EvalState}
    {rest : Bytes → Parser → Run} (hq : Forward p true q)
    (h : ∀ v r, Forward p true r → RunsForward p (rest v r)) :
    RunsForward p (expectValue env q s rest) := by
  refine (evalExpression_ends env hq.lexed).bind fun r hr => ?_
  obtain ⟨v,r⟩ := r
  have hr' : Forward p true r := hq.after hr
  cases v with
  | none => exact hr'.after (.refl hr'.lexed)
  | some v => exact h v r hr'

theorem evalAnimateStatement_ends {p : Parser} (s : EvalState) (hp : Lexed p) :
    RunsForward p (evalAnimateStatement p s) :=
  expect_ends (.refl hp) (by decide) fun _ hq =>
  expectText_ends hq (by decide) fun _ _ hq =>
  expect_ends hq (by decide) fun _ hq =>
  expectText_ends hq (by decide) fun _ _ hq => hq

theorem evalAnimationControl_ends {p : Parser} (s : EvalState) (hp : Lexed p) :
    RunsForward p (evalAnimationControl p s) := by
  unfold evalAnimationControl
  cases ha : controlAction p.current.type with
  | none => exact .refl hp
  | some action =>
      have hne : p.current.type ≠ .tokEof := by
        intro h
        simp [h,controlAction] at ha
      exact expect_ends (.next_lt hp hne) (by decide) fun _ hq =>
        expect_ends hq (by decide) fun _ hq =>
        expectText_ends hq (by decide) fun _ _ hq => hq

theorem styleProperty_ends (env : Env) (widget child : Bytes) {x : Config} (hx : Lexed x.1) :
    RunsForward x.1 (styleProperty env widget child x) :=
  expectText_ends (.refl hx) (by decide) fun _ _ hq =>
  expect_ends hq (by decide) fun _ hq =>
  expectValue_ends hq fun v _ hq =>
  (asString_ends v).bind fun _ _ => hq

theorem keymapBinding_ends (scope : Bytes) {x : Config} (hx : Lexed x.1) :
    RunsForward x.1 (keymapBinding scope x) :=
  expect_ends (.refl hx) (by decide) fun _ hq =>
  expect_ends hq (by decide) fun _ hq =>
  expect_ends hq (by decide) fun _ hq =>
  expectText_ends hq (by decide) fun _ _ hq =>
  expect_ends hq (by decide) fun _ hq =>
  expectText_ends hq (by decide) fun _ _ hq =>
  expect_ends hq (by decide) fun _ hq => hq

/-- A body that runs forward shrinks what remains. -/
theorem shrinks_of_forward (stop : TokenType → Bool) {body : Config → Run} {bound : ℕ}
    (h : ∀ x, Lexed x.1 → remaining x.1 < bound → stop x.1.current.type = false →
      RunsForward x.1 (body x)) :
    Shrinks (fun x : Config => Lexed x.1) (fun x => remaining x.1)
      (fun x => stop x.1.current.type) body bound := by
  intro x hx hb hs
  exact (h x hx hb hs).mono fun r hr => ⟨hr.lexed,hr.le,hr.lt⟩

theorem evalBraces_ends {item : Config → Run} {p q : Parser} (s : EvalState)
    (hq : Forward p true q) (hitem : ∀ x, Lexed x.1 → RunsForward x.1 (item x)) :
    RunsForward p (evalBraces item q s) := by
  refine expect_ends hq (by decide) fun q hq => ?_
  have hs : Shrinks (fun x : Config => Lexed x.1) (fun x => remaining x.1)
      (fun x => endsBraces x.1.current.type) item (remaining q+1) :=
    shrinks_of_forward _ fun x hx _ _ => hitem x hx
  refine (loop_ends (x := (q,s)) hs hq.lexed (Nat.lt_succ_self _)).bind fun r hr => ?_
  have hr' : Forward p true r.2.1 := hq.after (c := false) ⟨hr.1,hr.2.1,by simp⟩
  split_ifs
  · exact hr'.after (tryMatch_forward hr'.lexed (by decide))
  · exact hr'.after (.refl hr'.lexed)

theorem evalStyleBlock_ends (env : Env) {p : Parser} (s : EvalState) (hp : Lexed p) :
    RunsForward p (evalStyleBlock env p s) := by
  refine expect_ends (.refl hp) (by decide) fun q hq => ?_
  refine expectText_ends hq (by decide) fun widget q hq => ?_
  split_ifs
  · exact expectText_ends hq (by decide) fun child q hq =>
      evalBraces_ends s hq fun x hx => styleProperty_ends env _ _ hx
  · exact evalBraces_ends s hq fun x hx => styleProperty_ends env _ _ hx

theorem evalKeymapBlock_ends {p : Parser} (s : EvalState) (hp : Lexed p) :
    RunsForward p (evalKeymapBlock p s) :=
  expect_ends (.refl hp) (by decide) fun _ hq =>
  expectText_ends hq (by decide) fun scope _ hq =>
  evalBraces_ends s hq fun _ hx => keymapBinding_ends scope hx

theorem evalSet_ends (env : Env) {p q : Parser} (s : EvalState) (hq : Forward p true q) :
    RunsForward p (evalSet env q s) :=
  expectText_ends hq (by decide) fun _ _ hq =>
  expect_ends hq (by decide) fun _ hq =>
  expectValue_ends hq fun v _ hq =>
  (asString_ends v).bind fun _ _ => hq

theorem evalReject_ends {p q : Parser} (s : EvalState) (hq : Forward p true q) :
    RunsForward p (evalReject q s) :=
  expect_ends hq (by decide) fun _ hq =>
  expectText_ends hq (by decide) fun _ _ hq => hq

/-- An optional token. -/
theorem Forward.optional {p q : Parser} {t : TokenType} {b : Bool} (hq : Forward p true q)
    (ht : t ≠ .tokEof) : Forward p b (tryMatch q t).2 := hq.after (tryMatch_forward hq.lexed ht)

theorem evalShow_ends (env : Env) {p q : Parser} (s : EvalState) (hq : Forward p true q) :
    RunsForward p (evalShow env q s) :=
  expectValue_ends (hq.optional (by decide)) fun _ _ hq => hq

theorem evalFor_ends (env : Env) {p q : Parser} (s : EvalState) (hq : Forward p true q) :
    RunsForward p (evalFor env q s) :=
  expectText_ends (hq.optional (b := true) (by decide)) (by decide) fun _ _ hq =>
  expect_ends hq (by decide) fun _ hq =>
  expectText_ends hq (by decide) fun _ _ hq =>
  expect_ends hq (by decide) fun _ hq =>
  (lookup_ends _ _).bind fun _ _ => hq.optional (by decide)

theorem skipUntil_forward {stop : TokenType → Bool} {q : Parser} (n : ℕ) (hq : Lexed q) :
    Forward q false (skipUntil stop q n) := by
  induction n generalizing q with
  | zero => exact .refl hq
  | succ n ih =>
      rw [skipUntil]
      split_ifs
      · exact .refl hq
      · exact (Forward.next hq).trans (ih (nextToken_lexed q))

section
variable {env : Env} {f g : Config → Run} {p : Parser}

theorem evalStatements_ends {stop : TokenType → Bool} {q : Parser} (s : EvalState)
    (hf : ∀ x, Lexed x.1 → remaining x.1 < remaining p → RunsForward x.1 (f x))
    (hq : Forward p true q) :
    (evalStatements f stop (q,s)).Ends fun r => Forward p true r.2.1 := by
  have hs := shrinks_of_forward stop fun x hx hb _ => hf x hx hb
  refine (loop_ends (x := (q,s)) hs hq.lexed (hq.lt rfl)).mono fun r hr => ?_
  exact hq.after (c := false) ⟨hr.1,hr.2.1,by simp⟩

theorem evalBlock_ends {q : Parser} (s : EvalState)
    (hf : ∀ x, Lexed x.1 → remaining x.1 < remaining p → RunsForward x.1 (f x))
    (hq : Forward p true q) : (evalBlock f q s).Ends fun r => Forward p true r.2.1 :=
  evalStatements_ends s hf (hq.optional (by decide))

theorem evalWhen_ends {q : Parser} (s : EvalState)
    (hf : ∀ x, Lexed x.1 → remaining x.1 < remaining p → RunsForward x.1 (f x))
    (hq : Forward p true q) : RunsForward p (evalWhen env f q s) := by
  refine expectValue_ends hq fun cond q hq => ?_
  split_ifs
  · refine (evalBlock_ends s hf hq).bind fun r hr => ?_
    split_ifs
    · have he := tryMatch_forward (t := .tokElse) hr.lexed (by decide)
      have hskip : Forward p true (if (tryMatch r.2.1 .tokElse).1
          then skipTo .tokEnd (tryMatch r.2.1 .tokElse).2 else (tryMatch r.2.1 .tokElse).2) := by
        split_ifs
        · exact hr.after (he.trans (skipUntil_forward _ he.lexed))
        · exact hr.after he
      exact hskip.optional (by decide)
    · exact hr.after (.refl hr.lexed)
  · have hskip : Forward p true (nextToken (skipTo .tokThen q)) :=
      hq.after ((skipUntil_forward _ hq.lexed).trans (.next (skipUntil_forward _ hq.lexed).lexed))
    refine (evalStatements_ends s hf hskip).bind fun r hr => ?_
    split_ifs
    · refine (evalBlock_ends r.2.2 hf (hr.after (.next hr.lexed))).bind fun r hr => ?_
      exact hr.optional (by decide)
    · exact hr.optional (by decide)
    · exact hr.after (.refl hr.lexed)

theorem evalStatements_congr {stop : TokenType → Bool} {q : Parser} (s : EvalState)
    (hfg : ∀ x, Lexed x.1 → remaining x.1 < remaining p → f x = g x ∧ RunsForward x.1 (f x))
    (hq : Forward p true q) :
    evalStatements f stop (q,s) = evalStatements g stop (q,s) := by
  have hs := shrinks_of_forward stop fun x hx hb _ => (hfg x hx hb).2
  exact loop_congr (x := (q,s)) hs (fun x hx hb _ => (hfg x hx hb).1) hq.lexed (hq.lt rfl)

theorem evalWhen_congr {q : Parser} (s : EvalState)
    (hfg : ∀ x, Lexed x.1 → remaining x.1 < remaining p → f x = g x ∧ RunsForward x.1 (f x))
    (hq : Forward p true q) : evalWhen env f q s = evalWhen env g q s := by
  have hf : ∀ x, Lexed x.1 → remaining x.1 < remaining p → RunsForward x.1 (f x) :=
    fun x hx hb => (hfg x hx hb).2
  have hblock : ∀ q s, Forward p true q → evalBlock f q s = evalBlock g q s :=
    fun q s hq => evalStatements_congr s hfg (hq.optional (by decide))
  refine bind_congr_ok fun r hr => ?_
  obtain ⟨cond,q1⟩ := r
  have hq1 : Forward p true q1 := hq.after ((evalExpression_ends env hq.lexed).of_eq hr)
  cases cond with
  | none => rfl
  | some cond =>
      dsimp only
      split_ifs
      · rw [hblock q1 s hq1]
      · have hskip : Forward p true (nextToken (skipTo .tokThen q1)) :=
          hq1.after ((skipUntil_forward _ hq1.lexed).trans
            (.next (skipUntil_forward _ hq1.lexed).lexed))
        rw [← evalStatements_congr s hfg hskip]
        refine bind_congr_ok fun r hr => ?_
        have hr' := (evalStatements_ends s hf hskip).of_eq hr
        rw [hblock _ _ (hr'.after (.next hr'.lexed))]

theorem statementBody_ends {s : EvalState} (hp : Lexed p)
    (hf : ∀ x, Lexed x.1 → remaining x.1 < remaining p → RunsForward x.1 (f x)) :
    RunsForward p (statementBody env f (p,s)) := by
  have hnext : ∀ {t}, p.current.type = t → t ≠ .tokEof → Forward p true (nextToken p) :=
    fun h ht => .next_lt hp (h ▸ ht)
  have back : ∀ {t} (k : ℕ) {r : Parser → Run}, p.current.type = t → t ∈ keywords.map Prod.snd →
      (∀ w ∈ keywords, w.2 = t → w.1.length = k) → (∀ q, Lexed q → RunsForward q (r q)) →
      RunsForward p (r (rewind k (nextToken p))) := by
    intro t k r ht hkey hk hr
    have hb := rewind_forward hp (hp.keyword_length ht hk hkey)
    exact (hr _ hb.lexed).mono fun x hx => hb.trans hx
  unfold statementBody
  dsimp only
  split
  · exact .refl hp
  cases ht : p.current.type with
  | tokAnimate =>
      exact back 7 (r := fun q => evalAnimateStatement q s) ht (by decide) (by decide) fun _ => evalAnimateStatement_ends s
  | tokStop =>
      exact back 4 (r := fun q => evalAnimationControl q s) ht (by decide) (by decide) fun _ => evalAnimationControl_ends s
  | tokPause =>
      exact back 5 (r := fun q => evalAnimationControl q s) ht (by decide) (by decide) fun _ => evalAnimationControl_ends s
  | tokResume =>
      exact back 6 (r := fun q => evalAnimationControl q s) ht (by decide) (by decide) fun _ => evalAnimationControl_ends s
  | tokStyle =>
      exact back 5 (r := fun q => evalStyleBlock env q s) ht (by decide) (by decide) fun _ => evalStyleBlock_ends env s
  | tokKeymap =>
      exact back 6 (r := fun q => evalKeymapBlock q s) ht (by decide) (by decide) fun _ => evalKeymapBlock_ends s
  | tokWhen => exact evalWhen_ends s hf (hnext ht (by decide))
  | tokLet => exact evalSet_ends env s (hnext ht (by decide))
  | tokSet => exact evalSet_ends env s (hnext ht (by decide))
  | tokReject => exact evalReject_ends s (hnext ht (by decide))
  | tokAccept => exact hnext ht (by decide)
  | tokShow => exact evalShow_ends env s (hnext ht (by decide))
  | tokFor => exact evalFor_ends env s (hnext ht (by decide))
  | _ => exact .refl hp

theorem statementBody_congr {s : EvalState} (hp : Lexed p)
    (hfg : ∀ x, Lexed x.1 → remaining x.1 < remaining p → f x = g x ∧ RunsForward x.1 (f x)) :
    statementBody env f (p,s) = statementBody env g (p,s) := by
  unfold statementBody
  dsimp only
  split
  · rfl
  cases ht : p.current.type with
  | tokWhen => exact evalWhen_congr s hfg (.next_lt hp (by rw [ht]; decide))
  | _ => rfl

end

theorem statement_descends (env : Env) :
    Descends (fun x : Config => Lexed x.1) (fun x => remaining x.1)
      (fun x => RunsForward x.1) (statementStep env) where
  keeps _ _ hx hf := by
    refine (statementBody_ends hx hf).bind fun r hr => ?_
    split_ifs with hb
    · exact hr
    · exact ⟨hr.lexed,hr.le,by simp⟩
  congr _ _ _ hx hfg := by
    unfold statementStep
    rw [statementBody_congr hx hfg]

theorem evalStatement_eq (env : Env) {x : Config} (hx : Lexed x.1) :
    evalStatement env x = statementStep env (evalStatement env) x :=
  (statement_descends env).descend_eq hx

theorem evalStatement_ends (env : Env) {x : Config} (hx : Lexed x.1) :
    RunsForward x.1 (evalStatement env x) := (statement_descends env).descend_good hx

theorem evalStatement_shrinks (env : Env) (stop : TokenType → Bool) (bound : ℕ) :
    Shrinks (fun x : Config => Lexed x.1) (fun x => remaining x.1)
      (fun x => stop x.1.current.type) (evalStatement env) bound :=
  shrinks_of_forward _ fun _ hx _ _ => evalStatement_ends env hx

/-- One statement at a time. -/
theorem evalStatements_eq (env : Env) (stop : TokenType → Bool) {x : Config} (hx : Lexed x.1) :
    evalStatements (evalStatement env) stop x =
      turn (fun x => stop x.1.current.type) (evalStatement env)
        (evalStatements (evalStatement env) stop) x :=
  loop_eq (evalStatement_shrinks env stop (remaining x.1+1)) hx (Nat.lt_succ_self _)

/-- The statement loop of a script always ends, without the alarm. -/
theorem runScript_ends (env : Env) (script : Bytes) :
    (runScript env script).Ends fun r => Lexed r.2.1 ∧ (r.1 = true → r.2.1.current.type = .tokEof) := by
  have hl : Lexed (firstToken script) := nextToken_lexed _
  have hs := evalStatement_shrinks env (· = .tokEof) (remaining (firstToken script)+1)
  refine (loop_ends (x := (firstToken script,{})) hs hl (Nat.lt_succ_self _)).mono fun r hr => ?_
  exact ⟨hr.1,fun h => by simpa using hr.2.2 h⟩

/-! ## The cut-offs -/

theorem skipUntil_stops (stop : TokenType → Bool) (hstop : stop .tokEof = true) {n : ℕ} {p : Parser}
    (hp : Lexed p) (hn : remaining p ≤ n) : stop (skipUntil stop p n).current.type = true := by
  induction n generalizing p with
  | zero =>
      by_cases heof : p.current.type = .tokEof
      · rw [skipUntil,heof]
        exact hstop
      · have hlt := hp.start_lt_length heof
        unfold remaining at hn
        omega
  | succ n ih =>
      rw [skipUntil]
      split_ifs with hs
      · exact hs
      · have heof : p.current.type ≠ .tokEof := fun h => hs (h ▸ hstop)
        have hlt := remaining_nextToken_lt hp heof
        exact ih (nextToken_lexed p) (by omega)

/-- A loop that is allowed more turns does the same. -/
theorem unroll_evalStatements (env : Env) (stop : TokenType → Bool) {x : Config} (hx : Lexed x.1)
    {n : ℕ} (hn : remaining x.1 < n) :
    unroll (turn (fun x => stop x.1.current.type) (evalStatement env)) n x =
      evalStatements (evalStatement env) stop x :=
  (turn_descends (evalStatement_shrinks env stop (remaining x.1+1))).unroll_eq
    ⟨hx,Nat.lt_succ_self _⟩ hn (Nat.lt_succ_self _)

/-- The evaluation of a script ends, whatever the cut-offs are from some number on: those of
the statement loop, of the statements and expressions inside each other, and of the loops that
skip tokens, which stop at their token or at the end of the script. -/
theorem filEval_terminates (env : Env) (script : Bytes) :
    filEval env script ≠ .spin ∧
      (∀ n, remaining (firstToken script) < n →
        unroll (turn (fun x => decide (x.1.current.type = .tokEof)) (evalStatement env)) n
          (firstToken script,{}) = runScript env script) ∧
      ∀ p, Lexed p →
        (∀ s, evalStatement env (p,s) ≠ .spin ∧
          ∀ n, remaining p < n → unroll (statementStep env) n (p,s) = evalStatement env (p,s)) ∧
        (evalPrimary env p ≠ .spin ∧
          ∀ n, remaining p < n → unroll (primaryStep env) n p = evalPrimary env p) ∧
        ∀ t, (skipTo t p).current.type = t ∨ (skipTo t p).current.type = .tokEof := by
  refine ⟨?_,fun n hn => ?_,fun p hp => ⟨fun s => ⟨?_,fun n hn => ?_⟩,⟨?_,fun n hn => ?_⟩,fun t => ?_⟩⟩
  · have hends : (filEval env script).Ends fun _ => True :=
      (runScript_ends env script).bind fun _ _ => trivial
    exact hends.ne_spin
  · exact unroll_evalStatements env (· = .tokEof) (nextToken_lexed _) hn
  · exact (evalStatement_ends env (x := (p,s)) hp).ne_spin
  · exact (statement_descends env).unroll_eq (x := (p,s)) hp hn (Nat.lt_succ_self _)
  · exact ((primary_descends env).descend_good hp).ne_spin
  · exact (primary_descends env).unroll_eq hp hn (Nat.lt_succ_self _)
  · simpa [skipTo] using skipUntil_stops (fun u => u = t || u = .tokEof) (by simp) hp le_rfl

end Filly.Fil

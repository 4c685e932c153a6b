import Filly.FilConditionals
import Filly.FilFailure
import Mathlib.Data.List.GetD

/-!
# Block statements

The functions for `style`, `keymap`, `animate` and the animation controls expect
to see their own keyword. `eval_statement` has stepped over it, and takes the
position back by its length to read it again; but the position is already
behind the token that follows. So the block functions do not find their keyword
and fail. There is one way through: a style block for a widget whose name ends
in `style` and that has a child. Then the child is taken for the widget, and
every entry has the wrong names.

So a sequence of block statements is recorded as written only when there is
nothing to record.
-/
namespace Filly.Fil
open CJson Descent Outcome

/-! ## Characters around a token -/

/-- The character at a position, NUL behind the end. -/
def charAt (src : Bytes) (i : ℕ) : UInt8 := src.getD i 0

theorem charAt_drop (src : Bytes) (i j : ℕ) : charAt (src.drop i) j = charAt src (i+j) := by
  simp [charAt,List.getD_eq_getElem?_getD]

theorem isSpace_not_word {c : UInt8} (h : isSpace c = true) : isWordChar c = false := by
  simp only [isSpace,Bool.or_eq_true,decide_eq_true_eq] at h
  rcases h with ((rfl | rfl) | rfl) | rfl <;> rfl

theorem skipWs_space (p : Parser) {i : ℕ} (h1 : p.pos ≤ i) (h2 : i < skipWs p) :
    isSpace (charAt p.src i) = true := by
  obtain ⟨j,rfl⟩ := Nat.exists_eq_add_of_le h1
  rw [← charAt_drop]
  have hj : j < ((p.src.drop p.pos).takeWhile isSpace).length := by
    rw [skipWs] at h2
    omega
  have hmem := List.mem_takeWhile_imp (List.getElem_mem hj)
  rwa [List.IsPrefix.getElem (List.takeWhile_prefix isSpace) hj,
    ← List.getD_eq_getElem (p.src.drop p.pos) 0] at hmem

/-- A word in the text: its characters, and the one behind it. -/
structure WordAt (src : Bytes) (start : ℕ) (w : Bytes) : Prop where
  ne_nil : w ≠ []
  chars : ∀ j < w.length, charAt src (start+j) = w.getD j 0 ∧ isWordChar (w.getD j 0) = true
  behind : isWordChar (charAt src (start+w.length)) = false

theorem wordAt_of_drop {src w s : Bytes} {start : ℕ} (h : src.drop start = w++s) (hne : w ≠ [])
    (hw : ∀ b ∈ w, isWordChar b = true) (hs : isWordChar (s.getD 0 0) = false) :
    WordAt src start w := by
  refine ⟨hne,fun j hj => ⟨?_,?_⟩,?_⟩
  · rw [← charAt_drop,h]
    simp [charAt,List.getD_eq_getElem?_getD,List.getElem?_append_left hj]
  · rw [List.getD_eq_getElem w 0 hj]
    exact hw _ (List.getElem_mem hj)
  · rw [← charAt_drop,h]
    have he : charAt (w++s) w.length = s.getD 0 0 := by
      simp [charAt,List.getD_eq_getElem?_getD,List.getElem?_append_right]
    rwa [he]

/-- A token with a text that is not a string is a word. -/
theorem Lexed.word {p : Parser} {w : Bytes} (hp : Lexed p) (ht : p.current.text = some w)
    (hs : p.current.type ≠ .tokString) :
    WordAt p.src p.start w ∧ p.pos = p.start+w.length ∧ p.current.type = wordType w := by
  have hscan := hp.scans
  have hle := hp.start_le_pos
  generalize hd : p.src.drop p.start = d at hscan
  generalize hn : p.pos-p.start = n at hscan
  generalize p.current = t at hscan ht hs
  cases hscan with
  | word w' s hne hall hbehind =>
      obtain rfl : w' = w := by simpa using ht
      exact ⟨wordAt_of_drop hd hne hall hbehind,by omega,rfl⟩
  | closed => exact absurd rfl hs
  | unclosed => exact absurd rfl hs
  | _ => simp at ht

/-- A word of length `k` that is found from `k` characters before the end of
another word is the end of that word. -/
theorem rewind_pos {p : Parser} {w w' : Bytes} {k : ℕ} (hw : WordAt p.src p.start w)
    (hpos : p.pos = p.start+w.length) (hk : w'.length = k)
    (hw' : WordAt p.src (rewind k p).start w') : (rewind k p).start+k = p.pos := by
  have hlen := List.length_pos_of_ne_nil hw.ne_nil
  have hlen' := List.length_pos_of_ne_nil hw'.ne_nil
  have hle := pos_le_start { p with pos := p.pos-k }
  change p.pos-k ≤ (rewind k p).start at hle
  have hlast : isWordChar (charAt p.src (p.pos-1)) = true := by
    obtain ⟨hc,hx⟩ := hw.chars (w.length-1) (by omega)
    rw [show p.pos-1 = p.start+(w.length-1) by omega,hc]
    exact hx
  have hstart : (rewind k p).start ≤ p.pos-1 := by
    by_contra hlt
    have hsp := skipWs_space { p with pos := p.pos-k } (i := p.pos-1)
      (by dsimp only; omega) (by change p.pos-1 < (rewind k p).start; omega)
    rw [isSpace_not_word hsp] at hlast
    exact absurd hlast (by decide)
  have hend : (rewind k p).start+k ≤ p.pos := by
    by_contra hlt
    obtain ⟨hc,hx⟩ := hw'.chars (p.pos-(rewind k p).start) (by omega)
    rw [show (rewind k p).start+(p.pos-(rewind k p).start) = p.pos by omega] at hc
    rw [← hc,hpos,hw.behind] at hx
    exact absurd hx (by decide)
  omega

/-- A keyword in the text. -/
theorem Lexed.keyword_at {p : Parser} {t : TokenType} {k : ℕ} (hp : Lexed p)
    (ht : p.current.type = t) (hkey : t ∈ keywords.map Prod.snd)
    (hk : ∀ w ∈ keywords, w.2 = t → w.1.length = k) :
    ∃ w, WordAt p.src p.start w ∧ w.length = k ∧ p.pos = p.start+k := by
  have hne : t ≠ .tokString := by
    rintro rfl
    simp [keywords] at hkey
  obtain ⟨w,hw⟩ : ∃ w, p.current.text = some w := by
    have hscan := hp.scans
    generalize p.src.drop p.start = d at hscan
    generalize p.pos-p.start = n at hscan
    generalize p.current = c at hscan ht
    cases hscan with
    | word w s _ _ _ => exact ⟨w,rfl⟩
    | _ =>
        subst ht
        simp [keywords] at hkey
  obtain ⟨hword,hpos,-⟩ := hp.word hw (ht ▸ hne)
  have hlen := hp.keyword_length ht hk hkey
  exact ⟨w,hword,by omega,by omega⟩

theorem nextToken_congr {p q : Parser} (hsrc : p.src = q.src) (hpos : p.pos = q.pos)
    (hunk : p.unknown = q.unknown) : nextToken p = nextToken q := by
  cases p
  cases q
  dsimp only at hsrc hpos hunk
  subst hsrc hpos hunk
  rfl

/-- When a keyword is found by going back from the end of a word, the tokens
behind it are those that follow the word. -/
theorem nextToken_rewind {p : Parser} {w : Bytes} {t : TokenType} {k : ℕ} (hp : Lexed p)
    (hw : p.current = { type := .tokIdent, text := some w }) (ht : (rewind k p).current.type = t)
    (hkey : t ∈ keywords.map Prod.snd) (hk : ∀ w ∈ keywords, w.2 = t → w.1.length = k) :
    nextToken (rewind k p) = nextToken p := by
  obtain ⟨hword,hpos,-⟩ := hp.word (w := w) (by rw [hw]) (by simp [hw])
  have hr : Lexed (rewind k p) := rewind_lexed k p
  obtain ⟨w',hword',hlen,hpos'⟩ := hr.keyword_at ht hkey hk
  have hsame : (rewind k p).pos = p.pos := hpos'.trans (rewind_pos hword hpos hlen hword')
  have hscan : scanToken ((rewind k p).src.drop (rewind k p).start) ≠ ({ type := .tokEof },1) := by
    intro he
    have hc := hr.current
    rw [he] at hc
    rw [hc] at ht
    subst ht
    simp [keywords] at hkey
  have hunk : (rewind k p).unknown = p.unknown := by
    change (p.unknown || decide (scanToken ((rewind k p).src.drop (rewind k p).start) =
      ({ type := .tokEof },1))) = p.unknown
    simp [hscan]
  exact nextToken_congr rfl hsame hunk

/-- No keyword is found by going back from the end of a string. -/
theorem rewind_string {p : Parser} {text : Bytes} {k : ℕ} (hp : Lexed p)
    (ht : p.current = { type := .tokString, text := some text })
    (hnext : (nextToken p).current.type ≠ .tokEof) {w : Bytes}
    (hw : WordAt p.src (rewind k p).start w) (hlen : w.length = k) : False := by
  have hk : 0 < k := hlen ▸ List.length_pos_of_ne_nil hw.ne_nil
  have hquote : charAt p.src (p.pos-1) = 34 ∧ p.start < p.pos := by
    have hscan := hp.scans
    have hle := hp.start_le_pos
    generalize hd : p.src.drop p.start = d at hscan
    generalize hn : p.pos-p.start = n at hscan
    rw [ht] at hscan
    generalize htok : ({ type := .tokString, text := some text } : Token) = tok at hscan
    cases hscan with
    | closed text' s _ =>
        have hp1 : p.pos-1 = p.start+(text'.length+1) := by omega
        refine ⟨?_,by omega⟩
        rw [hp1,← charAt_drop,hd]
        simp [charAt,List.getD_eq_getElem?_getD]
    | unclosed text' s _ hs =>
        -- The text ends with the string, and so would the tokens.
        exfalso
        have hd2 : p.src.drop p.pos = s := by
          rw [show p.pos = p.start+(text'.length+1) by omega,← List.drop_drop,hd]
          simp
        have hsp : isSpace (s.getD 0 0) = false := by
          rw [hs]
          rfl
        have hstart : skipWs p = p.pos := by simp [skipWs,hd2,takeWhile_of_end hsp]
        apply hnext
        change (scanToken (p.src.drop (skipWs p))).1.type = _
        rw [hstart,hd2]
        cases s with
        | nil => rfl
        | cons c s =>
            obtain rfl : c = 0 := by simpa using hs
            rfl
    | word w s _ _ _ =>
        have hty : wordType w = .tokString := (congrArg Token.type htok).symm
        exact absurd (wordType_mem hty (by decide)) (by simp [keywords])
    | _ => simp at htok
  have hle := pos_le_start { p with pos := p.pos-k }
  change p.pos-k ≤ (rewind k p).start at hle
  have hstart : (rewind k p).start ≤ p.pos-1 := by
    by_contra hlt
    have hsp := skipWs_space { p with pos := p.pos-k } (i := p.pos-1)
      (by dsimp only; omega) (by change p.pos-1 < (rewind k p).start; omega)
    rw [show charAt _ _ = _ from hquote.1] at hsp
    exact absurd hsp (by decide)
  obtain ⟨hc,hx⟩ := hw.chars (p.pos-1-(rewind k p).start) (by omega)
  rw [show (rewind k p).start+(p.pos-1-(rewind k p).start) = p.pos-1 by omega,hquote.1] at hc
  rw [← hc] at hx
  exact absurd hx (by decide)

/-! ## Statements and what they should record -/

inductive Control where
  | stop
  | pause
  | resume

def Control.token : Control → TokenType
  | .stop => .tokStop
  | .pause => .tokPause
  | .resume => .tokResume

def Control.action : Control → Bytes
  | .stop => bytes "stop"
  | .pause => bytes "pause"
  | .resume => bytes "resume"

/-- A block statement. The expression of a property is given by its tokens;
nothing depends on them. -/
inductive BlockStmt where
  | style (widget : Bytes) (child : Option Bytes) (props : List (Bytes × List Token))
  | keymap (scope : Bytes) (bindings : List (Bytes × Bytes))
  | animate (target name : Bytes)
  | control (kind : Control) (target : Bytes)

def identToken (name : Bytes) : Token := { type := .tokIdent, text := some name }

def stringToken (text : Bytes) : Token := { type := .tokString, text := some text }

def lbrace : Token := { type := .tokLbrace }

def rbrace : Token := { type := .tokRbrace }

def BlockStmt.tokens : BlockStmt → List Token
  | .style widget child props =>
      keyword .tokStyle::identToken widget::((child.map identToken).toList++
        lbrace::(props.flatMap (fun x => identToken x.1::keyword .tokIs::x.2)++[rbrace]))
  | .keymap scope bindings =>
      keyword .tokKeymap::identToken scope::lbrace::(bindings.flatMap (fun x =>
        [keyword .tokWhen,keyword .tokKey,keyword .tokIs,stringToken x.1,keyword .tokThen,
          stringToken x.2,keyword .tokEnd])++[rbrace])
  | .animate target name =>
      [keyword .tokAnimate,stringToken target,keyword .tokWith,stringToken name]
  | .control kind target =>
      [keyword kind.token,keyword .tokAnimation,keyword .tokOn,stringToken target]

/-- The names that the style entries should carry: widget, child and property. -/
def BlockStmt.styles : BlockStmt → List (Bytes × Bytes × Bytes)
  | .style widget child props => props.map fun x => (widget,child.getD [],x.1)
  | _ => []

def BlockStmt.keymaps : BlockStmt → List Bytes
  | .keymap scope bindings => bindings.map fun x => joinBars [scope,x.1,x.2]
  | _ => []

def BlockStmt.animations : BlockStmt → List (Bytes × Bytes)
  | .animate target name => [(target,name)]
  | .control kind target => [(target,kind.action)]
  | _ => []

/-- One entry for each property, binding and animation, in order and with the
names written; the value of a property is left open. -/
structure Recorded (stmts : List BlockStmt) (r : FilResult) : Prop where
  styles : List.Forall₂ (fun names entry =>
    ∃ v, entry = (joinBars [names.1,names.2.1,names.2.2,v],names.2.2))
    (stmts.flatMap BlockStmt.styles) r.styles
  keymaps : r.keymaps = stmts.flatMap BlockStmt.keymaps
  animations : r.animations = stmts.flatMap BlockStmt.animations

/-- There is nothing to record. -/
def BlockStmt.isBare : BlockStmt → Bool
  | .style _ _ props => props.isEmpty
  | .keymap _ bindings => bindings.isEmpty
  | _ => false

/-! ## Executing one statement -/

/-- Nothing was recorded between the two states. -/
structure SameRecords (s s' : EvalState) : Prop where
  styles : s'.styles = s.styles
  keymaps : s'.keymaps = s.keymaps
  animations : s'.animations = s.animations
  loopCount : s'.loopCount = s.loopCount

theorem SameRecords.refl (s : EvalState) : SameRecords s s := ⟨rfl,rfl,rfl,rfl⟩

theorem SameRecords.trans {s s' s'' : EvalState} (h : SameRecords s s') (h' : SameRecords s' s'') :
    SameRecords s s'' :=
  ⟨h'.styles.trans h.styles,h'.keymaps.trans h.keymaps,h'.animations.trans h.animations,
    h'.loopCount.trans h.loopCount⟩

section
variable {env : Env} {p : Parser} {s : EvalState} {rest : List Token}

/-- A statement whose body fails without a record. -/
theorem evalStatement_fails {q : Parser} (hp : Lexed p)
    (h : statementBody env (evalStatement env) (p,s) = .ok (false,q,s)) :
    evalStatement env (p,s) = .ok (false,q,s.noteFailure) := by
  rw [evalStatement_eq env hp,statementStep,h]
  rfl

theorem sameRecords_noteFailure (s : EvalState) : SameRecords s s.noteFailure := ⟨rfl,rfl,rfl,rfl⟩

theorem expect_fails {t : TokenType} {k : Parser → Run} (h : p.current.type ≠ t) :
    expect t p s k = .ok (false,p,s) := if_neg h

/-- A keymap block fails. -/
theorem evalStatement_keymap {scope : Bytes} {us : List Token} (hp : Lexed p)
    (hs : s.loopCount ≤ 10000)
    (h : Ahead p (keyword .tokKeymap::identToken scope::lbrace::us)) :
    ∃ q, evalStatement env (p,s) = .ok (false,q,s.noteFailure) := by
  obtain ⟨hc,hscope,hbrace,-⟩ := h
  have hbody : statementBody env (evalStatement env) (p,s) =
      evalKeymapBlock (rewind 6 (nextToken p)) s := by
    simp [statementBody,hc,keyword,show ¬10000 < s.loopCount by omega]
  by_cases ht : (rewind 6 (nextToken p)).current.type = .tokKeymap
  · have hnext := nextToken_rewind (nextToken_lexed p) hscope ht (by decide) (by decide)
    refine ⟨nextToken (nextToken p),evalStatement_fails hp (hbody.trans ?_)⟩
    rw [evalKeymapBlock,expect,if_pos ht,hnext,expectText,if_neg (by rw [hbrace]; decide)]
  · exact ⟨_,evalStatement_fails hp (hbody.trans (expect_fails ht))⟩

/-- An animate statement fails. -/
theorem evalStatement_animate {target : Bytes} {us : List Token} (hp : Lexed p)
    (hs : s.loopCount ≤ 10000)
    (h : Ahead p (keyword .tokAnimate::stringToken target::keyword .tokWith::us)) :
    ∃ q, evalStatement env (p,s) = .ok (false,q,s.noteFailure) := by
  obtain ⟨hc,htarget,hwith,-⟩ := h
  have hbody : statementBody env (evalStatement env) (p,s) =
      evalAnimateStatement (rewind 7 (nextToken p)) s := by
    simp [statementBody,hc,keyword,show ¬10000 < s.loopCount by omega]
  have ht : (rewind 7 (nextToken p)).current.type ≠ .tokAnimate := by
    intro ht
    obtain ⟨w,hw,hlen,-⟩ := (rewind_lexed 7 (nextToken p)).keyword_at (k := 7) ht (by decide)
      (by decide)
    exact rewind_string (nextToken_lexed p) htarget (by rw [hwith]; decide) hw hlen
  exact ⟨_,evalStatement_fails hp (hbody.trans (expect_fails ht))⟩

/-- Going back into the keyword `animation` finds no keyword. -/
theorem rewind_animation {k : ℕ} (hp : Lexed p) (ht : p.current = keyword .tokAnimation)
    (hk : k = 4 ∨ k = 5 ∨ k = 6) : controlAction (rewind k p).current.type = none := by
  have hscan := hp.scans
  have hle := hp.start_le_pos
  generalize hd : p.src.drop p.start = d at hscan
  generalize hn : p.pos-p.start = n at hscan
  rw [ht] at hscan
  generalize htok : keyword .tokAnimation = tok at hscan
  cases hscan with
  | word w s' _ _ hs' =>
      obtain rfl : bytes "animation" = w := by
        have htext : (keyword .tokAnimation).text = some (bytes "animation") := by decide
        simpa [htext] using congrArg Token.text htok
      have hd2 : p.src.drop (p.pos-k) = (bytes "animation").drop (9-k)++s' := by
        have hpos : p.pos = p.start+9 := by
          change p.pos-p.start = 9 at hn
          omega
        rw [show p.pos-k = p.start+(9-k) by omega,← List.drop_drop,hd,
          List.drop_append_of_le_length (by change 9-k ≤ 9; omega)]
      have hstart : skipWs { p with pos := p.pos-k } = p.pos-k := by
        simp only [skipWs,hd2]
        rcases hk with rfl | rfl | rfl <;> rfl
      change controlAction (scanToken (p.src.drop (skipWs { p with pos := p.pos-k }))).1.type = none
      rw [hstart,hd2]
      have scan : ∀ (c : UInt8) (w : Bytes), c ≠ 0 → c ≠ 123 → c ≠ 125 → c ≠ 34 → isDigit c = false →
          isAlpha c = true → (∀ b ∈ c::w, isWordChar b = true) →
          (scanToken (c::w++s')).1.type = wordType (c::w) := by
        intro c w h0 h1 h2 h3 h4 h5 hw
        have htake : (c::(w++s')).takeWhile isWordChar = c::w := takeWhile_append_of_end hw hs'
        simp only [List.cons_append,scanToken,h0,h1,h2,h3,h4,h5,htake,if_false,Bool.true_or,if_true,
          Bool.false_eq_true]
      have hend : ∀ c w, (bytes "animation").drop (9-k) = c::w → c ≠ 0 → c ≠ 123 → c ≠ 125 → c ≠ 34 →
          isDigit c = false → isAlpha c = true → (∀ b ∈ c::w, isWordChar b = true) →
          controlAction (wordType (c::w)) = none →
          controlAction (scanToken ((bytes "animation").drop (9-k)++s')).1.type = none := by
        intro c w he h0 h1 h2 h3 h4 h5 hw hc
        rw [he,scan c w h0 h1 h2 h3 h4 h5 hw]
        exact hc
      rcases hk with rfl | rfl | rfl
      · exact hend 116 [105,111,110] rfl (by decide) (by decide) (by decide) (by decide) rfl rfl
          (List.all_eq_true.mp rfl) (by decide)
      · exact hend 97 [116,105,111,110] rfl (by decide) (by decide) (by decide) (by decide) rfl rfl
          (List.all_eq_true.mp rfl) (by decide)
      · exact hend 109 [97,116,105,111,110] rfl (by decide) (by decide) (by decide) (by decide) rfl
          rfl (List.all_eq_true.mp rfl) (by decide)
  | _ => simp [keyword] at htok

/-- An animation control fails. -/
theorem evalStatement_control {kind : Control} {us : List Token} (hp : Lexed p)
    (hs : s.loopCount ≤ 10000) (h : Ahead p (keyword kind.token::keyword .tokAnimation::us)) :
    ∃ q, evalStatement env (p,s) = .ok (false,q,s.noteFailure) := by
  obtain ⟨hc,hanim,-⟩ := h
  have hcount : ¬10000 < s.loopCount := by omega
  have fails : ∀ k, k = 4 ∨ k = 5 ∨ k = 6 →
      evalAnimationControl (rewind k (nextToken p)) s = .ok (false,rewind k (nextToken p),s) := by
    intro k hk
    rw [evalAnimationControl,rewind_animation (nextToken_lexed p) hanim hk]
  cases kind with
  | stop =>
      refine ⟨_,evalStatement_fails hp ((?_ : _ = _).trans (fails 4 (.inl rfl)))⟩
      simp [statementBody,hc,keyword,Control.token,hcount]
  | pause =>
      refine ⟨_,evalStatement_fails hp ((?_ : _ = _).trans (fails 5 (.inr (.inl rfl))))⟩
      simp [statementBody,hc,keyword,Control.token,hcount]
  | resume =>
      refine ⟨_,evalStatement_fails hp ((?_ : _ = _).trans (fails 6 (.inr (.inr rfl))))⟩
      simp [statementBody,hc,keyword,Control.token,hcount]

/-- A style block fails, or takes its child for the widget. -/
theorem statementBody_style (env : Env) {widget : Bytes} {child : Option Bytes} {us : List Token}
    (hs : s.loopCount ≤ 10000)
    (h : Ahead p (keyword .tokStyle::identToken widget::((child.map identToken).toList++lbrace::us))) :
    (∃ q, statementBody env (evalStatement env) (p,s) = .ok (false,q,s)) ∨
      ∃ c q, child = some c ∧ Lexed q ∧ Ahead q us ∧
        statementBody env (evalStatement env) (p,s) =
          (loop (fun x => remaining x.1) (fun x => endsBraces x.1.current.type)
            (styleProperty env c []) (q,s) >>= fun r =>
              if r.1 then .ok (true,(tryMatch r.2.1 .tokRbrace).2,r.2.2) else .ok r) := by
  obtain ⟨hc,hwidget,hrest⟩ := h
  have hbody : statementBody env (evalStatement env) (p,s) =
      evalStyleBlock env (rewind 5 (nextToken p)) s := by
    simp [statementBody,hc,keyword,show ¬10000 < s.loopCount by omega]
  rw [hbody]
  by_cases ht : (rewind 5 (nextToken p)).current.type = .tokStyle
  · have hnext := nextToken_rewind (nextToken_lexed p) hwidget ht (by decide) (by decide)
    rw [evalStyleBlock,expect,if_pos ht,hnext]
    cases child with
    | none =>
        left
        have hbrace : (nextToken (nextToken p)).current = lbrace := hrest.1
        exact ⟨_,by rw [expectText,if_neg (by rw [hbrace]; decide)]⟩
    | some c =>
        right
        obtain ⟨hchild,hbrace,hus⟩ := hrest
        refine ⟨c,_,rfl,nextToken_lexed _,hus,?_⟩
        simp only [expectText,hchild,identToken,if_true,hbrace,lbrace,reduceCtorEq,if_false,
          evalBraces,expect]
  · exact .inl ⟨_,expect_fails ht⟩

/-- A statement with nothing to record records nothing. -/
theorem evalStatement_bare {b : BlockStmt} (hb : b.isBare = true) (hp : Lexed p)
    (hs : s.loopCount ≤ 10000) (h : Ahead p (b.tokens++rest)) :
    ∃ ok q s', evalStatement env (p,s) = .ok (ok,q,s') ∧ SameRecords s s' ∧
      (ok = true → Lexed q ∧ Ahead q rest) := by
  cases b with
  | style widget child props =>
      obtain rfl : props = [] := by simpa [BlockStmt.isBare] using hb
      have h' : Ahead p (keyword .tokStyle::identToken widget::((child.map identToken).toList++
          lbrace::rbrace::rest)) := by simpa [BlockStmt.tokens] using h
      rcases statementBody_style env hs h' with ⟨q,hq⟩ | ⟨c,q,-,-,hq,hbody⟩
      · exact ⟨false,q,_,evalStatement_fails hp hq,sameRecords_noteFailure s,by simp⟩
      · refine ⟨true,nextToken q,s,?_,.refl s,fun _ => ⟨nextToken_lexed q,hq.2⟩⟩
        rw [evalStatement_eq env hp,statementStep,hbody,loop_stop (by simp [hq.1,rbrace,endsBraces])]
        simp [tryMatch,hq.1,rbrace]
  | keymap scope bindings =>
      obtain ⟨q,hq⟩ := evalStatement_keymap hp hs h
      exact ⟨false,q,_,hq,sameRecords_noteFailure s,by simp⟩
  | animate target name => simp [BlockStmt.isBare] at hb
  | control kind target => simp [BlockStmt.isBare] at hb

/-- The styles recorded so far stay at the front. -/
theorem styles_stable (l : List (Bytes × Bytes)) : Stable fun s => l <+: s.styles where
  recordSet _ _ _ h := h
  recordStyle _ _ _ h := h.trans (List.prefix_append _ _)
  recordKeymap _ _ h := h
  recordAnimation _ _ _ h := h
  reject _ _ h := h
  accept _ h := h
  setShow _ _ h := h
  noteFailure _ h := h
  countLoop _ h := h

/-- The properties of a style block: the evaluation of the first value is
undefined or fails, or its entry is recorded for good. -/
theorem styleLoop_records (env : Env) (c : Bytes) {q : Parser} {prop : Bytes} {us : List Token}
    (hq : Lexed q) (h : Ahead q (identToken prop::keyword .tokIs::us)) :
    loop (fun x : Config => remaining x.1) (fun x => endsBraces x.1.current.type)
        (styleProperty env c []) (q,s) = .undef ∨
      (∃ q', loop (fun x : Config => remaining x.1) (fun x => endsBraces x.1.current.type)
        (styleProperty env c []) (q,s) = .ok (false,q',s)) ∨
      ∃ v, Keeps (fun s' => s.styles++[(joinBars [c,[],prop,v],prop)] <+: s'.styles)
        (loop (fun x : Config => remaining x.1) (fun x => endsBraces x.1.current.type)
          (styleProperty env c []) (q,s)) := by
  obtain ⟨hprop,his,-⟩ := h
  have hshrink : Shrinks (fun x : Config => Lexed x.1) (fun x => remaining x.1)
      (fun x => endsBraces x.1.current.type) (styleProperty env c []) (remaining q+1) :=
    shrinks_of_forward _ fun x hx _ _ => styleProperty_ends env c [] hx
  have hstop : endsBraces q.current.type = false := by
    rw [hprop]
    rfl
  have hfirst : styleProperty env c [] (q,s) =
      expectValue env (nextToken (nextToken q)) s fun val p => asString val >>= fun val =>
        .ok (true,p,s.recordStyle (joinBars [c,[],prop,val]) prop) := by
    simp [styleProperty,expectText,hprop,identToken,expect,his,keyword]
  have hspin := evalExpression_ends env (nextToken_lexed (nextToken q))
  rw [loop_eq (x := (q,s)) hshrink hq (Nat.lt_succ_self _)]
  simp only [turn,hstop,hfirst,expectValue]
  cases hexp : evalExpression env (nextToken (nextToken q)) with
  | spin => exact absurd hexp hspin.ne_spin
  | undef => exact .inl rfl
  | ok x =>
      obtain ⟨val,q1⟩ := x
      cases val with
      | none => exact .inr (.inl ⟨q1,rfl⟩)
      | some val =>
          by_cases hlen : val.length < 256
          · refine .inr (.inr ⟨val,?_⟩)
            have hstr : asString val = .ok val := if_pos hlen
            simp only [ok_bind,hstr,Bool.false_eq_true,if_false,if_true]
            have hstable := styles_stable (s.styles++[(joinBars [c,[],prop,val],prop)])
            exact loop_keeps (x := (q1,s.recordStyle (joinBars [c,[],prop,val]) prop))
              (List.prefix_refl _) fun x hx => styleProperty_keeps hstable c [] x hx
          · have hstr : asString val = .undef := if_neg hlen
            exact .inl (by simp [hstr])

/-- A statement with something to record fails without a record, or records a
style entry with the child's name for the widget and no child. -/
theorem evalStatement_records {b : BlockStmt} (hb : b.isBare = false) (hp : Lexed p)
    (hs : s.loopCount ≤ 10000) (h : Ahead p (b.tokens++rest)) {success : Bool} {q : Parser}
    {s' : EvalState} (hr : evalStatement env (p,s) = .ok (success,q,s')) :
    success = false ∧ SameRecords s s' ∨
      ∃ w c prop e props v, b = .style w (some c) ((prop,e)::props) ∧
        s.styles++[(joinBars [c,[],prop,v],prop)] <+: s'.styles := by
  have failed : ∀ {q'}, evalStatement env (p,s) = .ok (false,q',s.noteFailure) →
      success = false ∧ SameRecords s s' := by
    intro q' he
    rw [he] at hr
    obtain ⟨rfl,-,rfl⟩ : false = success ∧ q' = q ∧ s.noteFailure = s' := by simpa using hr
    exact ⟨rfl,sameRecords_noteFailure s⟩
  cases b with
  | keymap scope bindings =>
      obtain ⟨q',hq⟩ : ∃ q', evalStatement env (p,s) = .ok (false,q',s.noteFailure) :=
        evalStatement_keymap hp hs h
      exact .inl (failed hq)
  | animate target name =>
      obtain ⟨q',hq⟩ : ∃ q', evalStatement env (p,s) = .ok (false,q',s.noteFailure) :=
        evalStatement_animate hp hs h
      exact .inl (failed hq)
  | control kind target =>
      obtain ⟨q',hq⟩ : ∃ q', evalStatement env (p,s) = .ok (false,q',s.noteFailure) :=
        evalStatement_control hp hs h
      exact .inl (failed hq)
  | style widget child props =>
      cases props with
      | nil => simp [BlockStmt.isBare] at hb
      | cons x props =>
          obtain ⟨prop,e⟩ := x
          simp only [BlockStmt.tokens,List.cons_append,List.append_assoc,List.flatMap_cons] at h
          rcases statementBody_style env hs h with ⟨q',hq⟩ | ⟨c,q',rfl,hlex,hq',hbody⟩
          · exact .inl (failed (evalStatement_fails hp hq))
          rcases styleLoop_records env c hlex hq' with hundef | ⟨q2,hq2⟩ | ⟨v,hkeep⟩
          · rw [evalStatement_eq env hp,statementStep,hbody,hundef] at hr
            simp at hr
          · rw [hq2] at hbody
            exact .inl (failed (evalStatement_fails hp hbody))
          · refine .inr ⟨widget,c,prop,e,props,v,rfl,?_⟩
            rw [evalStatement_eq env hp,statementStep,hbody] at hr
            obtain ⟨r,hr1,hr⟩ := bind_eq_ok.mp hr
            obtain ⟨r0,hr0,hr1⟩ := bind_eq_ok.mp hr1
            have hk := hkeep r0 hr0
            have hr2 : r.2.2 = r0.2.2 := by
              split_ifs at hr1 <;> (simp only [ok.injEq] at hr1; rw [← hr1])
            have hs' : s'.styles = r.2.2.styles := by
              split_ifs at hr <;> simp only [ok.injEq] at hr
              · rw [hr]
              · have he := congrArg (fun x : Bool × Config => x.2.2.styles) hr
                exact he.symm
            rw [hs',hr2]
            exact hk

end

/-! ## Executing a sequence -/

theorem append_bar_inj {a b x y : Bytes} (ha : 124 ∉ a) (hb : 124 ∉ b)
    (h : a++124::x = b++124::y) : a = b ∧ x = y := by
  induction a generalizing b with
  | nil =>
      cases b with
      | nil => exact ⟨rfl,(List.cons.inj h).2⟩
      | cons c b =>
          have hc : 124 = c := (List.cons.inj h).1
          exact absurd (hc ▸ List.mem_cons_self) hb
  | cons c a ih =>
      cases b with
      | nil =>
          have hc : c = 124 := (List.cons.inj h).1
          exact absurd (hc ▸ List.mem_cons_self) ha
      | cons d b =>
          obtain ⟨hcd,htail⟩ := List.cons.inj h
          simp only [List.mem_cons,not_or] at ha hb
          obtain ⟨rfl,rfl⟩ := ih ha.2 hb.2 htail
          exact ⟨by rw [hcd],rfl⟩

theorem Lexed.ident_chars {p : Parser} {w : Bytes} (hp : Lexed p) (h : p.current = identToken w) :
    w ≠ [] ∧ 124 ∉ w := by
  obtain ⟨hword,-,-⟩ := hp.word (w := w) (by rw [h]; rfl) (by rw [h]; simp [identToken])
  refine ⟨hword.ne_nil,fun hm => ?_⟩
  obtain ⟨j,hj,hjw⟩ := List.getElem_of_mem hm
  have hc := (hword.chars j hj).2
  rw [List.getD_eq_getElem w 0 hj,hjw] at hc
  exact absurd hc (by decide)

/-- An entry without the child is not the entry written. -/
theorem joinBars_child_ne {w c prop v v' : Bytes} (hw : 124 ∉ w) (hc : c ≠ [] ∧ 124 ∉ c) :
    joinBars [c,[],prop,v] ≠ joinBars [w,c,prop,v'] := by
  intro h
  obtain ⟨-,h⟩ := append_bar_inj hc.2 hw h
  obtain ⟨h,-⟩ := append_bar_inj (List.not_mem_nil) hc.2 h
  exact hc.1 h.symm

theorem BlockStmt.tokens_head (b : BlockStmt) : ∃ t ts, b.tokens = t::ts ∧ t.type ≠ .tokEof := by
  cases b with
  | control kind target => exact ⟨_,_,rfl,by cases kind <;> simp [Control.token,keyword]⟩
  | _ => exact ⟨_,_,rfl,by simp [keyword]⟩

section
variable {env : Env}

/-- One statement and those behind it. -/
theorem evalStatements_block {b : BlockStmt} {us : List Token} {p : Parser} {s : EvalState}
    (hp : Lexed p) (h : Ahead p (b.tokens++us)) :
    evalStatements (evalStatement env) (· = .tokEof) (p,s) =
      evalStatement env (p,s) >>= fun r =>
        if r.1 then evalStatements (evalStatement env) (· = .tokEof) r.2 else .ok r := by
  obtain ⟨t,ts,ht,hne⟩ := b.tokens_head
  have hc : p.current = t := by
    rw [ht] at h
    exact h.1
  rw [evalStatements_eq env _ hp]
  simp [turn,hc,hne]

/-- Statements with nothing to record. -/
theorem evalStatements_bare (stmts : List BlockStmt) {p : Parser} {s : EvalState}
    (hb : ∀ b ∈ stmts, b.isBare = true) (hp : Lexed p) (hs : s.loopCount ≤ 10000)
    (h : Ahead p (stmts.flatMap BlockStmt.tokens++[{ type := .tokEof }])) :
    ∃ success q s', evalStatements (evalStatement env) (· = .tokEof) (p,s) = .ok (success,q,s') ∧
      SameRecords s s' := by
  induction stmts generalizing p s with
  | nil =>
      have hc : p.current = { type := .tokEof } := h.1
      exact ⟨true,p,s,loop_stop (by simp [hc]),.refl s⟩
  | cons b stmts ih =>
      rw [List.flatMap_cons,List.append_assoc] at h
      obtain ⟨success,q,s1,hr,hsame,hq⟩ : ∃ success q s', evalStatement env (p,s) =
          .ok (success,q,s') ∧ SameRecords s s' ∧ (success = true → Lexed q ∧ Ahead q _) :=
        evalStatement_bare (hb b (by simp)) hp hs h
      rw [evalStatements_block hp h,hr,ok_bind]
      cases success with
      | false => exact ⟨false,q,s1,rfl,hsame⟩
      | true =>
          obtain ⟨success,q2,s2,hr2,hsame2⟩ := ih (fun b hm => hb b (by simp [hm])) (hq rfl).1
            (by rw [hsame.loopCount]; exact hs) (hq rfl).2
          exact ⟨success,q2,s2,hr2,hsame.trans hsame2⟩

/-- Statements with something to record: nothing is recorded, or the first style
entry has the wrong names. -/
theorem evalStatements_records (stmts : List BlockStmt) {p : Parser} {s : EvalState}
    (hb : ∃ b ∈ stmts, b.isBare = false) (hp : Lexed p) (hs : s.loopCount ≤ 10000)
    (h : Ahead p (stmts.flatMap BlockStmt.tokens++[{ type := .tokEof }])) {x : Bool × Config}
    (hr : evalStatements (evalStatement env) (· = .tokEof) (p,s) = .ok x) :
    SameRecords s x.2.2 ∨ ∃ w c prop v names, stmts.flatMap BlockStmt.styles = (w,c,prop)::names ∧
      124 ∉ w ∧ (c ≠ [] ∧ 124 ∉ c) ∧
      s.styles++[(joinBars [c,[],prop,v],prop)] <+: x.2.2.styles := by
  induction stmts generalizing p s with
  | nil => simp at hb
  | cons b stmts ih =>
      rw [List.flatMap_cons,List.append_assoc] at h
      rw [evalStatements_block hp h] at hr
      obtain ⟨⟨success,q,s1⟩,hr1,hr⟩ := bind_eq_ok.mp hr
      cases hbare : b.isBare with
      | true =>
          obtain ⟨success',q',s1',hr1',hsame,hq⟩ : ∃ success q s', evalStatement env (p,s) =
              .ok (success,q,s') ∧ SameRecords s s' ∧ (success = true → Lexed q ∧ Ahead q _) :=
            evalStatement_bare hbare hp hs h
          rw [hr1] at hr1'
          obtain ⟨rfl,rfl,rfl⟩ : success = success' ∧ q = q' ∧ s1 = s1' := by simpa using hr1'
          cases success with
          | false =>
              obtain rfl : (false,q,s1) = x := by simpa using hr
              exact .inl hsame
          | true =>
              have hb' : ∃ b ∈ stmts, b.isBare = false := by
                obtain ⟨b',hm,hb'⟩ := hb
                rcases List.mem_cons.mp hm with rfl | hm
                · rw [hbare] at hb'
                  simp at hb'
                · exact ⟨b',hm,hb'⟩
              have hnone : b.styles = [] := by
                cases b with
                | style w c props =>
                    obtain rfl : props = [] := by simpa [BlockStmt.isBare] using hbare
                    rfl
                | _ => rfl
              rcases ih hb' (hq rfl).1 (by rw [hsame.loopCount]; exact hs) (hq rfl).2 hr with
                h1 | ⟨w,c,prop,v,names,hn,hw,hc,hpre⟩
              · exact .inl (hsame.trans h1)
              · refine .inr ⟨w,c,prop,v,names,?_,hw,hc,?_⟩
                · rw [List.flatMap_cons,hnone,List.nil_append,hn]
                · rw [← hsame.styles]
                  exact hpre
      | false =>
          rcases evalStatement_records hbare hp hs h hr1 with
            ⟨rfl,hsame⟩ | ⟨w,c,prop,e,props,v,rfl,hpre⟩
          · obtain rfl : (false,q,s1) = x := by simpa using hr
            exact .inl hsame
          · obtain ⟨-,hw,hc,-⟩ := h
            refine .inr ⟨w,c,prop,v,_,rfl,((nextToken_lexed _).ident_chars hw).2,
              (nextToken_lexed _).ident_chars hc,?_⟩
            have hstable := styles_stable (s.styles++[(joinBars [c,[],prop,v],prop)])
            dsimp only at hr
            split_ifs at hr with hsucc
            · exact evalStatements_keeps (evalStatement_keeps hstable) hpre _ hr
            · obtain rfl : (success,q,s1) = x := by simpa using hr
              exact hpre

/-- Every text of a sequence of block statements, however it is laid out, is
recorded as written exactly when no statement has anything to record. -/
theorem filEval_records_iff (env : Env) (stmts : List BlockStmt) (script : Bytes)
    (h : Ahead (firstToken script) (stmts.flatMap BlockStmt.tokens++[{ type := .tokEof }])) :
    (∃ result, filEval env script = .ok result ∧ Recorded stmts result) ↔
      ∀ b ∈ stmts, b.isBare = true := by
  constructor
  · rintro ⟨result,hr,hrec⟩
    by_contra hb
    push Not at hb
    obtain ⟨b,hm,hb⟩ := hb
    have hb : b.isBare = false := by simpa using hb
    obtain ⟨x,hx,hres⟩ := bind_eq_ok.mp hr
    obtain rfl : FilResult.ofState x.2.2 = result := by simpa using hres
    rcases evalStatements_records stmts ⟨b,hm,hb⟩ (nextToken_lexed _) (Nat.zero_le _) h hx with
      hsame | ⟨w,c,prop,v,names,hn,hw,hc,hpre⟩
    · -- Something was to be recorded, and nothing was.
      have hstyles := hrec.styles
      rw [show (FilResult.ofState x.2.2).styles = [] from hsame.styles] at hstyles
      have hkeymaps := hrec.keymaps
      rw [show (FilResult.ofState x.2.2).keymaps = [] from hsame.keymaps] at hkeymaps
      have hanimations := hrec.animations
      rw [show (FilResult.ofState x.2.2).animations = [] from hsame.animations] at hanimations
      rw [List.forall₂_nil_right_iff,List.flatMap_eq_nil_iff] at hstyles
      have hk := List.flatMap_eq_nil_iff.mp hkeymaps.symm
      have ha := List.flatMap_eq_nil_iff.mp hanimations.symm
      cases b with
      | style w c props =>
          have hp := hstyles _ hm
          simp [BlockStmt.styles] at hp
          simp [BlockStmt.isBare,hp] at hb
      | keymap scope bindings =>
          have hp := hk _ hm
          simp [BlockStmt.keymaps] at hp
          simp [BlockStmt.isBare,hp] at hb
      | animate target name => simpa [BlockStmt.animations] using ha _ hm
      | control kind target => simpa [BlockStmt.animations] using ha _ hm
    · -- The first style entry has the wrong names.
      obtain ⟨more,hmore⟩ := hpre
      have hstyles := hrec.styles
      rw [hn,show (FilResult.ofState x.2.2).styles = x.2.2.styles from rfl,← hmore] at hstyles
      cases hstyles with
      | cons hfirst _ =>
          obtain ⟨v',hv'⟩ := hfirst
          exact joinBars_child_ne hw hc (Prod.mk.inj hv').1
  · intro hb
    obtain ⟨success,q,s,hrun,hsame⟩ : ∃ success q s,
        runScript env script = .ok (success,q,s) ∧ SameRecords {} s :=
      evalStatements_bare stmts hb (nextToken_lexed _) (Nat.zero_le _) h
    refine ⟨.ofState s,by simp [filEval,hrun],?_,?_,?_⟩
    · rw [show (FilResult.ofState s).styles = [] from hsame.styles,List.forall₂_nil_right_iff,
        List.flatMap_eq_nil_iff]
      intro b hm
      have hbare := hb b hm
      cases b <;> simp_all [BlockStmt.isBare,BlockStmt.styles]
    · rw [show (FilResult.ofState s).keymaps = [] from hsame.keymaps,eq_comm,
        List.flatMap_eq_nil_iff]
      intro b hm
      have hbare := hb b hm
      cases b <;> simp_all [BlockStmt.isBare,BlockStmt.keymaps]
    · rw [show (FilResult.ofState s).animations = [] from hsame.animations,eq_comm,
        List.flatMap_eq_nil_iff]
      intro b hm
      have hbare := hb b hm
      cases b <;> simp_all [BlockStmt.isBare,BlockStmt.animations]

end

/-- An empty style block and an empty keymap block. -/
theorem filEval_records_bare :
    ∃ result, filEval emptyStore (bytes "style w\x7b\x7d keymap k \x7b\n\x7d") = .ok result ∧
      Recorded [.style (bytes "w") none [],.keymap (bytes "k") []] result :=
  (filEval_records_iff emptyStore [.style (bytes "w") none [],.keymap (bytes "k") []]
    (bytes "style w\x7b\x7d keymap k \x7b\n\x7d") (by decide +kernel)).mpr (by decide)

/-- `animate "t" with "n"` is not recorded. -/
theorem animate_not_recorded :
    Ahead (firstToken (bytes "animate \"t\" with \"n\""))
        (([.animate (bytes "t") (bytes "n")] : List BlockStmt).flatMap BlockStmt.tokens++
          [{ type := .tokEof }]) ∧
      ¬∃ result, filEval emptyStore (bytes "animate \"t\" with \"n\"") = .ok result ∧
        Recorded [.animate (bytes "t") (bytes "n")] result := by
  refine ⟨by decide +kernel,?_⟩
  rintro ⟨result,hr,hrec⟩
  have hs : filEval emptyStore (bytes "animate \"t\" with \"n\"") = .ok (.ofState {}) := by
    decide +kernel
  rw [hs] at hr
  obtain rfl : FilResult.ofState {} = result := by simpa using hr
  exact absurd hrec.animations (by decide)

end Filly.Fil

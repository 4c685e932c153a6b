import Filly.FilProgress

/-!
# What becomes of a failed script

A statement that fails ends the evaluation, and so does a character that starts
no token; the result then says what the statements so far have said. So a
script that was not read to its end is accepted without an error unless one of
the statements executed before was a `reject`, not taken back by an `accept`.

The first part is general: a property of the state that every single update
keeps is kept by every statement and every run.
-/
namespace Filly.Fil
open CJson Descent Outcome

/-! ## Properties kept by every update -/

/-- The property is kept by each single update of the state. -/
structure Stable (I : EvalState → Prop) : Prop where
  recordSet : ∀ s key val, I s → I (s.recordSet key val)
  recordStyle : ∀ s entry prop, I s → I (s.recordStyle entry prop)
  recordKeymap : ∀ s entry, I s → I (s.recordKeymap entry)
  recordAnimation : ∀ s target name, I s → I (s.recordAnimation target name)
  reject : ∀ s msg, I s → I (s.reject msg)
  accept : ∀ s, I s → I s.accept
  setShow : ∀ s b, I s → I (s.setShow b)
  noteFailure : ∀ s, I s → I s.noteFailure
  countLoop : ∀ s, I s → I s.countLoop

def Keeps (I : EvalState → Prop) (r : Run) : Prop := ∀ x, r = .ok x → I x.2.2

section
variable {I : EvalState → Prop} {env : Env}

theorem keeps_ok {b : Bool} {p : Parser} {s : EvalState} (h : I s) : Keeps I (.ok (b,p,s)) := by
  rintro x hx
  obtain rfl : (b,p,s) = x := by simpa using hx
  exact h

theorem keeps_bind {α : Type} {x : Outcome α} {f : α → Run} (h : ∀ a, x = .ok a → Keeps I (f a)) :
    Keeps I (x >>= f) := by
  intro y hy
  obtain ⟨a,ha,hf⟩ := bind_eq_ok.mp hy
  exact h a ha y hf

theorem Keeps.bind {r : Run} {f : Bool × Config → Run} (hr : Keeps I r)
    (h : ∀ x, I x.2.2 → Keeps I (f x)) : Keeps I (r >>= f) :=
  keeps_bind fun x hx => h x (hr x hx)

theorem expect_keeps {t : TokenType} {p : Parser} {s : EvalState} {rest : Parser → Run} (hs : I s)
    (h : ∀ q, Keeps I (rest q)) : Keeps I (expect t p s rest) := by
  unfold expect
  split_ifs
  · exact h _
  · exact keeps_ok hs

theorem expectText_keeps {t : TokenType} {p : Parser} {s : EvalState}
    {rest : Bytes → Parser → Run} (hs : I s) (h : ∀ text q, Keeps I (rest text q)) :
    Keeps I (expectText t p s rest) := by
  unfold expectText
  split_ifs
  · cases p.current.text with
    | none => exact fun x hx => by simp at hx
    | some text => exact h _ _
  · exact keeps_ok hs

theorem expectValue_keeps {p : Parser} {s : EvalState} {rest : Bytes → Parser → Run} (hs : I s)
    (h : ∀ v q, Keeps I (rest v q)) : Keeps I (expectValue env p s rest) := by
  refine keeps_bind fun r _ => ?_
  cases r.1 with
  | none => exact keeps_ok hs
  | some v => exact h _ _

theorem loop_keeps {stop : Config → Bool} {body : Config → Run} {x : Config}
    (hx : I x.2) (h : ∀ x, I x.2 → Keeps I (body x)) :
    Keeps I (loop (fun x => remaining x.1) stop body x) := by
  intro y hy
  have key := @loop_preserves Config (fun x => remaining x.1) stop body (fun x => I x.2)
  exact key (fun x b y hx hy => h x hx _ hy) hx hy

theorem evalStatements_keeps {f : Config → Run} {stop : TokenType → Bool} {p : Parser}
    {s : EvalState} (hf : ∀ x, I x.2 → Keeps I (f x)) (hs : I s) :
    Keeps I (evalStatements f stop (p,s)) := loop_keeps hs hf

theorem evalBlock_keeps {f : Config → Run} {p : Parser} {s : EvalState}
    (hf : ∀ x, I x.2 → Keeps I (f x)) (hs : I s) : Keeps I (evalBlock f p s) :=
  evalStatements_keeps hf hs

theorem evalBraces_keeps {item : Config → Run} {p : Parser} {s : EvalState} (hs : I s)
    (h : ∀ x, I x.2 → Keeps I (item x)) : Keeps I (evalBraces item p s) :=
  expect_keeps hs fun q => (loop_keeps (x := (q,s)) hs h).bind fun r hr => by
    split_ifs
    · exact keeps_ok hr
    · exact keeps_ok hr

theorem evalWhen_keeps {f : Config → Run} {p : Parser} {s : EvalState}
    (hf : ∀ x, I x.2 → Keeps I (f x)) (hs : I s) : Keeps I (evalWhen env f p s) := by
  refine expectValue_keeps hs fun cond q => ?_
  split_ifs
  · refine (evalBlock_keeps hf hs).bind fun r hr => ?_
    split_ifs <;> exact keeps_ok hr
  · refine (evalStatements_keeps hf hs).bind fun r hr => ?_
    split_ifs
    · exact (evalBlock_keeps hf hr).bind fun r hr => keeps_ok hr
    · exact keeps_ok hr
    · exact keeps_ok hr

variable (hI : Stable I)
include hI

theorem Stable.recordItems (s : EvalState) (var : Bytes) (items : List Json) (hs : I s) :
    I (s.recordItems var items) := by
  induction items generalizing s with
  | nil => exact hs
  | cons item items ih =>
      rw [EvalState.recordItems]
      split_ifs
      · cases item.valuestring with
        | some v => exact ih _ (hI.recordSet _ _ _ (hI.countLoop _ hs))
        | none => exact ih _ (hI.countLoop _ hs)
      · exact hs

theorem styleProperty_keeps (widget child : Bytes) (x : Config) (hx : I x.2) :
    Keeps I (styleProperty env widget child x) :=
  expectText_keeps hx fun _ _ => expect_keeps hx fun _ => expectValue_keeps hx fun _ _ =>
  keeps_bind fun _ _ => keeps_ok (hI.recordStyle _ _ _ hx)

theorem keymapBinding_keeps (scope : Bytes) (x : Config) (hx : I x.2) :
    Keeps I (keymapBinding scope x) :=
  expect_keeps hx fun _ => expect_keeps hx fun _ => expect_keeps hx fun _ =>
  expectText_keeps hx fun _ _ => expect_keeps hx fun _ => expectText_keeps hx fun _ _ =>
  expect_keeps hx fun _ => keeps_ok (hI.recordKeymap _ _ hx)

theorem evalStyleBlock_keeps {p : Parser} {s : EvalState} (hs : I s) :
    Keeps I (evalStyleBlock env p s) :=
  expect_keeps hs fun _ => expectText_keeps hs fun widget _ => by
    split_ifs
    · exact expectText_keeps hs fun child _ =>
        evalBraces_keeps hs (styleProperty_keeps hI widget child)
    · exact evalBraces_keeps hs (styleProperty_keeps hI widget [])

theorem evalKeymapBlock_keeps {p : Parser} {s : EvalState} (hs : I s) :
    Keeps I (evalKeymapBlock p s) :=
  expect_keeps hs fun _ => expectText_keeps hs fun scope _ =>
  evalBraces_keeps hs (keymapBinding_keeps hI scope)

theorem evalAnimateStatement_keeps {p : Parser} {s : EvalState} (hs : I s) :
    Keeps I (evalAnimateStatement p s) :=
  expect_keeps hs fun _ => expectText_keeps hs fun _ _ => expect_keeps hs fun _ =>
  expectText_keeps hs fun _ _ => keeps_ok (hI.recordAnimation _ _ _ hs)

theorem evalAnimationControl_keeps {p : Parser} {s : EvalState} (hs : I s) :
    Keeps I (evalAnimationControl p s) := by
  unfold evalAnimationControl
  cases controlAction p.current.type with
  | none => exact keeps_ok hs
  | some action =>
      exact expect_keeps hs fun _ => expect_keeps hs fun _ => expectText_keeps hs fun _ _ =>
        keeps_ok (hI.recordAnimation _ _ _ hs)

theorem statementBody_keeps {f : Config → Run} (hf : ∀ x, I x.2 → Keeps I (f x)) (x : Config)
    (hx : I x.2) : Keeps I (statementBody env f x) := by
  have hset : ∀ p, Keeps I (evalSet env p x.2) := fun p =>
    expectText_keeps hx fun _ _ => expect_keeps hx fun _ => expectValue_keeps hx fun _ _ =>
    keeps_bind fun _ _ => keeps_ok (hI.recordSet _ _ _ hx)
  unfold statementBody
  dsimp only
  split
  · exact keeps_ok hx
  cases x.1.current.type with
  | tokAnimate => exact evalAnimateStatement_keeps hI hx
  | tokStop => exact evalAnimationControl_keeps hI hx
  | tokPause => exact evalAnimationControl_keeps hI hx
  | tokResume => exact evalAnimationControl_keeps hI hx
  | tokStyle => exact evalStyleBlock_keeps hI hx
  | tokKeymap => exact evalKeymapBlock_keeps hI hx
  | tokWhen => exact evalWhen_keeps hf hx
  | tokLet => exact hset _
  | tokSet => exact hset _
  | tokReject =>
      exact expect_keeps hx fun _ => expectText_keeps hx fun _ _ => keeps_ok (hI.reject _ _ hx)
  | tokAccept => exact keeps_ok (hI.accept _ hx)
  | tokShow => exact expectValue_keeps hx fun _ _ => keeps_ok (hI.setShow _ _ hx)
  | tokFor =>
      exact expectText_keeps hx fun _ _ => expect_keeps hx fun _ => expectText_keeps hx fun _ _ =>
        expect_keeps hx fun _ => keeps_bind fun _ _ => keeps_ok (hI.recordItems _ _ _ hx)
  | _ => exact keeps_ok hx

/-- What every update keeps, every statement keeps. -/
theorem evalStatement_keeps (x : Config) (hx : I x.2) : Keeps I (evalStatement env x) := by
  have key := @descend_induct Config (Bool × Config) (fun x => remaining x.1) (statementStep env)
    (fun x r => I x.2 → Keeps I r)
  refine key (fun x _ y hy => by simp at hy) (fun f hf x hx => ?_) x hx
  refine (statementBody_keeps hI hf x hx).bind fun r hr => ?_
  split_ifs
  · exact keeps_ok hr
  · exact keeps_ok (hI.noteFailure _ hr)

/-- What every update keeps and the initial state satisfies holds in the end. -/
theorem runScript_keeps (script : Bytes) (h0 : I {}) : Keeps I (runScript env script) :=
  evalStatements_keeps (evalStatement_keeps hI) h0

end

/-! ## Verdicts and failures -/

/-- Whether the last verdict of a run is a rejection. -/
def rejectInForce (log : List Event) : Bool :=
  log.foldl (fun b e =>
    match e with
    | .accepted => false
    | .rejected => true
    | .failed => b) false

/-- The flag, the message and the verdicts executed agree. -/
structure Coupled (s : EvalState) : Prop where
  message : s.errorMsg.isSome = s.rejected
  verdict : s.rejected = rejectInForce s.log

theorem coupled_stable : Stable Coupled where
  recordSet _ _ _ h := ⟨h.message,h.verdict⟩
  recordStyle _ _ _ h := ⟨h.message,h.verdict⟩
  recordKeymap _ _ h := ⟨h.message,h.verdict⟩
  recordAnimation _ _ _ h := ⟨h.message,h.verdict⟩
  reject _ _ _ := ⟨rfl,by simp [rejectInForce,EvalState.reject]⟩
  accept _ _ := ⟨rfl,by simp [rejectInForce,EvalState.accept]⟩
  setShow _ _ h := ⟨h.message,h.verdict⟩
  noteFailure s h := ⟨h.message,by
    have hv := h.verdict
    simpa [rejectInForce,EvalState.noteFailure] using hv⟩
  countLoop _ h := ⟨h.message,h.verdict⟩

/-- A failed statement is in the log. -/
theorem evalStatement_false {env : Env} {x y : Config} (h : evalStatement env x = .ok (false,y)) :
    Event.failed ∈ y.2.log := by
  change statementStep env _ x = _ at h
  obtain ⟨r,-,h⟩ := bind_eq_ok.mp h
  split_ifs at h with hb
  · obtain rfl : r = (false,y) := by simpa using h
    simp at hb
  · obtain rfl : (r.2.1,r.2.2.noteFailure) = y := by simpa using h
    simp [EvalState.noteFailure]

/-- The evaluation met no unknown character and no statement that failed. -/
def Undisturbed (x : Config) : Prop := x.1.unknown = false ∧ Event.failed ∉ x.2.log

/-- The script was executed up to the end of its text, all statements in it
successfully. -/
def Completed (x : Config) : Prop := Undisturbed x ∧ x.1.src.getD x.1.start 0 = 0

theorem completed_of_undisturbed {env : Env} {script : Bytes} {b : Bool} {x : Config}
    (h : runScript env script = .ok (b,x)) (hx : Undisturbed x) : Completed x := by
  refine ⟨hx,?_⟩
  obtain ⟨hl,ht⟩ := (runScript_ends env script).of_eq h
  cases b with
  | true => exact hl.at_end (ht rfl) hx.1
  | false =>
      have hloop : loop (fun x : Config => remaining x.1)
          (fun x => decide (x.1.current.type = .tokEof)) (evalStatement env)
          (firstToken script,{}) = .ok (false,x) := h
      obtain ⟨z,hz⟩ := loop_false hloop
      exact absurd (evalStatement_false hz) hx.2

/-- A result that is accepted and has no error means a completed script. -/
def FailsClosed (env : Env) (script : Bytes) : Prop :=
  ∀ result, filEval env script = .ok result → result.accepted = true → result.errorMsg = none →
    ∃ b x, runScript env script = .ok (b,x) ∧ Completed x

end Filly.Fil

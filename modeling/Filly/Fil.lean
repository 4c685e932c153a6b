import Filly.Descent
import Filly.FilLexer
import Mathlib.Data.List.DropRight

/-!
# The FIL evaluator

This is the evaluator of `script/fil.c`: a recursive reader of tokens that acts
as it reads. Reading text from a NULL pointer and reading a string from a full
buffer without a terminating NUL are undefined. The POSIX regular expressions
are a parameter. An identifier keeps its text as lexed while the next token is
read, although the source has freed it by then. The loops and recursive calls
are those of the source, cut off by the number of characters left; the alarm of
`fil_eval` is not modelled.
-/
namespace Filly.Fil
open CJson Descent

/-- What an evaluation reads from outside. `regcomp` gives the matcher of a
valid pattern. -/
structure Env where
  storeGet : Option (Bytes → Option Bytes)
  value : Option Bytes
  regcomp : Bytes → Option (Bytes → Bool)

/-- An empty store, no value and no valid pattern. -/
def emptyStore : Env := { storeGet := some fun _ => none, value := none, regcomp := fun _ => none }

/-- A call of `store_get`, which may be NULL. -/
def Env.lookup (env : Env) (key : Bytes) : Outcome (Option Bytes) :=
  match env.storeGet with
  | none => .undef
  | some get => .ok (get key)

/-! ## Buffers of 256 bytes -/

/-- `strncpy` into a buffer. -/
def strncpy (s : Bytes) : Bytes := s.take 256

/-- `snprintf` into a buffer. -/
def snprintf (s : Bytes) : Bytes := s.take 255

/-- Use a buffer as a string. -/
def asString (buf : Bytes) : Outcome Bytes :=
  if buf.length < 256 then .ok buf else Outcome.undef

/-- `strcmp(l, r) == 0` of two buffers: only equal full buffers are read past
their end. -/
def strcmpEq (l r : Bytes) : Outcome Bool :=
  if l = r then if l.length < 256 then .ok true else .undef else .ok false

/-- `atoi` of a buffer: it reads past the end of a full one only when the number
goes up to the end. -/
def atoiBuf (buf : Bytes) : Outcome ℤ :=
  if buf.length < 256 ∨ (strtolSpan buf).2.2 ≠ [] then .ok (atoi buf) else Outcome.undef

/-- The text `"1"` or `""`. -/
def truth (b : Bool) : Bytes := if b then [49] else []

/-- The format `%d`. -/
def intText (v : ℤ) : Bytes :=
  (if v < 0 then [45] else [])++(Nat.toDigits 10 v.natAbs).map fun c => UInt8.ofNat c.toNat

def toUpper (c : UInt8) : UInt8 := if 97 ≤ c && c ≤ 122 then c-32 else c

def toLower (c : UInt8) : UInt8 := if 65 ≤ c && c ≤ 90 then c+32 else c

/-- The result of an expression and the parser behind it; there is no result
where the source returns 0. -/
abbrev Read := Outcome (Option Bytes × Parser)

def matchPattern (env : Env) (pattern subject : Bytes) (p : Parser) : Read := do
  let pattern ← asString pattern
  match env.regcomp pattern with
  | none => .ok (none,p)
  | some matcher => do
      let subject ← asString subject
      .ok (some (truth (matcher subject)),p)

/-! ## Expressions -/

def evalFunction (env : Env) (evalPrimary : Parser → Read) (p : Parser) : Read :=
  match p.current.text with
  | none => .undef
  | some text => do
      let func := text.take 63
      let (isOf,p) := tryMatch (nextToken p) .tokOf
      if !isOf then .ok (none,p)
      else
        let (arg,p) ← evalPrimary p
        match arg with
        | none => .ok (none,p)
        | some arg =>
            if func = bytes "length" then do
              let arg ← asString arg
              .ok (some (snprintf (intText arg.length)),p)
            else if func = bytes "uppercase" then do
              let arg ← asString arg
              .ok (some (strncpy (arg.map toUpper)),p)
            else if func = bytes "lowercase" then do
              let arg ← asString arg
              .ok (some (strncpy (arg.map toLower)),p)
            else if func = bytes "trim" then do
              let arg ← asString arg
              .ok (some (strncpy ((arg.dropWhile (· = 32)).rdropWhile (· = 32))),p)
            else if func = bytes "match" then do
              let (isWith,p) := tryMatch p .tokWith
              if !isWith then .ok (none,p)
              else
                let (pattern,p) ← evalPrimary p
                match pattern with
                | none => .ok (none,p)
                | some pattern => matchPattern env pattern arg p
            else .ok (none,p)

def primaryStep (env : Env) (evalPrimary : Parser → Read) (p : Parser) : Read :=
  match p.current.type with
  | .tokEmpty => .ok (some [],nextToken p)
  | .tokNot => do
      let (inner,p) ← evalPrimary (nextToken p)
      .ok (inner.map fun v => truth (v = []),p)
  | .tokIdent =>
      match p.current.text with
      | none => .undef
      | some key =>
          if key = bytes "value" then .ok (some (strncpy (env.value.getD [])),nextToken p)
          else do
            let key := if key.take 6 = bytes "store." then key.drop 6 else key
            let val ← env.lookup key
            .ok (some (strncpy (val.getD [])),nextToken p)
  | .tokString =>
      match p.current.text with
      | none => .undef
      | some text => .ok (some (strncpy text),nextToken p)
  | .tokNumber => .ok (some (snprintf (intText p.current.num)),nextToken p)
  | _ =>
      if (p.current.text.bind List.head?).any isAlpha then
        let p := nextToken p
        if p.current.type = .tokOf then evalFunction env evalPrimary p else .ok (none,p)
      else evalFunction env evalPrimary p

/-- How much of the script lies ahead; every loop and recursion lowers it. -/
def remaining (p : Parser) : ℕ := p.src.length-p.start

def evalPrimary (env : Env) : Parser → Read := descend remaining (primaryStep env)

/-- `is [not] less than` and `is [not] greater than`. -/
def evalOrder (env : Env) (holds : ℤ → ℤ → Bool) (negate : Bool) (left : Bytes) (p : Parser) :
    Read := do
  let (_,p) := tryMatch p .tokThan
  let (right,p) ← evalPrimary env p
  match right with
  | none => .ok (none,p)
  | some right => do
      let l ← atoiBuf left
      let r ← atoiBuf right
      .ok (some (truth (holds l r != negate)),p)

/-- What follows `is` and an optional `not`. -/
def comparisonIs (env : Env) (negate : Bool) (left : Bytes) (p : Parser) : Read :=
  match p.current.type with
  | .tokEmpty => .ok (some (truth (decide (left = []) != negate)),nextToken p)
  | .tokLess => evalOrder env (fun l r => l < r) negate left (nextToken p)
  | .tokGreater => evalOrder env (fun l r => l > r) negate left (nextToken p)
  | _ => do
      let (right,p) ← evalPrimary env p
      match right with
      | none => .ok (none,p)
      | some right => do
          let eq ← strcmpEq left right
          .ok (some (truth (eq != negate)),p)

/-- What follows the left operand of a comparison. -/
def comparisonRest (env : Env) (left : Bytes) (p : Parser) : Read :=
  if p.current.type = .tokIs then
    let (negate,p) := tryMatch (nextToken p) .tokNot
    comparisonIs env negate left p
  else if p.current.type = .tokMatches then do
    let (pattern,p) ← evalPrimary env (nextToken p)
    match pattern with
    | none => .ok (none,p)
    | some pattern => matchPattern env pattern left p
  else .ok (some (strncpy left),p)

def evalComparison (env : Env) (p : Parser) : Read := do
  let (left,p) ← evalPrimary env p
  match left with
  | none => .ok (none,p)
  | some left => comparisonRest env left p

/-- One turn of the loop of `eval_expression`: the operator has been matched,
and then the token behind it is tested and passed over. -/
def operandTurn (env : Env) (x : Bytes × Parser) : Outcome (Bool × Bytes × Parser) := do
  let (left,p) := x
  let p := nextToken p
  let isOr := p.current.type = .tokOr
  let (right,p) ← evalComparison env (nextToken p)
  match right with
  | none => .ok (false,left,p)
  | some right =>
      .ok (true,truth (if isOr then left ≠ [] || right ≠ [] else left ≠ [] && right ≠ []),p)

def isOperator (t : TokenType) : Bool := t = .tokAnd || t = .tokOr

def evalExpression (env : Env) (p : Parser) : Read := do
  let (left,p) ← evalComparison env p
  match left with
  | none => .ok (none,p)
  | some left => do
      let (ok,left,p) ← loop (fun x => remaining x.2) (fun x => !isOperator x.2.current.type)
        (operandTurn env) (left,p)
      .ok (if ok then some (strncpy left) else none,p)

/-! ## Statements -/

/-- What a run is asked about later: the verdicts it executed and the
statements that failed. -/
inductive Event where
  | accepted
  | rejected
  | failed
  deriving DecidableEq, Repr

/-- The state of an evaluation. The source does not store `log`, and nothing
depends on it. -/
structure EvalState where
  sets : List (Bytes × Bytes) := []
  rejected : Bool := false
  errorMsg : Option Bytes := none
  showWidget : Bool := false
  loopCount : ℕ := 0
  styles : List (Bytes × Bytes) := []
  keymaps : List Bytes := []
  animations : List (Bytes × Bytes) := []
  log : List Event := []
  deriving DecidableEq, Repr

abbrev Config := Parser × EvalState

/-- Success or failure of a statement, with the parser and the state it leaves. -/
abbrev Run := Outcome (Bool × Config)

def EvalState.recordSet (s : EvalState) (key val : Bytes) : EvalState :=
  { s with sets := s.sets++[(key,val)] }

def EvalState.recordStyle (s : EvalState) (entry prop : Bytes) : EvalState :=
  { s with styles := s.styles++[(entry,prop)] }

def EvalState.recordKeymap (s : EvalState) (entry : Bytes) : EvalState :=
  { s with keymaps := s.keymaps++[entry] }

def EvalState.recordAnimation (s : EvalState) (target name : Bytes) : EvalState :=
  { s with animations := s.animations++[(target,name)] }

def EvalState.reject (s : EvalState) (msg : Bytes) : EvalState :=
  { s with rejected := true, errorMsg := some msg, log := s.log++[.rejected] }

def EvalState.accept (s : EvalState) : EvalState :=
  { s with rejected := false, errorMsg := none, log := s.log++[.accepted] }

def EvalState.noteFailure (s : EvalState) : EvalState := { s with log := s.log++[.failed] }

def EvalState.countLoop (s : EvalState) : EvalState := { s with loopCount := s.loopCount+1 }

def EvalState.setShow (s : EvalState) (b : Bool) : EvalState := { s with showWidget := b }

/-- The loop over the items of a stored array. -/
def EvalState.recordItems (s : EvalState) (var : Bytes) : List Json → EvalState
  | [] => s
  | item::items =>
      if s.loopCount < 10000 then
        match item.valuestring with
        | some v => (s.countLoop.recordSet var v).recordItems var items
        | none => s.countLoop.recordItems var items
      else s

/-- `if (!match(p, t)) return false;` and then the rest. -/
def expect (t : TokenType) (p : Parser) (s : EvalState) (rest : Parser → Run) : Run :=
  if p.current.type = t then rest (nextToken p) else .ok (false,p,s)

/-- `if (p->current.type != t) return false;`, a copy of the text, the next token,
and then the rest. -/
def expectText (t : TokenType) (p : Parser) (s : EvalState) (rest : Bytes → Parser → Run) : Run :=
  if p.current.type = t then
    match p.current.text with
    | none => .undef
    | some text => rest text (nextToken p)
  else .ok (false,p,s)

/-- `if (!eval_expression(p, v, sizeof(v))) return false;` and then the rest. -/
def expectValue (env : Env) (p : Parser) (s : EvalState) (rest : Bytes → Parser → Run) : Run :=
  evalExpression env p >>= fun r =>
    match r.1 with
    | none => .ok (false,r.2,s)
    | some v => rest v r.2

/-- `while (type is none of these) next_token(p)`. -/
def skipUntil (stop : TokenType → Bool) (p : Parser) : ℕ → Parser
  | 0 => p
  | n+1 => if stop p.current.type then p else skipUntil stop (nextToken p) n

def skipTo (t : TokenType) (p : Parser) : Parser :=
  skipUntil (fun u => u = t || u = .tokEof) p (remaining p)

/-- The statements up to a token where the caller's loop stops. -/
def evalStatements (evalStatement : Config → Run) (stop : TokenType → Bool) : Config → Run :=
  loop (fun x => remaining x.1) (fun x => stop x.1.current.type) evalStatement

def endsBlock (t : TokenType) : Bool := t = .tokEnd || t = .tokElse || t = .tokEof

def evalBlock (evalStatement : Config → Run) (p : Parser) (s : EvalState) : Run :=
  evalStatements evalStatement endsBlock ((tryMatch p .tokThen).2,s)

def endsBraces (t : TokenType) : Bool := t = .tokRbrace || t = .tokEof

/-- The text `a|b|...`. -/
def joinBars : List Bytes → Bytes
  | [] => []
  | [a] => a
  | a::as => a++124::joinBars as

/-- One property of a style block. -/
def styleProperty (env : Env) (widget child : Bytes) (x : Config) : Run :=
  expectText .tokIdent x.1 x.2 fun prop p =>
  expect .tokIs p x.2 fun p =>
  expectValue env p x.2 fun val p => do
    let val ← asString val
    .ok (true,p,x.2.recordStyle (joinBars [widget,child,prop,val]) prop)

/-- The loop over the properties or bindings of a block and its closing brace. -/
def evalBraces (item : Config → Run) (p : Parser) (s : EvalState) : Run :=
  expect .tokLbrace p s fun p =>
  loop (fun x => remaining x.1) (fun x => endsBraces x.1.current.type) item (p,s) >>= fun r =>
    if r.1 then .ok (true,(tryMatch r.2.1 .tokRbrace).2,r.2.2) else .ok r

def evalStyleBlock (env : Env) (p : Parser) (s : EvalState) : Run :=
  expect .tokStyle p s fun p =>
  expectText .tokIdent p s fun widget p =>
  if p.current.type = .tokIdent then
    expectText .tokIdent p s fun child p => evalBraces (styleProperty env widget child) p s
  else evalBraces (styleProperty env widget []) p s

/-- One binding of a keymap block. -/
def keymapBinding (scope : Bytes) (x : Config) : Run :=
  expect .tokWhen x.1 x.2 fun p =>
  expect .tokKey p x.2 fun p =>
  expect .tokIs p x.2 fun p =>
  expectText .tokString p x.2 fun key p =>
  expect .tokThen p x.2 fun p =>
  expectText .tokString p x.2 fun action p =>
  expect .tokEnd p x.2 fun p =>
  .ok (true,p,x.2.recordKeymap (joinBars [scope,key,action]))

def evalKeymapBlock (p : Parser) (s : EvalState) : Run :=
  expect .tokKeymap p s fun p =>
  expectText .tokIdent p s fun scope p =>
  evalBraces (keymapBinding scope) p s

def evalAnimateStatement (p : Parser) (s : EvalState) : Run :=
  expect .tokAnimate p s fun p =>
  expectText .tokString p s fun target p =>
  expect .tokWith p s fun p =>
  expectText .tokString p s fun name p =>
  .ok (true,p,s.recordAnimation target name)

/-- The name recorded for `stop`, `pause` and `resume`. -/
def controlAction : TokenType → Option Bytes
  | .tokStop => some (bytes "stop")
  | .tokPause => some (bytes "pause")
  | .tokResume => some (bytes "resume")
  | _ => none

def evalAnimationControl (p : Parser) (s : EvalState) : Run :=
  match controlAction p.current.type with
  | none => .ok (false,p,s)
  | some action =>
      expect .tokAnimation (nextToken p) s fun p =>
      expect .tokOn p s fun p =>
      expectText .tokString p s fun target p =>
      .ok (true,p,s.recordAnimation target action)

/-- `when`, behind its keyword. A non-empty condition runs the block and skips
an else part; an empty one runs the statements up to `else` and then the else
part, whose failure is dropped. -/
def evalWhen (env : Env) (evalStatement : Config → Run) (p : Parser) (s : EvalState) : Run :=
  expectValue env p s fun cond p =>
  if cond ≠ [] then
    evalBlock evalStatement p s >>= fun r =>
      if r.1 then
        let (isElse,p) := tryMatch r.2.1 .tokElse
        let p := if isElse then skipTo .tokEnd p else p
        .ok (true,(tryMatch p .tokEnd).2,r.2.2)
      else .ok r
  else
    evalStatements evalStatement endsBlock (nextToken (skipTo .tokThen p),s) >>= fun r =>
      if r.1 then
        if r.2.1.current.type = .tokElse then
          evalBlock evalStatement (nextToken r.2.1) r.2.2 >>= fun r =>
            .ok (true,(tryMatch r.2.1 .tokEnd).2,r.2.2)
        else .ok (true,(tryMatch r.2.1 .tokEnd).2,r.2.2)
      else .ok r

/-- `let` and `set`, behind the keyword. -/
def evalSet (env : Env) (p : Parser) (s : EvalState) : Run :=
  expectText .tokIdent p s fun key p =>
  expect .tokTo p s fun p =>
  expectValue env p s fun val p => do
    let val ← asString val
    .ok (true,p,s.recordSet key val)

def evalReject (p : Parser) (s : EvalState) : Run :=
  expect .tokWith p s fun p =>
  expectText .tokString p s fun msg p =>
  .ok (true,p,s.reject msg)

def evalShow (env : Env) (p : Parser) (s : EvalState) : Run :=
  expectValue env (tryMatch p .tokWhen).2 s fun cond p =>
  .ok (true,p,s.setShow (cond ≠ []))

/-- The items of a stored text that is a JSON array. -/
def storedItems (stored : Option Bytes) : List Json :=
  match stored with
  | none => []
  | some text =>
      if text.head? = some 91 then
        match cJSONParse text with
        | some (.array items) => items
        | _ => []
      else []

def evalFor (env : Env) (p : Parser) (s : EvalState) : Run :=
  expectText .tokIdent (tryMatch p .tokEach).2 s fun var p =>
  expect .tokIn p s fun p =>
  expectText .tokIdent p s fun arrKey p =>
  expect .tokDo p s fun p => do
    let stored ← env.lookup arrKey
    .ok (true,(tryMatch p .tokEnd).2,s.recordItems var (storedItems stored))

/-- The body of `eval_statement`. -/
def statementBody (env : Env) (evalStatement : Config → Run) (x : Config) : Run :=
  let (p,s) := x
  if s.loopCount > 10000 then .ok (false,p,s)
  else
    match p.current.type with
    | .tokAnimate => evalAnimateStatement (rewind 7 (nextToken p)) s
    | .tokStop => evalAnimationControl (rewind 4 (nextToken p)) s
    | .tokPause => evalAnimationControl (rewind 5 (nextToken p)) s
    | .tokResume => evalAnimationControl (rewind 6 (nextToken p)) s
    | .tokStyle => evalStyleBlock env (rewind 5 (nextToken p)) s
    | .tokKeymap => evalKeymapBlock (rewind 6 (nextToken p)) s
    | .tokWhen => evalWhen env evalStatement (nextToken p) s
    | .tokLet => evalSet env (nextToken p) s
    | .tokSet => evalSet env (nextToken p) s
    | .tokReject => evalReject (nextToken p) s
    | .tokAccept => .ok (true,nextToken p,s.accept)
    | .tokShow => evalShow env (nextToken p) s
    | .tokFor => evalFor env (nextToken p) s
    | _ => .ok (false,p,s)

def statementStep (env : Env) (evalStatement : Config → Run) (x : Config) : Run :=
  statementBody env evalStatement x >>= fun r =>
    if r.1 then .ok r else .ok (false,r.2.1,r.2.2.noteFailure)

def evalStatement (env : Env) : Config → Run :=
  descend (fun x => remaining x.1) (statementStep env)

/-! ## Scripts -/

structure FilResult where
  accepted : Bool
  errorMsg : Option Bytes
  sets : List (Bytes × Bytes)
  showWidget : Bool
  styles : List (Bytes × Bytes)
  keymaps : List Bytes
  animations : List (Bytes × Bytes)
  deriving DecidableEq, Repr

def FilResult.ofState (s : EvalState) : FilResult where
  accepted := !s.rejected
  errorMsg := s.errorMsg
  sets := s.sets
  showWidget := s.showWidget
  styles := s.styles
  keymaps := s.keymaps
  animations := s.animations

def firstToken (script : Bytes) : Parser := nextToken { src := script }

/-- The statement loop of `fil_eval`. -/
def runScript (env : Env) (script : Bytes) : Run :=
  evalStatements (evalStatement env) (· = .tokEof) (firstToken script,{})

def filEval (env : Env) (script : Bytes) : Outcome FilResult := do
  let (_,_,s) ← runScript env script
  .ok (.ofState s)

end Filly.Fil

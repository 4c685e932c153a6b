import Filly.GeneratedFil

/-!
# Values in expressions

What the manual calls values: identifiers, keys of the store behind `store.`, and named
functions of other values. The lexer reads no dots and takes the name of a function for
an identifier, so only identifiers are left; and `next_token` frees the text of an
identifier before it is looked up, so what counts is what that memory reads as.
-/
namespace Filly.Fil
open CJson Descent Outcome Builder

/-- An identifier that is no keyword and does not stand for the current value. -/
def Name : Type := { w : Bytes // IsIdent w ∧ w ≠ bytes "value" }

/-- The text of a string: without quotes, and short. -/
def Quotable : Type := { t : Bytes // (∀ b ∈ t, b ≠ 0 ∧ b ≠ 34) ∧ t.length < 255 }

inductive Function where
  | length | uppercase | lowercase | trim
  deriving DecidableEq, Repr

inductive Value where
  | string (text : Quotable)
  | ident (name : Name)
  | storeDot (key : Bytes)
  | call (f : Function) (arg : Value)
  | matchOf (arg pattern : Value)

def Function.name : Function → Bytes
  | .length => bytes "length"
  | .uppercase => bytes "uppercase"
  | .lowercase => bytes "lowercase"
  | .trim => bytes "trim"

def Value.text : Value → Bytes
  | .string t => 34::t.1++[34]
  | .ident name => name.1
  | .storeDot key => bytes "store"++46::key
  | .call f arg => f.name++(bytes " of "++arg.text)
  | .matchOf arg pattern => bytes "match"++(bytes " of "++arg.text++bytes " with "++pattern.text)

/-! ## What is meant -/

/-- A store, if there is one, with values of less than 255 bytes, as is the current value. -/
structure ShortEnv where
  env : Env
  store : ∀ get key v, env.storeGet = some get → get key = some v → v.length < 255
  value : ∀ v, env.value = some v → v.length < 255

/-- The value of a key; without a store it is empty. -/
def ShortEnv.get (st : ShortEnv) (key : Bytes) : Bytes := (st.env.storeGet.bind (· key)).getD []

def Function.apply (arg : Bytes) : Function → Bytes
  | .length => intText arg.length
  | .uppercase => arg.map toUpper
  | .lowercase => arg.map toLower
  | .trim => (arg.dropWhile (· = 32)).rdropWhile (· = 32)

/-- There is no value when a pattern is not a regular expression. -/
def Value.eval (st : ShortEnv) : Value → Option Bytes
  | .string t => some t.1
  | .ident name => some (st.get name.1)
  | .storeDot key => some (st.get key)
  | .call f arg => (arg.eval st).map f.apply
  | .matchOf arg pattern => do
      let subject ← arg.eval st
      let matcher ← st.env.regcomp (← pattern.eval st)
      some (truth (matcher subject))

/-! ## What is read -/

/-- `eval_primary` with the text that an identifier has when it is looked up. -/
def primaryFreed (env : Env) (stale : Parser → Option Bytes) (evalPrimary : Parser → Read)
    (p : Parser) : Read :=
  primaryStep env evalPrimary
    (if p.current.type = .tokIdent then { p with current := { p.current with text := stale p } }
    else p)

/-- `stale` is what the freed text of the token at a parser reads as. -/
def evalPrimaryFreed (env : Env) (stale : Parser → Option Bytes) : Parser → Read :=
  descend remaining (primaryFreed env stale)

/-- As long as freed text stays what it was, this is the evaluator without memory. -/
theorem evalPrimaryFreed_kept (env : Env) :
    evalPrimaryFreed env (fun p => p.current.text) = evalPrimary env := by
  have hstep : primaryFreed env (fun p => p.current.text) = primaryStep env := by
    funext f p
    unfold primaryFreed
    split_ifs <;> rfl
  rw [evalPrimaryFreed,hstep]
  rfl

/-- The value is written at the parser, and no word goes on behind it. -/
def StandsAt (e : Value) (p : Parser) : Prop :=
  Lexed p ∧ ∃ rest, p.src.drop p.start = e.text++rest ∧ isWordChar (rest.getD 0 0) = false

/-- The value is read, to its end. -/
def EvaluatesAt (st : ShortEnv) (stale : Parser → Option Bytes) (e : Value) (p : Parser) : Prop :=
  ∃ v q, e.eval st = some v ∧ evalPrimaryFreed st.env stale p = .ok (some v,q) ∧
    p.start+e.text.length ≤ q.start

/-- The value of an identifier with this text. -/
def identValue (st : ShortEnv) (key : Bytes) : Bytes :=
  if key = bytes "value" then st.env.value.getD []
  else st.get (if key.take 6 = bytes "store." then key.drop 6 else key)

/-- A string, or an identifier whose freed text still leads to its value. -/
def Readable (st : ShortEnv) (stale : Option Bytes) : Value → Prop
  | .string _ => True
  | .ident name =>
      ∃ key, stale = some key ∧ (key = bytes "value" ∨ st.env.storeGet.isSome = true) ∧
        identValue st key = st.get name.1
  | .storeDot _ | .call _ _ | .matchOf _ _ => False

/-! ## Identifiers -/

theorem ShortEnv.get_short (st : ShortEnv) (key : Bytes) : (st.get key).length < 255 := by
  unfold ShortEnv.get
  cases hstore : st.env.storeGet with
  | none => simp
  | some get =>
      simp only [Option.bind_some]
      cases hget : get key with
      | none => simp
      | some v => exact st.store get key v hstore hget

theorem identValue_short (st : ShortEnv) (key : Bytes) : (identValue st key).length < 255 := by
  unfold identValue
  split_ifs
  · cases hvalue : st.env.value with
    | none => simp
    | some v => exact st.value v hvalue
  · exact st.get_short _
  · exact st.get_short _

theorem read_eq_iff {a v : Bytes} {r q : Parser} :
    (Outcome.ok (some a,r) : Read) = .ok (some v,q) ↔ q = r ∧ a = v := by
  rw [Outcome.ok.injEq,Prod.mk.injEq,Option.some.injEq,and_comm,eq_comm (a := r)]

theorem evalPrimaryFreed_ident (st : ShortEnv) (stale : Parser → Option Bytes) {p q : Parser}
    {v : Bytes} (hp : p.current.type = .tokIdent) :
    evalPrimaryFreed st.env stale p = .ok (some v,q) ↔
      q = nextToken p ∧ ∃ key, stale p = some key ∧
        (key = bytes "value" ∨ st.env.storeGet.isSome = true) ∧ identValue st key = v := by
  have hshort := identValue_short st
  rw [evalPrimaryFreed,descend,unroll,primaryFreed,if_pos hp]
  simp only [primaryStep,hp]
  cases stale p with
  | none => simp
  | some key =>
      have hkey := hshort key
      simp only [Option.some.injEq,exists_eq_left']
      unfold identValue at hkey ⊢
      by_cases hvalue : key = bytes "value"
      · rw [if_pos hvalue] at hkey
        rw [if_pos hvalue,if_pos hvalue,strncpy_short hkey,and_iff_right (Or.inl hvalue)]
        exact read_eq_iff
      · rw [if_neg hvalue] at hkey
        rw [if_neg hvalue,if_neg hvalue]
        cases hstore : st.env.storeGet with
        | none => simp [Env.lookup,hstore,hvalue]
        | some get =>
            simp only [ShortEnv.get,hstore,Option.bind_some] at hkey ⊢
            simp only [Env.lookup,hstore,ok_bind,strncpy_short hkey,Option.isSome_some,or_true,
              true_and]
            exact read_eq_iff

/-! ## Words at a parser -/

/-- A word, white space and something else. -/
theorem word_at {p : Parser} (hp : Lexed p) {word ws t : Bytes}
    (h : p.src.drop p.start = word++(ws++t)) (hword : IsIdent word)
    (hws : ∀ b ∈ ws, isSpace b = true) (ht : isSpace (t.getD 0 0) = false)
    (hend : isWordChar ((ws++t).getD 0 0) = false) :
    p.current = identToken word ∧ (nextToken p).start = p.start+word.length+ws.length := by
  have hscan := hword.scan hend
  have hcurrent := hp.current
  have hpos := hp.pos
  rw [h,hscan] at hcurrent hpos
  refine ⟨hcurrent,?_⟩
  have hdrop : p.src.drop p.pos = ws++t := by
    rw [hpos,← List.drop_drop,h,List.drop_left]
  rw [nextToken_of_drop hdrop hws ht,hpos]

/-- A string is scanned over its second quote. -/
theorem scanToken_string {t : Bytes} (ht : ∀ b ∈ t, b ≠ 0 ∧ b ≠ 34) (rest : Bytes) :
    scanToken (34::t++34::rest) = ({ type := .tokString, text := some t },t.length+2) := by
  have htake : (t++34::rest).takeWhile (fun b => b ≠ 0 && b ≠ 34) = t :=
    takeWhile_append_of_end (fun b hb => by simpa using ht b hb) rfl
  rw [List.cons_append,scanToken,if_neg (by decide),if_neg (by decide),if_neg (by decide),
    if_pos rfl,htake]
  simp

theorem string_at {p : Parser} (hp : Lexed p) {t rest : Bytes}
    (h : p.src.drop p.start = 34::t++34::rest) (ht : ∀ b ∈ t, b ≠ 0 ∧ b ≠ 34) :
    p.current = { type := .tokString, text := some t } ∧ p.pos = p.start+(t.length+2) := by
  have hcurrent := hp.current
  have hpos := hp.pos
  rw [h,scanToken_string ht] at hcurrent hpos
  exact ⟨hcurrent,hpos⟩

/-! ## What is read of each value -/

/-- A word that is not all there is to read is no value. -/
theorem not_evaluatesAt {st : ShortEnv} {stale : Parser → Option Bytes} {e : Value} {p : Parser}
    (hp : Lexed p) (word ws : Bytes) {t : Bytes} (h : p.src.drop p.start = word++(ws++t))
    (hword : IsIdent word) (hws : ∀ b ∈ ws, isSpace b = true) (ht : isSpace (t.getD 0 0) = false)
    (hend : isWordChar ((ws++t).getD 0 0) = false)
    (hlength : word.length+ws.length < e.text.length) : ¬EvaluatesAt st stale e p := by
  rintro ⟨v,q,-,hread,hbehind⟩
  obtain ⟨hcurrent,hstart⟩ := word_at hp h hword hws ht hend
  obtain ⟨rfl,-⟩ := (evalPrimaryFreed_ident st stale (by rw [hcurrent]; rfl)).1 hread
  omega

/-- Of the values only strings and identifiers are read, and an identifier only if there is
a store and its freed text still leads to the same value. -/
theorem evaluatesAt_iff (st : ShortEnv) (stale : Parser → Option Bytes) {e : Value} {p : Parser}
    (h : StandsAt e p) : EvaluatesAt st stale e p ↔ Readable st (stale p) e := by
  obtain ⟨hp,rest,hdrop,hrest⟩ := h
  cases e with
  | string t =>
      refine iff_of_true ?_ trivial
      have htext : p.src.drop p.start = 34::t.1++34::rest := by
        rw [hdrop,Value.text,List.append_assoc]
        rfl
      obtain ⟨hcurrent,hpos⟩ := string_at hp htext t.2.1
      refine ⟨t.1,nextToken p,rfl,?_,?_⟩
      · rw [evalPrimaryFreed,descend,unroll,primaryFreed,if_neg (by simp [hcurrent])]
        simp only [primaryStep,hcurrent,strncpy_short t.2.2]
      · have hstart := pos_le_start p
        simp only [Value.text,List.length_append,List.length_cons,List.length_nil]
        omega
  | ident name =>
      have hscan := name.2.1.scan hrest
      have hcurrent := hp.current
      have hpos := hp.pos
      rw [hdrop,Value.text,hscan] at hcurrent hpos
      have htype : p.current.type = .tokIdent := by rw [hcurrent]; rfl
      have hstart := pos_le_start p
      constructor
      · rintro ⟨v,q,hv,hread,-⟩
        obtain ⟨-,key,hkey,hstore,hvalue⟩ := (evalPrimaryFreed_ident st stale htype).1 hread
        exact ⟨key,hkey,hstore,hvalue.trans (Option.some.inj hv).symm⟩
      · rintro ⟨key,hkey,hstore,hvalue⟩
        refine ⟨_,nextToken p,rfl,?_,?_⟩
        · exact (evalPrimaryFreed_ident st stale htype).2 ⟨rfl,key,hkey,hstore,hvalue⟩
        · rw [hpos] at hstart
          exact hstart
  | storeDot key =>
      refine iff_of_false (not_evaluatesAt hp (bytes "store") []
        (t := 46::key++rest) ?_ (by decide) (by simp) rfl rfl ?_) id
      · rw [hdrop,Value.text,List.append_assoc]
        rfl
      · simp [Value.text]
  | call f arg =>
      refine iff_of_false (not_evaluatesAt hp f.name [32]
        (t := bytes "of "++(arg.text++rest)) ?_ ?_ (by simp [isSpace]) rfl rfl ?_) id
      · rw [hdrop,Value.text,List.append_assoc,List.append_assoc]
        rfl
      · cases f <;> decide
      · simp [Value.text,bytes]
  | matchOf arg pattern =>
      refine iff_of_false (not_evaluatesAt hp (bytes "match") [32]
        (t := bytes "of "++(arg.text++(bytes " with "++(pattern.text++rest)))) ?_ (by decide)
        (by simp [isSpace]) rfl rfl ?_) id
      · rw [hdrop,Value.text]
        simp only [List.append_assoc]
        rfl
      · simp [Value.text,bytes]

/-! ## A store with one name -/

def nameStore : ShortEnv where
  env := { emptyStore with
    storeGet := some fun key => if key = bytes "name" then some (bytes "abc") else none }
  store := by
    rintro _ key v ⟨⟩ hv
    dsimp only at hv
    by_cases hkey : key = bytes "name"
    · rw [if_pos hkey] at hv
      rw [← Option.some.inj hv]
      decide
    · rw [if_neg hkey] at hv
      cases hv
  value := by
    intro v hv
    cases hv

def nameIdent : Value := .ident ⟨bytes "name",by decide⟩

theorem name_evaluates :
    EvaluatesAt nameStore (fun p => p.current.text) nameIdent (firstToken (bytes "name is")) :=
  (evaluatesAt_iff nameStore (fun p => p.current.text)
    ⟨nextToken_lexed _,bytes " is",by decide +kernel,by decide⟩).2
    ⟨bytes "name",by decide +kernel,Or.inr rfl,by decide +kernel⟩

/-- The length of a name is not evaluated, even if freed text stays what it was. -/
theorem length_is_not_evaluated :
    StandsAt (.call .length nameIdent) (firstToken (bytes "length of name")) ∧
      ¬EvaluatesAt nameStore (fun p => p.current.text) (.call .length nameIdent)
        (firstToken (bytes "length of name")) := by
  refine ⟨⟨nextToken_lexed _,[],by decide +kernel,by decide⟩,?_⟩
  exact not_evaluatesAt (nextToken_lexed _) (bytes "length") [32]
    (t := bytes "of name") (by decide +kernel) (by decide) (by simp [isSpace]) (by decide)
    (by decide) (by decide +kernel)

end Filly.Fil

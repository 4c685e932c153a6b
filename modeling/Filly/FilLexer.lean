import Filly.CJson
import Mathlib.Data.List.TakeWhile
import Mathlib.Tactic

/-!
# The tokens of FIL

This is the lexer of `script/fil.c`. A script is the text before its
terminating NUL. A character that starts no token is skipped and read as
`TOK_EOF`, like the end of the text. Beside the position behind the current token
the parser keeps two things that the source does not store and nothing depends
on: where the current token starts, and whether a character that starts no token
has been read.
-/
namespace Filly.Fil
open CJson

inductive TokenType where
  | tokWhen | tokThen | tokElse | tokEnd | tokLet | tokSet | tokTo
  | tokReject | tokWith | tokAccept | tokShow | tokFor | tokEach
  | tokIn | tokDo | tokIs | tokNot | tokMatches | tokAnd | tokOr
  | tokEmpty | tokOf | tokLess | tokGreater | tokThan
  | tokStyle | tokAnimate | tokStop | tokPause | tokResume
  | tokAnimation | tokOn | tokKeymap | tokKey | tokLbrace | tokRbrace
  | tokIdent | tokString | tokNumber | tokEof
  deriving DecidableEq, Repr

structure Token where
  type : TokenType
  text : Option Bytes := none
  num : ℤ := 0
  deriving DecidableEq, Repr

structure Parser where
  src : Bytes
  pos : ℕ := 0
  start : ℕ := 0
  unknown : Bool := false
  current : Token := { type := .tokWhen }
  deriving DecidableEq, Repr

def isSpace (c : UInt8) : Bool := c = 32 || c = 9 || c = 10 || c = 13

def isDigit (c : UInt8) : Bool := 48 ≤ c && c ≤ 57

def isAlpha (c : UInt8) : Bool := 65 ≤ c && c ≤ 90 || 97 ≤ c && c ≤ 122

/-- `isalnum(c) || c == '_'`. -/
def isWordChar (c : UInt8) : Bool := isAlpha c || isDigit c || c = 95

/-! ## Decimal text -/

/-- The white space that `strtol` skips. -/
def isBlank (c : UInt8) : Bool := isSpace c || c = 11 || c = 12

/-- Sign, digits and what follows them, as `strtol` reads them. -/
def strtolSpan (s : Bytes) : Bool × Bytes × Bytes :=
  match s.dropWhile isBlank with
  | 45::t => (true,t.takeWhile isDigit,t.dropWhile isDigit)
  | 43::t => (false,t.takeWhile isDigit,t.dropWhile isDigit)
  | t => (false,t.takeWhile isDigit,t.dropWhile isDigit)

def decimal (digits : Bytes) : ℕ := digits.foldl (fun n d => 10*n+(d.toNat-48)) 0

/-- The conversion of a `long` to an `int`. -/
def toInt (v : ℤ) : ℤ := (v+2^31) % 2^32-2^31

/-- `atoi`: the value of `strtol`, which saturates, converted to an `int`. -/
def atoi (s : Bytes) : ℤ :=
  let v : ℤ := decimal (strtolSpan s).2.1
  toInt (max (-2^63) (min (if (strtolSpan s).1 then -v else v) (2^63-1)))

/-! ## Scanning -/

def keywords : List (Bytes × TokenType) :=
  [(bytes "when",.tokWhen),(bytes "then",.tokThen),(bytes "else",.tokElse),(bytes "end",.tokEnd),
   (bytes "let",.tokLet),(bytes "set",.tokSet),(bytes "to",.tokTo),(bytes "reject",.tokReject),
   (bytes "with",.tokWith),(bytes "accept",.tokAccept),(bytes "show",.tokShow),
   (bytes "for",.tokFor),(bytes "each",.tokEach),(bytes "in",.tokIn),(bytes "do",.tokDo),
   (bytes "is",.tokIs),(bytes "not",.tokNot),(bytes "matches",.tokMatches),(bytes "and",.tokAnd),
   (bytes "or",.tokOr),(bytes "empty",.tokEmpty),(bytes "of",.tokOf),(bytes "less",.tokLess),
   (bytes "greater",.tokGreater),(bytes "than",.tokThan),(bytes "style",.tokStyle),
   (bytes "animate",.tokAnimate),(bytes "stop",.tokStop),(bytes "pause",.tokPause),
   (bytes "resume",.tokResume),(bytes "animation",.tokAnimation),(bytes "on",.tokOn),
   (bytes "keymap",.tokKeymap),(bytes "key",.tokKey)]

def wordType (word : Bytes) : TokenType :=
  match keywords.find? (fun k => k.1 = word) with
  | some k => k.2
  | none => .tokIdent

/-- The token at the front of a text without leading white space, and how many
characters it takes. -/
def scanToken : Bytes → Token × ℕ
  | [] => ({ type := .tokEof },0)
  | c::s =>
      if c = 0 then ({ type := .tokEof },0)
      else if c = 123 then ({ type := .tokLbrace },1)
      else if c = 125 then ({ type := .tokRbrace },1)
      else if c = 34 then
        let text := s.takeWhile fun b => b ≠ 0 && b ≠ 34
        ({ type := .tokString, text := some text },
          if (s.drop text.length).head? = some 34 then text.length+2 else text.length+1)
      else if isDigit c then
        let digits := (c::s).takeWhile isDigit
        ({ type := .tokNumber, num := atoi digits },digits.length)
      else if isAlpha c || c = 95 then
        let word := (c::s).takeWhile isWordChar
        ({ type := wordType word, text := some word },word.length)
      else ({ type := .tokEof },1)

def skipWs (p : Parser) : ℕ := p.pos+((p.src.drop p.pos).takeWhile isSpace).length

def nextToken (p : Parser) : Parser :=
  let start := skipWs p
  let scanned := scanToken (p.src.drop start)
  { p with start := start, pos := start+scanned.2, current := scanned.1,
           unknown := p.unknown || scanned = ({ type := .tokEof },1) }

/-- `match`: step over the current token if it is of the given type. -/
def tryMatch (p : Parser) (t : TokenType) : Bool × Parser :=
  if p.current.type = t then (true,nextToken p) else (false,p)

/-- `p->pos -= k; next_token(p)`. -/
def rewind (k : ℕ) (p : Parser) : Parser := nextToken { p with pos := p.pos-k }

/-! ## Facts about tokens -/

theorem wordType_mem {word : Bytes} {t : TokenType} (h : wordType word = t) (ht : t ≠ .tokIdent) :
    (word,t) ∈ keywords := by
  unfold wordType at h
  split at h
  · rename_i k hk
    have hm := List.mem_of_find?_eq_some hk
    have hw : k.1 = word := by simpa using List.find?_some hk
    rw [← hw,← h]
    exact hm
  · exact absurd h.symm ht

/-- The ways in which a token is scanned off a text. -/
inductive Scans : Bytes → Token → ℕ → Prop where
  | nil : Scans [] { type := .tokEof } 0
  | nul (s : Bytes) : Scans (0::s) { type := .tokEof } 0
  | lbrace (s : Bytes) : Scans (123::s) { type := .tokLbrace } 1
  | rbrace (s : Bytes) : Scans (125::s) { type := .tokRbrace } 1
  | closed (text s : Bytes) (h : ∀ b ∈ text, b ≠ 0 ∧ b ≠ 34) :
      Scans (34::text++34::s) { type := .tokString, text := some text } (text.length+2)
  | unclosed (text s : Bytes) (h : ∀ b ∈ text, b ≠ 0 ∧ b ≠ 34) (hs : s.getD 0 0 = 0) :
      Scans (34::text++s) { type := .tokString, text := some text } (text.length+1)
  | number (digits s : Bytes) (hne : digits ≠ []) (h : ∀ b ∈ digits, isDigit b = true) :
      Scans (digits++s) { type := .tokNumber, num := atoi digits } digits.length
  | word (w s : Bytes) (hne : w ≠ []) (h : ∀ b ∈ w, isWordChar b = true)
      (hs : isWordChar (s.getD 0 0) = false) :
      Scans (w++s) { type := wordType w, text := some w } w.length
  | unknown (c : UInt8) (s : Bytes) (h0 : c ≠ 0) : Scans (c::s) { type := .tokEof } 1

theorem takeWhile_of_end {f : UInt8 → Bool} {s : Bytes} (hs : f (s.getD 0 0) = false) :
    s.takeWhile f = [] := by
  cases s with
  | nil => rfl
  | cons c s => simpa using hs

/-- Characters of one kind reach to the first other one. -/
theorem takeWhile_append_of_end {f : UInt8 → Bool} {w s : Bytes} (hw : ∀ b ∈ w, f b = true)
    (hs : f (s.getD 0 0) = false) : (w++s).takeWhile f = w := by
  rw [List.takeWhile_append_of_pos hw,takeWhile_of_end hs,List.append_nil]

/-- A text that begins neither with white space nor with a sign. -/
theorem strtolSpan_of_start {c : UInt8} (hblank : isBlank c = false) (hsign : c ≠ 45 ∧ c ≠ 43)
    (s : Bytes) :
    strtolSpan (c::s) = (false,(c::s).takeWhile isDigit,(c::s).dropWhile isDigit) := by
  rw [strtolSpan,List.dropWhile_cons_of_neg (by simp [hblank])]
  split
  · exact absurd (List.cons.inj ‹_›).1 hsign.1
  · exact absurd (List.cons.inj ‹_›).1 hsign.2
  · rfl

theorem dropWhile_getD {f : UInt8 → Bool} (s : Bytes) (h : f 0 = false) :
    f ((s.dropWhile f).getD 0 0) = false := by
  induction s with
  | nil => exact h
  | cons c s ih =>
      by_cases hc : f c
      · simpa [List.dropWhile_cons,hc] using ih
      · simp [hc]

theorem scanToken_scans (s : Bytes) : Scans s (scanToken s).1 (scanToken s).2 := by
  cases s with
  | nil => exact .nil
  | cons c s =>
      by_cases h0 : c = 0
      · subst h0
        exact .nul s
      by_cases hl : c = 123
      · subst hl
        exact .lbrace s
      by_cases hr : c = 125
      · subst hr
        exact .rbrace s
      by_cases hq : c = 34
      · subst hq
        have hd := List.takeWhile_append_dropWhile (p := fun b : UInt8 => b ≠ 0 && b ≠ 34) (l := s)
        have hall : ∀ b ∈ s.takeWhile fun b => b ≠ 0 && b ≠ 34, b ≠ 0 ∧ b ≠ 34 := by
          intro b hb
          simpa using List.mem_takeWhile_imp hb
        have hdrop : s.drop (s.takeWhile fun b => b ≠ 0 && b ≠ 34).length =
            s.dropWhile fun b => b ≠ 0 && b ≠ 34 := by
          nth_rewrite 2 [← hd]
          exact List.drop_left
        have hg := dropWhile_getD (f := fun b => b ≠ 0 && b ≠ 34) s rfl
        simp only [scanToken,h0,hl,hr,if_false,if_true,hdrop]
        generalize s.takeWhile (fun b => b ≠ 0 && b ≠ 34) = text at hd hall
        generalize s.dropWhile (fun b => b ≠ 0 && b ≠ 34) = rest at hd hg
        subst hd
        cases rest with
        | nil => simpa using Scans.unclosed text [] hall rfl
        | cons b rest =>
            by_cases hb : b = 34
            · subst hb
              simpa using Scans.closed text rest hall
            · have hz : b = 0 := by simpa [hb] using hg
              simpa [hb] using Scans.unclosed text (b::rest) hall (by simpa using hz)
      by_cases hd : isDigit c = true
      · have he := List.takeWhile_append_dropWhile (p := isDigit) (l := c::s)
        have hsc := Scans.number ((c::s).takeWhile isDigit) ((c::s).dropWhile isDigit)
          (by simp [hd]) (fun b hb => List.mem_takeWhile_imp hb)
        rw [he] at hsc
        rwa [scanToken,if_neg h0,if_neg hl,if_neg hr,if_neg hq,if_pos hd]
      by_cases ha : (isAlpha c || c = 95) = true
      · have hw : isWordChar c = true := by
          rcases Bool.or_eq_true _ _ ▸ ha with h | h <;> simp [isWordChar,h]
        have he := List.takeWhile_append_dropWhile (p := isWordChar) (l := c::s)
        have hsc := Scans.word ((c::s).takeWhile isWordChar) ((c::s).dropWhile isWordChar)
          (by simp [hw]) (fun b hb => List.mem_takeWhile_imp hb) (dropWhile_getD (c::s) rfl)
        rw [he] at hsc
        rwa [scanToken,if_neg h0,if_neg hl,if_neg hr,if_neg hq,if_neg hd,if_pos ha]
      · rw [scanToken,if_neg h0,if_neg hl,if_neg hr,if_neg hq,if_neg hd,if_neg ha]
        exact .unknown c s h0

theorem Scans.length_le {s : Bytes} {t : Token} {n : ℕ} (h : Scans s t n) : n ≤ s.length := by
  cases h <;> simp

theorem Scans.pos {s : Bytes} {t : Token} {n : ℕ} (h : Scans s t n) (ht : t.type ≠ .tokEof) :
    0 < n := by
  cases h with
  | nil => exact absurd rfl ht
  | nul s => exact absurd rfl ht
  | number digits s hne _ => exact List.length_pos_of_ne_nil hne
  | word w s hne _ _ => exact List.length_pos_of_ne_nil hne
  | _ => simp

/-- The current token is the one scanned at `start`. -/
structure Lexed (p : Parser) : Prop where
  current : p.current = (scanToken (p.src.drop p.start)).1
  pos : p.pos = p.start+(scanToken (p.src.drop p.start)).2
  known : p.unknown = false → scanToken (p.src.drop p.start) ≠ ({ type := .tokEof },1)

theorem nextToken_lexed (p : Parser) : Lexed (nextToken p) := by
  refine ⟨rfl,rfl,fun h => ?_⟩
  rw [nextToken] at h
  simp only [Bool.or_eq_false_iff,decide_eq_false_iff_not] at h
  exact h.2

theorem rewind_lexed (k : ℕ) (p : Parser) : Lexed (rewind k p) := nextToken_lexed _

theorem Lexed.scans {p : Parser} (h : Lexed p) :
    Scans (p.src.drop p.start) p.current (p.pos-p.start) := by
  have hs := scanToken_scans (p.src.drop p.start)
  rwa [← h.current,show (scanToken (p.src.drop p.start)).2 = p.pos-p.start by have := h.pos; omega]
    at hs

/-- Unless an unknown character has been read, `TOK_EOF` is the end of the text. -/
theorem Lexed.at_end {p : Parser} (h : Lexed p) (ht : p.current.type = .tokEof)
    (hu : p.unknown = false) : p.src.getD p.start 0 = 0 := by
  have hs := scanToken_scans (p.src.drop p.start)
  have hk := h.known hu
  rw [h.current] at ht
  have hg : p.src.getD p.start 0 = (p.src.drop p.start).getD 0 0 := by
    simp [List.getD_eq_getElem?_getD]
  rw [hg]
  generalize p.src.drop p.start = s at hs hk ht
  generalize hr : scanToken s = r at hs hk ht
  obtain ⟨t,n⟩ := r
  cases hs with
  | nil => rfl
  | nul s => rfl
  | unknown c s h0 => exact absurd rfl hk
  | word w s _ _ _ =>
      have hm := wordType_mem ht (by decide)
      simp [keywords] at hm
  | _ => simp at ht

@[simp] theorem nextToken_src (p : Parser) : (nextToken p).src = p.src := rfl

theorem pos_le_start (p : Parser) : p.pos ≤ (nextToken p).start := Nat.le_add_right _ _

end Filly.Fil

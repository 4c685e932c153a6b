import Filly.FilValues
import Filly.GeneratedFil

/-!
# Written tokens are read back

Tokens are written with white space between them, which means the four characters that
`skip_ws` passes over. The lexer reads exactly these tokens, each up to its last character,
and then the end of the text.
-/
namespace Filly.Fil
open CJson Builder

/-! ## Tokens as they are written -/

inductive Lexeme where
  | keyword (word : Bytes) (type : TokenType) (h : (word,type) ∈ keywords)
  | ident (word : Bytes) (h : IsIdent word)
  | number (n : ℕ) (h : n < 2^31)
  | string (text : Bytes) (h : ∀ b ∈ text, b ≠ 0 ∧ b ≠ 34)
  | lbrace
  | rbrace

def Lexeme.written : Lexeme → Bytes
  | .keyword word _ _ | .ident word _ => word
  | .number n _ => intText n
  | .string text _ => 34::text++[34]
  | .lbrace => [123]
  | .rbrace => [125]

def Lexeme.token : Lexeme → Token
  | .keyword word type _ => { type, text := some word }
  | .ident word _ => identToken word
  | .number n _ => { type := .tokNumber, num := n }
  | .string text _ => { type := .tokString, text := some text }
  | .lbrace => { type := .tokLbrace }
  | .rbrace => { type := .tokRbrace }

/-- White space and a token, again and again, and white space at the end. -/
def written : List (Bytes × Lexeme) → Bytes → Bytes
  | [], trail => trail
  | (ws,t)::words, trail => ws++(t.written++written words trail)

/-- There may be no white space in front of the first token and behind the last one. -/
structure Source where
  words : List (Bytes × Lexeme)
  trail : Bytes
  spaces : ∀ w ∈ words, ∀ b ∈ w.1, isSpace b = true
  apart : ∀ w ∈ words.tail, w.1 ≠ []
  trailing : ∀ b ∈ trail, isSpace b = true

def Source.text (s : Source) : Bytes := written s.words s.trail

/-- The tokens, and for each the place behind its last character. -/
def ends : ℕ → List (Bytes × Lexeme) → List (Token × ℕ)
  | _, [] => []
  | pos, (ws,t)::words =>
      (t.token,pos+ws.length+t.written.length)::ends (pos+ws.length+t.written.length) words

/-- What a number of calls of `next_token` leave in `current` and `pos`. -/
def lexed : ℕ → Parser → List (Token × ℕ)
  | 0, _ => []
  | n+1, p => ((nextToken p).current,(nextToken p).pos)::lexed n (nextToken p)

/-! ## Numbers -/

theorem isDigit_iff (b : UInt8) : isDigit b = true ↔ 48 ≤ b.toNat ∧ b.toNat ≤ 57 := by
  rw [isDigit,Bool.and_eq_true,decide_eq_true_eq,decide_eq_true_eq,UInt8.le_iff_toNat_le,
    UInt8.le_iff_toNat_le]
  rfl

theorem intText_natCast (n : ℕ) :
    intText n = (Nat.toDigits 10 n).map fun c => UInt8.ofNat c.toNat := by
  rw [intText,if_neg (by omega),List.nil_append,Int.natAbs_natCast]

/-- A digit as a byte. -/
theorem toNat_digit {c : Char} (h : c.isDigit = true) :
    (UInt8.ofNat c.toNat).toNat = c.toNat ∧ 48 ≤ c.toNat ∧ c.toNat ≤ 57 := by
  rw [Char.isDigit,Bool.and_eq_true,decide_eq_true_eq,decide_eq_true_eq] at h
  have hlow : 48 ≤ c.toNat := h.1
  have hhigh : c.toNat ≤ 57 := h.2
  rw [UInt8.toNat_ofNat']
  omega

theorem isDigit_of_mem_intText {n : ℕ} : ∀ b ∈ intText n, isDigit b = true := by
  rw [intText_natCast,List.forall_mem_map]
  intro c hc
  obtain ⟨hbyte,hrange⟩ :=
    toNat_digit (Nat.isDigit_of_mem_toDigits (by decide) (by decide) hc)
  rw [isDigit_iff,hbyte]
  exact hrange

theorem intText_ne_nil (n : ℕ) : intText n ≠ [] := by
  rw [intText_natCast,Ne,List.map_eq_nil_iff]
  exact Nat.toDigits_ne_nil

theorem decimal_intText (n : ℕ) : decimal (intText n) = n := by
  have hfold : ∀ (cs : List Char) (acc : ℕ), (∀ c ∈ cs, c.isDigit = true) →
      (cs.map fun c => UInt8.ofNat c.toNat).foldl (fun n d => 10*n+(d.toNat-48)) acc =
        Nat.ofDigitChars 10 cs acc := by
    intro cs
    induction cs with
    | nil => exact fun acc _ => Nat.ofDigitChars_nil.symm
    | cons c cs ih =>
        intro acc hcs
        rw [List.forall_mem_cons] at hcs
        rw [List.map_cons,List.foldl_cons,(toNat_digit hcs.1).1,ih _ hcs.2,Nat.ofDigitChars_cons]
        rfl
  rw [decimal,intText_natCast,hfold _ _ fun c hc =>
    Nat.isDigit_of_mem_toDigits (by decide) (by decide) hc]
  exact Nat.ofDigitChars_toDigits (by decide) (by decide)

theorem isBlank_not_digit {c : UInt8} (h : isBlank c = true) : isDigit c = false := by
  simp only [isBlank,isSpace,Bool.or_eq_true,decide_eq_true_eq] at h
  rcases h with ((((rfl | rfl) | rfl) | rfl) | rfl) | rfl <;> rfl

/-- Digits alone have no sign. -/
theorem strtolSpan_digits {ds : Bytes} (hd : ∀ b ∈ ds, isDigit b = true) :
    strtolSpan ds = (false,ds,[]) := by
  cases ds with
  | nil => rfl
  | cons d ds =>
      have hdigit := hd d List.mem_cons_self
      have hblank : isBlank d = false := by
        by_contra h
        rw [isBlank_not_digit (by simpa using h)] at hdigit
        cases hdigit
      have hsign : d ≠ 45 ∧ d ≠ 43 := by
        constructor
        · rintro rfl
          exact absurd hdigit (by decide)
        · rintro rfl
          exact absurd hdigit (by decide)
      rw [strtolSpan_of_start hblank hsign,List.takeWhile_eq_self_iff.2 hd,
        List.dropWhile_eq_nil_iff.2 hd]

theorem atoi_intText {n : ℕ} (h : n < 2^31) : atoi (intText n) = n := by
  rw [atoi,strtolSpan_digits isDigit_of_mem_intText]
  simp only [Bool.false_eq_true,if_false,decimal_intText,toInt]
  omega

/-- A number is scanned up to the first other character. -/
theorem scanToken_number {ds s : Bytes} (hne : ds ≠ []) (hd : ∀ b ∈ ds, isDigit b = true)
    (hs : isDigit (s.getD 0 0) = false) :
    scanToken (ds++s) = ({ type := .tokNumber, num := atoi ds },ds.length) := by
  cases ds with
  | nil => exact absurd rfl hne
  | cons d ds =>
      have hdigit : isDigit d = true := hd d List.mem_cons_self
      have h0 : d ≠ 0 := by rintro rfl; exact absurd hdigit (by decide)
      have h1 : d ≠ 123 := by rintro rfl; exact absurd hdigit (by decide)
      have h2 : d ≠ 125 := by rintro rfl; exact absurd hdigit (by decide)
      have h3 : d ≠ 34 := by rintro rfl; exact absurd hdigit (by decide)
      have htake : (d::(ds++s)).takeWhile isDigit = d::ds := takeWhile_append_of_end hd hs
      rw [List.cons_append,scanToken,if_neg h0,if_neg h1,if_neg h2,if_neg h3,if_pos hdigit,htake]

/-! ## Each token on its own -/

/-- A keyword is a word, and it has the type that it stands for. -/
theorem keywords_words : ∀ k ∈ keywords, (isAlpha (k.1.getD 0 0) = true) ∧
    k.1.all isWordChar = true ∧ wordType k.1 = k.2 := by
  decide

theorem scanToken_keyword {word s : Bytes} {type : TokenType} (h : (word,type) ∈ keywords)
    (hs : isWordChar (s.getD 0 0) = false) :
    scanToken (word++s) = ({ type, text := some word },word.length) := by
  obtain ⟨halpha,hchars,htype⟩ := keywords_words _ h
  cases word with
  | nil => cases halpha
  | cons c w =>
      have hstart : (isAlpha c || c = 95) = true := by
        rw [Bool.or_eq_true]
        exact Or.inl halpha
      rw [List.all_cons,Bool.and_eq_true,List.all_eq_true] at hchars
      rw [scanToken_word hstart hchars.2 hs,htype]
      rfl

/-- Up to something that no word goes on with, a token is read as it was written. -/
theorem Lexeme.scan (t : Lexeme) {s : Bytes} (hs : isWordChar (s.getD 0 0) = false) :
    scanToken (t.written++s) = (t.token,t.written.length) := by
  cases t with
  | keyword word type h => exact scanToken_keyword h hs
  | ident word h => exact h.scan hs
  | number n h =>
      have hdigit : isDigit (s.getD 0 0) = false := by
        simp only [isWordChar,Bool.or_eq_false_iff] at hs
        exact hs.1.2
      have hscan := scanToken_number (intText_ne_nil n) isDigit_of_mem_intText hdigit
      rw [atoi_intText h] at hscan
      exact hscan
  | string text h =>
      have hscan := scanToken_string h s
      simpa [written,token] using hscan
  | lbrace => rfl
  | rbrace => rfl

/-- No token begins with white space. -/
theorem Lexeme.not_space (t : Lexeme) (s : Bytes) : isSpace ((t.written++s).getD 0 0) = false := by
  have hword : ∀ {c : UInt8}, isWordChar c = true → isSpace c = false := by
    intro c hc
    by_contra hspace
    rw [isSpace_not_word (by simpa using hspace)] at hc
    cases hc
  cases t with
  | keyword word type h =>
      obtain ⟨halpha,-,-⟩ := keywords_words _ h
      cases word with
      | nil => cases halpha
      | cons c w =>
          apply hword
          simp only [isWordChar,Bool.or_eq_true]
          exact Or.inl (Or.inl halpha)
  | ident word h => exact h.not_space
  | number n h =>
      have hdigits := isDigit_of_mem_intText (n := n)
      rw [written]
      cases hw : intText n with
      | nil => exact absurd hw (intText_ne_nil n)
      | cons d ds =>
          rw [hw] at hdigits
          apply hword
          simp only [isWordChar,Bool.or_eq_true]
          exact Or.inl (Or.inr (hdigits d List.mem_cons_self))
  | string text h => rfl
  | lbrace => rfl
  | rbrace => rfl

/-! ## A text of tokens -/

theorem not_word_of_spaces {ws : Bytes} (h : ∀ b ∈ ws, isSpace b = true) (hne : ws ≠ [])
    (s : Bytes) : isWordChar ((ws++s).getD 0 0) = false := by
  cases ws with
  | nil => exact absurd rfl hne
  | cons b ws => exact isSpace_not_word (h b List.mem_cons_self)

/-- What follows a token goes on with no word. -/
theorem written_not_word {words : List (Bytes × Lexeme)} {trail : Bytes}
    (hspaces : ∀ w ∈ words, ∀ b ∈ w.1, isSpace b = true) (hapart : ∀ w ∈ words, w.1 ≠ [])
    (htrail : ∀ b ∈ trail, isSpace b = true) :
    isWordChar ((written words trail).getD 0 0) = false := by
  cases words with
  | nil =>
      cases trail with
      | nil => rfl
      | cons b trail => exact isSpace_not_word (htrail b List.mem_cons_self)
  | cons w words =>
      exact not_word_of_spaces (hspaces w List.mem_cons_self) (hapart w List.mem_cons_self) _

/-- The position never passes the end of the text. -/
theorem nextToken_pos_le {p : Parser} (h : p.pos ≤ p.src.length) :
    (nextToken p).pos ≤ p.src.length := by
  have hspaces := (List.takeWhile_prefix (p := isSpace) (l := p.src.drop p.pos)).length_le
  rw [List.length_drop] at hspaces
  have hstart : skipWs p ≤ p.src.length := by
    unfold skipWs
    omega
  have hscanned := (scanToken_scans (p.src.drop (skipWs p))).length_le
  rw [List.length_drop] at hscanned
  change skipWs p+(scanToken (p.src.drop (skipWs p))).2 ≤ p.src.length
  omega

/-- At the end of the text there is only `TOK_EOF`, and it takes no character. -/
theorem lexed_trail (n : ℕ) {p : Parser} {trail : Bytes} (h : p.src.drop p.pos = trail)
    (htrail : ∀ b ∈ trail, isSpace b = true) :
    lexed n p = List.replicate n ({ type := .tokEof },p.pos+trail.length) := by
  induction n generalizing p trail with
  | zero => rfl
  | succ n ih =>
      have hnext := nextToken_of_drop (h.trans (List.append_nil trail).symm) htrail rfl
      have hpos : (nextToken p).pos = p.pos+trail.length := by rw [hnext]; rfl
      have hcurrent : (nextToken p).current = { type := .tokEof } := by rw [hnext]; rfl
      have hdrop : (nextToken p).src.drop (nextToken p).pos = [] := by
        rw [nextToken_src,hpos,← List.drop_drop,h,List.drop_length]
      rw [lexed,ih hdrop (by simp),hpos,hcurrent,List.replicate_succ]
      rfl

/-- Each token is read up to its last character, and the next one from there. -/
theorem lexed_written (n : ℕ) {words : List (Bytes × Lexeme)} {trail : Bytes} {p : Parser}
    (h : p.src.drop p.pos = written words trail)
    (hspaces : ∀ w ∈ words, ∀ b ∈ w.1, isSpace b = true) (hapart : ∀ w ∈ words.tail, w.1 ≠ [])
    (htrail : ∀ b ∈ trail, isSpace b = true) :
    lexed (words.length+n) p = ends p.pos words++
      List.replicate n ({ type := .tokEof },p.pos+(written words trail).length) := by
  induction words generalizing p with
  | nil =>
      rw [List.length_nil,Nat.zero_add,ends,List.nil_append]
      exact lexed_trail n h htrail
  | cons w words ih =>
      obtain ⟨ws,t⟩ := w
      rw [List.forall_mem_cons] at hspaces
      rw [List.tail_cons] at hapart
      have hscan := t.scan (written_not_word hspaces.2 hapart htrail)
      have hnext := nextToken_of_drop h hspaces.1 (t.not_space _)
      rw [hscan] at hnext
      have hpos : (nextToken p).pos = p.pos+ws.length+t.written.length := by rw [hnext]
      have hcurrent : (nextToken p).current = t.token := by rw [hnext]
      have hdrop : (nextToken p).src.drop (nextToken p).pos = written words trail := by
        rw [nextToken_src,hpos,← List.drop_drop,← List.drop_drop,h,written,List.drop_left,
          List.drop_left]
      have hlength : (written ((ws,t)::words) trail).length =
          ws.length+t.written.length+(written words trail).length := by
        simp only [written,List.length_append]
        omega
      have hrest := ih hdrop hspaces.2 fun w hw => hapart w (List.mem_of_mem_tail hw)
      rw [List.length_cons,Nat.add_right_comm,lexed,hrest,hpos,hcurrent,hlength,ends,
        List.cons_append]
      simp only [Nat.add_assoc]

/-- Lexing a text gives the tokens that were written, each up to its last character, and from
then on the end of the text. -/
theorem source_lexed (s : Source) (n : ℕ) :
    lexed (s.words.length+n) { src := s.text } = ends 0 s.words++
      List.replicate n ({ type := .tokEof },s.text.length) := by
  have hread := lexed_written n (p := { src := s.text }) rfl s.spaces s.apart s.trailing
  rw [Nat.zero_add] at hread
  exact hread

end Filly.Fil

import Mathlib.Tactic

/-!
# String literals of C

A source file is read in phases: trigraphs are replaced, lines that end in a
backslash are joined, and then a literal is taken from its opening quote up to the
next quote that is not escaped. A line end inside a literal and an escape sequence
that C does not have are errors.

A text that is written between quotes as it stands is read back exactly when it has
no quote, backslash, line end or trigraph.
-/
namespace Filly.CLiterals

abbrev Text := List UInt8

/-! ## Phases -/

def trigraph (c : UInt8) : Option UInt8 :=
  if c = 61 then some 35
  else if c = 40 then some 91
  else if c = 47 then some 92
  else if c = 41 then some 93
  else if c = 39 then some 94
  else if c = 60 then some 123
  else if c = 33 then some 124
  else if c = 62 then some 125
  else if c = 45 then some 126
  else none

/-- The first three characters are a trigraph, which stands for this one. -/
def trigraphAt : Text → Option UInt8
  | a::b::c::_ => if a = 63 ∧ b = 63 then trigraph c else none
  | _ => none

/-- `skip` characters belong to a trigraph that was replaced. -/
def replaceFrom : ℕ → Text → Text
  | _, [] => []
  | 0, a::s =>
      match trigraphAt (a::s) with
      | some d => d::replaceFrom 2 s
      | none => a::replaceFrom 0 s
  | skip+1, _::s => replaceFrom skip s

def replaceTrigraphs (s : Text) : Text := replaceFrom 0 s

def joinLines : Text → Text
  | [] => []
  | [a] => [a]
  | a::b::s => if a = 92 ∧ b = 10 then joinLines s else a::joinLines (b::s)

def phases (s : Text) : Text := joinLines (replaceTrigraphs s)

/-! ## Escape sequences -/

def simpleEscape (c : UInt8) : Option UInt8 :=
  if c = 39 ∨ c = 34 ∨ c = 63 ∨ c = 92 then some c
  else if c = 97 then some 7
  else if c = 98 then some 8
  else if c = 102 then some 12
  else if c = 110 then some 10
  else if c = 114 then some 13
  else if c = 116 then some 9
  else if c = 118 then some 11
  else none

def isOctal (c : UInt8) : Bool := 48 ≤ c && c ≤ 55

def hexValue (c : UInt8) : Option ℕ :=
  if 48 ≤ c ∧ c ≤ 57 then some (c.toNat-48)
  else if 65 ≤ c ∧ c ≤ 70 then some (c.toNat-55)
  else if 97 ≤ c ∧ c ≤ 102 then some (c.toNat-87)
  else none

def hexNumber (digits : Text) : ℕ := digits.foldl (fun n c => 16*n+(hexValue c).getD 0) 0

/-- One character of the text, where the number is that of a character. -/
def oneByte (n : ℕ) (rest : Text) : Option (Text × Text) :=
  if n < 256 then some ([UInt8.ofNat n],rest) else none

/-- A universal character name with so many digits. -/
def universal (digits : ℕ) (s : Text) : Option (Text × Text) :=
  let name := s.take digits
  let n := hexNumber name
  if name.length = digits ∧ name.all (fun c => (hexValue c).isSome) ∧
      (160 ≤ n ∨ n = 36 ∨ n = 64 ∨ n = 96) ∧ ¬ (55296 ≤ n ∧ n ≤ 57343) ∧ n < 1114112 then
    some (String.utf8EncodeChar (Char.ofNat n),s.drop digits)
  else none

/-- The escape sequence behind a backslash: the characters it stands for, and the rest. -/
def readEscape : Text → Option (Text × Text)
  | [] => none
  | c::s =>
      match simpleEscape c with
      | some v => some ([v],s)
      | none =>
          if isOctal c then
            let digits := ((c::s).take 3).takeWhile isOctal
            oneByte (digits.foldl (fun n d => 8*n+(d.toNat-48)) 0) ((c::s).drop digits.length)
          else if c = 120 then
            let digits := s.takeWhile fun d => (hexValue d).isSome
            if digits = [] then none else oneByte (hexNumber digits) (s.drop digits.length)
          else if c = 117 then universal 4 s
          else if c = 85 then universal 8 s
          else none

/-- A literal behind its opening quote: its text and what follows the closing one. Each
turn takes at least one character. -/
def readLiteralFrom : ℕ → Text → Option (Text × Text)
  | 0, _ => none
  | _, [] => none
  | n+1, c::s =>
      if c = 34 then some ([],s)
      else if c = 10 then none
      else if c = 92 then do
        let (v,t) ← readEscape s
        let (w,rest) ← readLiteralFrom n t
        some (v++w,rest)
      else do
        let (w,rest) ← readLiteralFrom n s
        some (c::w,rest)

def readLiteral (s : Text) : Option (Text × Text) := readLiteralFrom s.length s

/-! ## Reading back -/

/-- The text, written between quotes in front of `post`, is read back as it is. -/
def ReadsBack (text post : Text) : Prop :=
  readLiteral (phases (text++34::post)) = some (text,phases post)

/-- No quote, backslash, line end or trigraph. -/
structure Plain (text : Text) : Prop where
  chars : ∀ c ∈ text, c ≠ 34 ∧ c ≠ 92 ∧ c ≠ 10
  trigraphs : ∀ c, trigraph c ≠ none → ¬ [63,63,c] <:+: text

section

variable {s t post : Text}

/-! ### Trigraphs -/

theorem trigraphAt_prefix {c : UInt8} (h : [63,63,c] <+: s) : trigraphAt s = trigraph c := by
  obtain ⟨t,rfl⟩ := h
  rfl

theorem exists_prefix_of_trigraphAt {d : UInt8} (h : trigraphAt s = some d) :
    ∃ c t, s = 63::63::c::t ∧ trigraph c = some d := by
  match s, h with
  | a::b::c::t, h =>
      simp only [trigraphAt] at h
      split_ifs at h with hab
      exact ⟨c,t,by rw [hab.1,hab.2],h⟩

theorem replaceFrom_cons (a : UInt8) (s : Text) : replaceFrom 0 (a::s) =
    match trigraphAt (a::s) with
    | some d => d::replaceFrom 2 s
    | none => a::replaceFrom 0 s := rfl

theorem replaceTrigraphs_cons (a : UInt8) (s : Text) : replaceTrigraphs (a::s) =
    match trigraphAt (a::s) with
    | some d => d::replaceFrom 2 s
    | none => a::replaceTrigraphs s := rfl

theorem length_replaceFrom_le (k : ℕ) (hk : k ≤ s.length) :
    (replaceFrom k s).length+k ≤ s.length := by
  induction s generalizing k with
  | nil => simpa [replaceFrom] using hk
  | cons a s ih =>
      cases k with
      | zero =>
          rw [replaceFrom_cons]
          cases hd : trigraphAt (a::s) with
          | none => simpa using ih 0 (Nat.zero_le _)
          | some d =>
              obtain ⟨c,t,hs,-⟩ := exists_prefix_of_trigraphAt hd
              have hlen : s.length = t.length+2 := by
                rw [List.cons.injEq] at hs
                rw [hs.2]
                rfl
              have := ih 2 (by omega)
              simp only [List.length_cons]
              omega
      | succ k =>
          have := ih k (by simpa using hk)
          simp only [replaceFrom,List.length_cons]
          omega

/-- A text that keeps its length has no trigraph. -/
theorem no_trigraph_of_length (h : (replaceTrigraphs s).length = s.length) {c : UInt8}
    (hc : trigraph c ≠ none) : ¬ [63,63,c] <:+: s := by
  induction s with
  | nil => simp
  | cons a s ih =>
      rw [replaceTrigraphs_cons] at h
      cases hd : trigraphAt (a::s) with
      | none =>
          rw [hd,List.length_cons,List.length_cons,Nat.add_right_cancel_iff] at h
          rw [List.infix_cons_iff,not_or]
          refine ⟨fun hpre => hc ?_,ih h⟩
          rw [← trigraphAt_prefix hpre,hd]
      | some d =>
          obtain ⟨c',t,hs,-⟩ := exists_prefix_of_trigraphAt hd
          rw [List.cons.injEq] at hs
          have hle := length_replaceFrom_le (s := s) 2 (by rw [hs.2]; simp)
          rw [hd,List.length_cons,List.length_cons] at h
          omega

theorem replaceTrigraphs_eq (h : ∀ c, trigraph c ≠ none → ¬ [63,63,c] <:+: s) :
    replaceTrigraphs s = s := by
  induction s with
  | nil => rfl
  | cons a s ih =>
      rw [replaceTrigraphs_cons]
      cases hd : trigraphAt (a::s) with
      | none =>
          exact congrArg (a::·) (ih fun c hc hin => h c hc (hin.trans (List.infix_cons List.infix_rfl)))
      | some d =>
          obtain ⟨c,t,hs,hc⟩ := exists_prefix_of_trigraphAt hd
          refine absurd ?_ (h c (by simp [hc]))
          rw [hs]
          exact ⟨[],t,rfl⟩

/-- No trigraph reaches over a quote. -/
theorem replaceFrom_append (k : ℕ) (hk : k ≤ t.length) :
    replaceFrom k (t++34::post) = replaceFrom k t++34::replaceFrom 0 post := by
  induction t generalizing k with
  | nil =>
      obtain rfl : k = 0 := by simpa using hk
      have hnone : trigraphAt (34::post) = none := by
        match post with
        | [] => rfl
        | [_] => rfl
        | _::_::_ => rfl
      simp [replaceFrom,hnone]
  | cons a t ih =>
      cases k with
      | succ k => exact ih k (by simpa using hk)
      | zero =>
          have hat : trigraphAt (a::(t++34::post)) = trigraphAt (a::t) := by
            match t with
            | [] =>
                match post with
                | [] => rfl
                | c::post => simp [trigraphAt]
            | [b] => simp [trigraphAt,trigraph]
            | b::c::t => rfl
          rw [List.cons_append,replaceFrom_cons,replaceFrom_cons,hat]
          cases hd : trigraphAt (a::t) with
          | none => exact congrArg (a::·) (ih 0 (Nat.zero_le _))
          | some d =>
              obtain ⟨c,t',hs,-⟩ := exists_prefix_of_trigraphAt hd
              rw [List.cons.injEq] at hs
              exact congrArg (d::·) (ih 2 (by rw [hs.2]; simp))

/-! ### Joined lines -/

theorem length_joinLines_le (s : Text) : (joinLines s).length ≤ s.length := by
  fun_induction joinLines s with
  | case1 => exact le_rfl
  | case2 a => exact le_rfl
  | case3 a b s h ih =>
      simp only [List.length_cons]
      omega
  | case4 a b s h ih => simpa using ih

theorem joinLines_eq (h : ∀ c ∈ s, c ≠ 92) : joinLines s = s := by
  fun_induction joinLines s with
  | case1 => rfl
  | case2 a => rfl
  | case3 a b s hab ih => exact absurd hab.1 (h a List.mem_cons_self)
  | case4 a b s hab ih =>
      exact congrArg (a::·) (ih fun c hc => h c (List.mem_cons_of_mem a hc))

theorem joinLines_quote (post : Text) : joinLines (34::post) = 34::joinLines post := by
  cases post with
  | nil => rfl
  | cons b post => simp [joinLines]

theorem joinLines_append (t post : Text) :
    joinLines (t++34::post) = joinLines t++34::joinLines post := by
  fun_induction joinLines t with
  | case1 => exact joinLines_quote post
  | case2 a => simp [joinLines,joinLines_quote]
  | case3 a b s h ih =>
      rw [List.cons_append,List.cons_append,joinLines,if_pos h]
      exact ih
  | case4 a b s h ih =>
      rw [List.cons_append,List.cons_append,joinLines,if_neg h]
      exact congrArg (a::·) ih

theorem phases_append (t post : Text) : phases (t++34::post) = phases t++34::phases post := by
  rw [phases,replaceTrigraphs,replaceFrom_append 0 (Nat.zero_le _),joinLines_append]
  rfl

theorem length_phases_le (s : Text) : (phases s).length ≤ s.length := by
  have h₁ := length_joinLines_le (replaceTrigraphs s)
  have h₂ := length_replaceFrom_le (s := s) 0 (Nat.zero_le _)
  exact h₁.trans h₂

/-! ### Literals -/

theorem length_oneByte {n : ℕ} {rest : Text} {r : Text × Text} (h : oneByte n rest = some r) :
    r.1.length = 1 ∧ r.2 = rest := by
  unfold oneByte at h
  split_ifs at h
  rw [← Option.some.inj h]
  exact ⟨rfl,rfl⟩

theorem length_universal {digits : ℕ} {r : Text × Text} (hd : 4 ≤ digits)
    (h : universal digits s = some r) : r.1.length+r.2.length ≤ s.length := by
  simp only [universal] at h
  split_ifs at h with hname
  have hutf : ∀ c : Char, (String.utf8EncodeChar c).length ≤ 4 := by
    intro c
    rw [String.length_utf8EncodeChar]
    exact Char.utf8Size_le_four c
  have hlen := hname.1
  rw [List.length_take] at hlen
  have := hutf (Char.ofNat (hexNumber (s.take digits)))
  rw [← Option.some.inj h]
  simp only [List.length_drop]
  omega

/-- An escape sequence is at least as long as what it stands for. -/
theorem length_readEscape {r : Text × Text} (h : readEscape s = some r) :
    r.1.length+r.2.length ≤ s.length := by
  cases s with
  | nil => cases h
  | cons c s =>
      simp only [readEscape] at h
      cases hsimple : simpleEscape c with
      | some v =>
          rw [hsimple] at h
          rw [← Option.some.inj h]
          simp only [List.length_cons,List.length_nil]
          omega
      | none =>
          rw [hsimple] at h
          simp only at h
          split_ifs at h with hoctal hx hdigits hu hU
          · obtain ⟨hone,hrest⟩ := length_oneByte h
            have hpos : 0 < (((c::s).take 3).takeWhile isOctal).length := by
              simp [hoctal]
            rw [hone,hrest,List.length_drop,List.length_cons]
            omega
          · obtain ⟨hone,hrest⟩ := length_oneByte h
            rw [hone,hrest,List.length_drop,List.length_cons]
            omega
          · have := length_universal (by decide) h
            simp only [List.length_cons]
            omega
          · have := length_universal (by decide) h
            simp only [List.length_cons]
            omega

/-- A literal is longer than its text, by the closing quote alone only if the text is
written as it stands. -/
theorem length_readLiteralFrom {n : ℕ} {r : Text × Text} (h : readLiteralFrom n s = some r) :
    r.1.length+r.2.length+1 ≤ s.length ∧ (r.1.length+r.2.length+1 = s.length →
      s = r.1++34::r.2 ∧ ∀ c ∈ r.1, c ≠ 34 ∧ c ≠ 92 ∧ c ≠ 10) := by
  induction n generalizing s r with
  | zero => cases h
  | succ n ih =>
      cases s with
      | nil => cases h
      | cons c s =>
          simp only [readLiteralFrom] at h
          split_ifs at h with hquote hline hback
          · rw [← Option.some.inj h]
            refine ⟨by simp,fun _ => ⟨by rw [hquote]; rfl,by simp⟩⟩
          · simp only [Option.bind_eq_bind,Option.bind_eq_some_iff] at h
            obtain ⟨⟨v,t⟩,hv,⟨w,rest⟩,hw,h⟩ := h
            have h₁ := length_readEscape hv
            have h₂ := (ih hw).1
            rw [← Option.some.inj h]
            simp only [List.length_append,List.length_cons] at h₁ h₂ ⊢
            omega
          · simp only [Option.bind_eq_bind,Option.bind_eq_some_iff] at h
            obtain ⟨⟨w,rest⟩,hw,h⟩ := h
            obtain ⟨hle,heq⟩ := ih hw
            rw [← Option.some.inj h]
            simp only [List.length_cons] at hle heq ⊢
            refine ⟨by omega,fun hlen => ?_⟩
            obtain ⟨hs,hchars⟩ := heq (by omega)
            refine ⟨by rw [hs]; rfl,List.forall_mem_cons.mpr ⟨⟨hquote,hback,hline⟩,hchars⟩⟩

theorem readLiteralFrom_plain (h : ∀ c ∈ t, c ≠ 34 ∧ c ≠ 92 ∧ c ≠ 10) {n : ℕ}
    (hn : t.length < n) : readLiteralFrom n (t++34::post) = some (t,post) := by
  induction t generalizing n with
  | nil =>
      obtain ⟨m,rfl⟩ : ∃ m, n = m+1 := ⟨n-1,by simp at hn; omega⟩
      rfl
  | cons c t ih =>
      obtain ⟨m,rfl⟩ : ∃ m, n = m+1 := ⟨n-1,by simp at hn; omega⟩
      rw [List.forall_mem_cons] at h
      obtain ⟨⟨hquote,hback,hline⟩,ht⟩ := h
      rw [List.cons_append,readLiteralFrom,if_neg hquote,if_neg hline,if_neg hback,
        ih ht (by simpa using hn)]
      rfl

theorem Plain.phases_eq (h : Plain t) : phases t = t := by
  rw [phases,replaceTrigraphs_eq h.trigraphs,joinLines_eq fun c hc => (h.chars c hc).2.1]

/-- Exactly the plain texts are read back. -/
theorem readsBack_iff : ReadsBack t post ↔ Plain t := by
  unfold ReadsBack readLiteral
  rw [phases_append]
  constructor
  · intro h
    obtain ⟨hle,heq⟩ := length_readLiteralFrom h
    have hphases := length_phases_le t
    have hjoin := length_joinLines_le (replaceTrigraphs t)
    have htri := length_replaceFrom_le (s := t) 0 (Nat.zero_le _)
    simp only [List.length_append,List.length_cons] at hle heq
    have hlen : (phases t).length = t.length := by omega
    obtain ⟨-,hchars⟩ := heq (by omega)
    refine ⟨hchars,fun c hc => no_trigraph_of_length ?_ hc⟩
    have hj : (joinLines (replaceTrigraphs t)).length = t.length := hlen
    have ht : (replaceTrigraphs t).length ≤ t.length := htri
    omega
  · intro h
    rw [h.phases_eq]
    exact readLiteralFrom_plain h.chars (by simp)

end

end Filly.CLiterals

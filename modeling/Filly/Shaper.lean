import Filly.CJson

/-!
# Shaping of text

A text becomes a row of glyphs. Two or three letters may become one glyph, which is looked for
in a table from the top; where the font has no such glyph the last letter takes its place.

The font is a parameter, with the glyph of each code point, zero if there is none. Widths are
computed in floating point, which is left open.
-/
namespace Filly.Shaper
open CJson

/-! ## The shaper -/

def ligatureTable : List Bytes := ["fi","fl","ff","ffi","ffl","ft","st"].map bytes

def isLigatureStart (c : UInt8) : Bool := c = 102 || c = 115 || c = 116

/-- The first entry of the table that the text begins with. -/
def tryLigature (text : Bytes) : Option ℕ := ligatureTable.findIdx? (·.isPrefixOf text)

def codepointForLigature : ℕ → ℤ
  | 0 => 0xFB01
  | 1 => 0xFB02
  | 2 => 0xFB00
  | 3 => 0xFB03
  | 4 => 0xFB04
  | _ => 0

/-- A font that is loaded, and what is computed with its scale. -/
structure Font (F : Type) where
  findGlyphIndex : ℤ → ℤ
  advanceWidth : ℤ → ℤ
  glyphKernAdvance : ℤ → ℤ → ℤ
  kerningLoaded : Bool
  kernTable : List (ℤ × ℤ × ℤ)
  zero : F
  scaled : ℤ → F
  add : F → F → F

structure ShapedGlyph (F : Type) where
  glyphIndex : ℤ
  codepoint : ℤ
  xOffset : F
  yOffset : F
  xAdvance : F

structure ShapedText (F : Type) where
  glyphs : List (ShapedGlyph F)
  totalAdvance : F

/-- The glyph for the text at the pen, and how many characters it takes. -/
structure Choice where
  glyphIndex : ℤ
  codepoint : ℤ
  consumed : ℕ

section
variable {F : Type} (font : Font F)

def shaperGetKerning (a b : ℤ) : F :=
  let g1 := font.findGlyphIndex a
  let g2 := font.findGlyphIndex b
  if !font.kerningLoaded then font.zero
  else if g1 = 0 ∨ g2 = 0 then font.zero
  else
    match font.kernTable.find? fun e => e.1 = g1 ∧ e.2.1 = g2 with
    | some e => font.scaled e.2.2
    | none => font.scaled (font.glyphKernAdvance g1 g2)

/-- The code point that is tried first, and the characters it stands for. -/
def candidate (c : UInt8) (t : Bytes) : ℤ × ℕ :=
  match if isLigatureStart c then tryLigature (c::t) else none with
  | some i => (codepointForLigature i,(ligatureTable.getD i []).length)
  | none => (c.toNat,1)

/-- Without a glyph the last character that was taken is looked up, as a signed one. -/
def choose (c : UInt8) (t : Bytes) : Choice :=
  let first := candidate c t
  if font.findGlyphIndex first.1 = 0 then
    let codepoint := ((c::t).getD (first.2-1) 0).toInt8.toInt
    ⟨font.findGlyphIndex codepoint,codepoint,first.2⟩
  else ⟨font.findGlyphIndex first.1,first.1,first.2⟩

structure Pen (F : Type) where
  glyphs : List (ShapedGlyph F)
  prevCodepoint : ℤ
  penX : F

def Pen.place (pen : Pen F) (letterSpacing : F) (g : Choice) : Pen F :=
  let x := if pen.glyphs ≠ [] ∧ pen.prevCodepoint ≠ 0 then
      font.add pen.penX (shaperGetKerning font pen.prevCodepoint g.codepoint)
    else pen.penX
  let advance := font.add (font.scaled (font.advanceWidth g.glyphIndex)) letterSpacing
  { glyphs := pen.glyphs++[⟨g.glyphIndex,g.codepoint,x,font.zero,advance⟩]
    prevCodepoint := g.codepoint
    penX := font.add x advance }

def shapeLoop (letterSpacing : F) (pen : Pen F) : Bytes → Pen F
  | [] => pen
  | c::t =>
      let g := choose font c t
      shapeLoop letterSpacing (pen.place font letterSpacing g) (t.drop (g.consumed-1))
termination_by text => text.length
decreasing_by
  rw [List.length_drop,List.length_cons]
  omega

/-- The text ends before its first null character. -/
def shaperShape (text : Bytes) (letterSpacing : F) : ShapedText F :=
  let pen := shapeLoop font letterSpacing ⟨[],0,font.zero⟩ (text.takeWhile (· ≠ 0))
  ⟨pen.glyphs,pen.penX⟩

end

/-! ## What shaping is for -/

/-- The ligatures that have a code point. -/
def ligatures : List (Bytes × ℤ) :=
  [(bytes "ff",0xFB00),(bytes "fi",0xFB01),(bytes "fl",0xFB02),(bytes "ffi",0xFB03),
    (bytes "ffl",0xFB04)]

/-- The letters that a glyph stands for. -/
def lettersOf (codepoint : ℤ) : Bytes :=
  match ligatures.find? (·.2 = codepoint) with
  | some l => l.1
  | none => [UInt8.ofNat (codepoint % 256).toNat]

/-- The text begins with the ligature and the font has it. -/
structure Usable (find : ℤ → ℤ) (text : Bytes) (l : Bytes × ℤ) : Prop where
  mem : l ∈ ligatures
  begins : l.1 <+: text
  supported : find l.2 ≠ 0

/-- Wherever the text begins with ligatures that the font has, the longest one is taken, and
otherwise a single character. -/
inductive LongestUsed (find : ℤ → ℤ) : Bytes → List ℤ → Prop
  | nil : LongestUsed find [] []
  | ligature {pattern t cp cps} (usable : Usable find (pattern++t) (pattern,cp))
      (longest : ∀ l, Usable find (pattern++t) l → l.1.length ≤ pattern.length)
      (rest : LongestUsed find t cps) : LongestUsed find (pattern++t) (cp::cps)
  | single {c t cp cps} (none : ∀ l, ¬Usable find (c::t) l) (same : lettersOf cp = [c])
      (rest : LongestUsed find t cps) : LongestUsed find (c::t) (cp::cps)

/-- The glyphs spell the text if the font has its characters, the longest ligatures are used,
and there are not more glyphs than characters. -/
structure ShapedWell {F : Type} (font : Font F) (text : Bytes) (out : ShapedText F) : Prop where
  spells : (∀ c ∈ text, font.findGlyphIndex c.toNat ≠ 0) →
    out.glyphs.flatMap (fun g => lettersOf g.codepoint) = text
  longest : LongestUsed font.findGlyphIndex text (out.glyphs.map ShapedGlyph.codepoint)
  count : out.glyphs.length ≤ text.length

/-- Read from the left in pairs, the text has no `ft` and no `st`, the font has the ligature of
each `fi`, `fl` and `ff`, and it has no longer one where an `ff` goes on with `i` or `l`. -/
def PairsShape (find : ℤ → ℤ) : Bytes → Prop
  | 102::105::t => find 0xFB01 ≠ 0 ∧ PairsShape find t
  | 102::108::t => find 0xFB02 ≠ 0 ∧ PairsShape find t
  | 102::102::t =>
      find 0xFB00 ≠ 0 ∧ (t.head? = some 105 → find 0xFB03 = 0) ∧
        (t.head? = some 108 → find 0xFB04 = 0) ∧ PairsShape find t
  | 102::116::_ => False
  | 115::116::_ => False
  | _::t => PairsShape find t
  | [] => True

/-! ## The code points of a text -/

section
variable {F : Type} (font : Font F)

/-- What the loop takes, without widths. -/
def codepoints : Bytes → List ℤ
  | [] => []
  | c::t => (choose font c t).codepoint::codepoints (t.drop ((choose font c t).consumed-1))
termination_by text => text.length
decreasing_by
  rw [List.length_drop,List.length_cons]
  omega

theorem shapeLoop_codepoints (letterSpacing : F) (pen : Pen F) (text : Bytes) :
    (shapeLoop font letterSpacing pen text).glyphs.map ShapedGlyph.codepoint =
      pen.glyphs.map ShapedGlyph.codepoint++codepoints font text := by
  fun_induction shapeLoop font letterSpacing pen text with
  | case1 pen => rw [codepoints,List.append_nil]
  | case2 pen c t g ih =>
      rw [ih,codepoints]
      simp [Pen.place,g]

theorem codepoints_length (text : Bytes) : (codepoints font text).length ≤ text.length := by
  fun_induction codepoints font text with
  | case1 => exact le_rfl
  | case2 c t ih =>
      rw [List.length_drop] at ih
      rw [List.length_cons,List.length_cons]
      omega

/-! ## Which glyph is chosen -/

variable {font}

theorem lettersOf_small {cp : ℤ} (h : cp < 256) :
    lettersOf cp = [UInt8.ofNat (cp % 256).toNat] := by
  have hnone : ligatures.find? (·.2 = cp) = none := by
    rw [List.find?_eq_none]
    intro l hl heq
    have hcp : l.2 = cp := of_decide_eq_true heq
    have hall : ∀ l ∈ ligatures, (256 : ℤ) ≤ l.2 := by decide
    exact absurd (hall l hl) (by omega)
  rw [lettersOf,hnone]

theorem lettersOf_toNat (c : UInt8) : lettersOf c.toNat = [c] := by
  have hlt := c.toNat_lt
  rw [lettersOf_small (by omega),show ((c.toNat : ℤ) % 256).toNat = c.toNat by omega,
    UInt8.ofNat_toNat]

theorem lettersOf_signed (c : UInt8) : lettersOf c.toInt8.toInt = [c] := by
  have hlt := c.toNat_lt
  have hbmod : c.toInt8.toInt = (c.toNat : ℤ).bmod 256 := c.toBitVec.toInt_eq_toNat_bmod
  have hmod : c.toInt8.toInt % 256 = c.toNat := by
    rw [hbmod,show (256 : ℤ) = (256 : ℕ) from rfl,Int.bmod_emod]
    omega
  have hsmall : c.toInt8.toInt < 256 := by
    rw [hbmod]
    exact (Int.bmod_lt (by decide)).trans (by decide)
  rw [lettersOf_small hsmall,hmod,Int.toNat_natCast,UInt8.ofNat_toNat]

/-- A character on its own is itself. -/
theorem choose_single {c : UInt8} {t : Bytes} (h : candidate c t = ((c.toNat : ℤ),1)) :
    (choose font c t).consumed = 1 ∧ lettersOf (choose font c t).codepoint = [c] := by
  unfold choose
  rw [h]
  dsimp only
  split_ifs
  · exact ⟨rfl,lettersOf_signed c⟩
  · exact ⟨rfl,lettersOf_toNat c⟩

/-- Two letters are the ligature if the font has it, and else the second letter. -/
theorem choose_pair {c x : UInt8} {t : Bytes} {cp : ℤ} (h : candidate c (x::t) = (cp,2)) :
    (choose font c (x::t)).consumed = 2 ∧
      (choose font c (x::t)).codepoint =
        if font.findGlyphIndex cp = 0 then x.toInt8.toInt else cp := by
  unfold choose
  rw [h]
  dsimp only
  split_ifs
  · exact ⟨rfl,rfl⟩
  · exact ⟨rfl,rfl⟩

theorem candidate_fi (t : Bytes) : candidate 102 (105::t) = (0xFB01,2) := rfl

theorem candidate_fl (t : Bytes) : candidate 102 (108::t) = (0xFB02,2) := rfl

/-- The entry for two letters stands before those for three. -/
theorem candidate_ff (t : Bytes) : candidate 102 (102::t) = (0xFB00,2) := rfl

/-- The last two entries have no code point. -/
theorem candidate_ft (t : Bytes) : candidate 102 (116::t) = (0,2) := rfl

theorem candidate_st (t : Bytes) : candidate 115 (116::t) = (0,2) := rfl

/-- The two letters begin an entry of the table. -/
def BeginsEntry (c x : UInt8) : Prop :=
  c = 102 ∧ (x = 105 ∨ x = 108 ∨ x = 102 ∨ x = 116) ∨ c = 115 ∧ x = 116

instance (c x : UInt8) : Decidable (BeginsEntry c x) :=
  inferInstanceAs (Decidable (_ ∨ _))

theorem entry_begins {p : Bytes} (hp : p ∈ ligatureTable) :
    ∃ c x u, p = c::x::u ∧ BeginsEntry c x := by
  simp only [ligatureTable,List.map_cons,List.map_nil,List.mem_cons,List.not_mem_nil,or_false] at hp
  rcases hp with rfl | rfl | rfl | rfl | rfl | rfl | rfl
  all_goals exact ⟨_,_,_,rfl,by decide⟩

theorem candidate_other {c : UInt8} {t : Bytes} (h : ∀ x u, t = x::u → ¬BeginsEntry c x) :
    candidate c t = ((c.toNat : ℤ),1) := by
  have hnone : tryLigature (c::t) = none := by
    rw [tryLigature,List.findIdx?_eq_none_iff]
    intro p hp
    obtain ⟨a,x,u,rfl,hbegins⟩ := entry_begins hp
    rw [Bool.eq_false_iff]
    intro hbegin
    obtain ⟨rfl,v,rfl⟩ := List.cons_prefix_cons.1 (List.isPrefixOf_iff_prefix.1 hbegin)
    exact h x (u++v) rfl hbegins
  rw [candidate,hnone,ite_self]

/-! ## The ligatures at a place -/

section
variable {find : ℤ → ℤ}

theorem lettersOf_ligature {l : Bytes × ℤ} (h : l ∈ ligatures) : lettersOf l.2 = l.1 := by
  have hall : ∀ l ∈ ligatures, lettersOf l.2 = l.1 := by decide
  exact hall l h

theorem ligature_begins {l : Bytes × ℤ} (h : l ∈ ligatures) :
    ∃ c x u, l.1 = c::x::u ∧ BeginsEntry c x := by
  refine entry_begins ?_
  have hall : ∀ l ∈ ligatures, l.1 ∈ ligatureTable := by decide
  exact hall l h

/-- Where no entry of the table begins there is no ligature. -/
theorem no_ligature {c : UInt8} {t : Bytes} (h : ∀ x u, t = x::u → ¬BeginsEntry c x)
    (l : Bytes × ℤ) : ¬Usable find (c::t) l := by
  intro hl
  obtain ⟨a,x,u,heq,hbegins⟩ := ligature_begins hl.mem
  have hbegin := hl.begins
  rw [heq] at hbegin
  obtain ⟨rfl,v,rfl⟩ := List.cons_prefix_cons.1 hbegin
  exact h x (u++v) rfl hbegins

/-- The first glyph is a ligature that can be used or a single character. -/
theorem LongestUsed.cases_cons {text : Bytes} {cp : ℤ} {cps : List ℤ}
    (h : LongestUsed find text (cp::cps)) :
    (∃ pattern t, text = pattern++t ∧ Usable find text (pattern,cp) ∧
      (∀ l, Usable find text l → l.1.length ≤ pattern.length) ∧ LongestUsed find t cps) ∨
    ∃ c t, text = c::t ∧ (∀ l, ¬Usable find text l) ∧ lettersOf cp = [c] ∧
      LongestUsed find t cps := by
  cases h with
  | ligature husable hlongest hrest => exact .inl ⟨_,_,rfl,husable,hlongest,hrest⟩
  | single hnone hsame hrest => exact .inr ⟨_,_,rfl,hnone,hsame,hrest⟩

/-- A glyph for a single character can only be followed from there. -/
theorem longestUsed_single_iff {c : UInt8} {t : Bytes} {cp : ℤ} {cps : List ℤ}
    (hcp : lettersOf cp = [c]) (h : ∀ l, ¬Usable find (c::t) l) :
    LongestUsed find (c::t) (cp::cps) ↔ LongestUsed find t cps := by
  constructor
  · intro hused
    obtain ⟨pattern,_,_,husable,-⟩ | ⟨_,_,htext,-,-,hrest⟩ := hused.cases_cons
    · exact absurd husable (h _)
    · cases htext
      exact hrest
  · exact fun hrest => .single h hcp hrest

/-- A ligature that was taken had to be there, and none was longer. -/
theorem longestUsed_ligature_iff {l : Bytes × ℤ} (hl : l ∈ ligatures) {t : Bytes} {cps : List ℤ} :
    LongestUsed find (l.1++t) (l.2::cps) ↔
      find l.2 ≠ 0 ∧ (∀ l', Usable find (l.1++t) l' → l'.1.length ≤ l.1.length) ∧
        LongestUsed find t cps := by
  constructor
  · intro hused
    obtain ⟨pattern,t',htext,husable,hlongest,hrest⟩ | ⟨c,t',_,_,hsame,_⟩ := hused.cases_cons
    · obtain rfl : l.1 = pattern := by
        rw [← lettersOf_ligature hl]
        exact lettersOf_ligature husable.mem
      obtain rfl := List.append_cancel_left htext
      exact ⟨husable.supported,hlongest,hrest⟩
    · obtain ⟨a,x,u,heq,-⟩ := ligature_begins hl
      rw [lettersOf_ligature hl,heq] at hsame
      cases hsame
  · intro ⟨hfind,hlongest,hrest⟩
    exact .ligature ⟨hl,List.prefix_append _ _,hfind⟩ hlongest hrest

/-- What is used spells the text. -/
theorem LongestUsed.spells {text : Bytes} {cps : List ℤ} (h : LongestUsed find text cps) :
    cps.flatMap lettersOf = text := by
  induction h with
  | nil => rfl
  | ligature husable _ _ ih => rw [List.flatMap_cons,lettersOf_ligature husable.mem,ih]
  | single _ hsame _ ih => rw [List.flatMap_cons,hsame,ih,List.singleton_append]

end

/-! ## When a text is shaped well -/

theorem codepoints_single {c : UInt8} {t : Bytes} (h : candidate c t = ((c.toNat : ℤ),1)) :
    codepoints font (c::t) = (choose font c t).codepoint::codepoints font t := by
  rw [codepoints,(choose_single h).1,Nat.sub_self,List.drop_zero]

theorem codepoints_pair {c x : UInt8} {t : Bytes} {cp : ℤ} (h : candidate c (x::t) = (cp,2)) :
    codepoints font (c::x::t) =
      (if font.findGlyphIndex cp = 0 then x.toInt8.toInt else cp)::codepoints font t := by
  rw [codepoints,(choose_pair h).1,(choose_pair h).2]
  rfl

/-- The table is left with a single character or with two letters. -/
theorem candidate_cases (c : UInt8) (t : Bytes) :
    candidate c t = ((c.toNat : ℤ),1) ∨
      ∃ x u cp, t = x::u ∧ candidate c t = (cp,2) ∧ (lettersOf cp).length ≤ 2 := by
  by_cases h : ∀ x u, t = x::u → ¬BeginsEntry c x
  · exact .inl (candidate_other h)
  · push Not at h
    obtain ⟨x,u,rfl,⟨rfl,rfl | rfl | rfl | rfl⟩ | ⟨rfl,rfl⟩⟩ := h
    · exact .inr ⟨_,_,_,rfl,candidate_fi u,by decide⟩
    · exact .inr ⟨_,_,_,rfl,candidate_fl u,by decide⟩
    · exact .inr ⟨_,_,_,rfl,candidate_ff u,by decide⟩
    · exact .inr ⟨_,_,_,rfl,candidate_ft u,by decide⟩
    · exact .inr ⟨_,_,_,rfl,candidate_st u,by decide⟩

/-- A glyph stands for at most the letters that it takes, and these are there. -/
theorem choose_letters (c : UInt8) (t : Bytes) :
    (lettersOf (choose font c t).codepoint).length ≤ (choose font c t).consumed ∧
      0 < (choose font c t).consumed ∧ (choose font c t).consumed ≤ t.length+1 := by
  obtain hsingle | ⟨x,u,cp,rfl,hpair,hcp⟩ := candidate_cases c t
  · obtain ⟨hconsumed,hletters⟩ := @choose_single _ font c t hsingle
    rw [hconsumed,hletters]
    exact ⟨le_rfl,Nat.one_pos,Nat.le_add_left 1 _⟩
  · obtain ⟨hconsumed,hcodepoint⟩ := @choose_pair _ font c x u cp hpair
    rw [hconsumed,hcodepoint,List.length_cons]
    refine ⟨?_,Nat.two_pos,Nat.le_add_left 2 _⟩
    split_ifs
    · rw [lettersOf_signed]
      exact Nat.le_succ 1
    · exact hcp

variable (font) in
/-- Letters can be lost, but there are never more of them. -/
theorem codepoints_letters (text : Bytes) :
    ((codepoints font text).flatMap lettersOf).length ≤ text.length := by
  fun_induction codepoints font text with
  | case1 => exact le_rfl
  | case2 c t ih =>
      obtain ⟨hletters,hpos,hconsumed⟩ := @choose_letters _ font c t
      rw [List.length_drop] at ih
      rw [List.flatMap_cons,List.length_append,List.length_cons]
      omega

/-- Two letters that become a single one are not spelled. -/
theorem not_longestUsed {find : ℤ → ℤ} {c x : UInt8} {t : Bytes} {cp : ℤ}
    (hcp : (lettersOf cp).length ≤ 1) :
    ¬LongestUsed find (c::x::t) (cp::codepoints font t) := by
  intro hused
  have hlength := congrArg List.length hused.spells
  rw [List.flatMap_cons,List.length_append,List.length_cons,List.length_cons] at hlength
  have hrest := codepoints_letters font t
  omega

/-- Two letters of a ligature need it in the font, and no longer one. -/
theorem pair_iff {c x : UInt8} {t : Bytes} {cp : ℤ} (h : candidate c (x::t) = (cp,2))
    (hl : ([c,x],cp) ∈ ligatures) :
    LongestUsed font.findGlyphIndex (c::x::t) (codepoints font (c::x::t)) ↔
      font.findGlyphIndex cp ≠ 0 ∧
        (∀ l, Usable font.findGlyphIndex (c::x::t) l → l.1.length ≤ 2) ∧
          LongestUsed font.findGlyphIndex t (codepoints font t) := by
  rw [codepoints_pair h]
  split_ifs with hfind
  · constructor
    · intro hused
      refine absurd hused (not_longestUsed ?_)
      rw [lettersOf_signed]
      exact le_rfl
    · exact fun hother => absurd hfind hother.1
  · exact longestUsed_ligature_iff hl

/-- Two letters without a ligature in the table are never both there. -/
theorem pair_lost {c x : UInt8} {t : Bytes} (h : candidate c (x::t) = (0,2)) :
    ¬LongestUsed font.findGlyphIndex (c::x::t) (codepoints font (c::x::t)) := by
  rw [codepoints_pair h]
  refine not_longestUsed ?_
  split_ifs
  · rw [lettersOf_signed]
    exact le_rfl
  · decide

/-- Longer ligatures go on from `ff`. -/
theorem usable_longer {find : ℤ → ℤ} {text : Bytes} {l : Bytes × ℤ} (h : Usable find text l)
    (hlong : 2 < l.1.length) :
    (∃ t, text = 102::102::105::t) ∧ find 0xFB03 ≠ 0 ∨
      (∃ t, text = 102::102::108::t) ∧ find 0xFB04 ≠ 0 := by
  have hmem : l ∈ ligatures := h.mem
  have hall : ∀ l ∈ ligatures, 2 < l.1.length →
      l = (bytes "ffi",0xFB03) ∨ l = (bytes "ffl",0xFB04) := by decide
  obtain ⟨t,ht⟩ := h.begins
  obtain rfl | rfl := hall l hmem hlong
  · exact .inl ⟨⟨t,ht.symm⟩,h.supported⟩
  · exact .inr ⟨⟨t,ht.symm⟩,h.supported⟩

theorem longest_two {find : ℤ → ℤ} {x : UInt8} (hx : x ≠ 102) (t : Bytes) :
    ∀ l, Usable find (102::x::t) l → l.1.length ≤ 2 := by
  intro l hl
  by_contra hlong
  obtain ⟨⟨u,heq⟩,-⟩ | ⟨⟨u,heq⟩,-⟩ := usable_longer hl (by omega)
  · exact hx (List.head_eq_of_cons_eq (List.tail_eq_of_cons_eq heq))
  · exact hx (List.head_eq_of_cons_eq (List.tail_eq_of_cons_eq heq))

theorem longest_ff_iff {find : ℤ → ℤ} (t : Bytes) :
    (∀ l, Usable find (102::102::t) l → l.1.length ≤ 2) ↔
      (t.head? = some 105 → find 0xFB03 = 0) ∧ (t.head? = some 108 → find 0xFB04 = 0) := by
  constructor
  · intro h
    constructor
    · intro hhead
      obtain ⟨u,rfl⟩ := List.head?_eq_some_iff.1 hhead
      by_contra hfind
      have hmem : (bytes "ffi",(0xFB03 : ℤ)) ∈ ligatures := by decide
      exact absurd (h _ ⟨hmem,⟨u,rfl⟩,hfind⟩) (by decide)
    · intro hhead
      obtain ⟨u,rfl⟩ := List.head?_eq_some_iff.1 hhead
      by_contra hfind
      have hmem : (bytes "ffl",(0xFB04 : ℤ)) ∈ ligatures := by decide
      exact absurd (h _ ⟨hmem,⟨u,rfl⟩,hfind⟩) (by decide)
  · intro ⟨hi,hl⟩ l husable
    by_contra hlong
    obtain ⟨⟨u,heq⟩,hfind⟩ | ⟨⟨u,heq⟩,hfind⟩ := usable_longer husable (by omega)
    · cases heq
      exact hfind (hi rfl)
    · cases heq
      exact hfind (hl rfl)

theorem longestUsed_iff (text : Bytes) :
    LongestUsed font.findGlyphIndex text (codepoints font text) ↔
      PairsShape font.findGlyphIndex text := by
  induction text using PairsShape.induct with
  | case1 t ih =>
      rw [pair_iff (candidate_fi t) (by decide),PairsShape,ih]
      exact and_congr_right fun _ => and_iff_right (longest_two (by decide) t)
  | case2 t ih =>
      rw [pair_iff (candidate_fl t) (by decide),PairsShape,ih]
      exact and_congr_right fun _ => and_iff_right (longest_two (by decide) t)
  | case3 t ih =>
      rw [pair_iff (candidate_ff t) (by decide),PairsShape,ih,longest_ff_iff,and_assoc]
  | case4 t => exact iff_of_false (pair_lost (candidate_ft t)) (by rw [PairsShape]; exact id)
  | case5 t => exact iff_of_false (pair_lost (candidate_st t)) (by rw [PairsShape]; exact id)
  | case6 c t hfi hfl hff hft hst ih =>
      have hother : ∀ x u, t = x::u → ¬BeginsEntry c x := by
        intro x u ht hbegins
        obtain ⟨rfl,rfl | rfl | rfl | rfl⟩ | ⟨rfl,rfl⟩ := hbegins
        · exact hfi u rfl ht
        · exact hfl u rfl ht
        · exact hff u rfl ht
        · exact hft u rfl ht
        · exact hst u rfl ht
      have hcandidate := candidate_other hother
      rw [codepoints_single hcandidate,
        longestUsed_single_iff (choose_single hcandidate).2 (no_ligature hother),ih,PairsShape]
      all_goals assumption
  | case7 =>
      rw [codepoints,PairsShape]
      exact iff_of_true .nil trivial

theorem spelled_eq (glyphs : List (ShapedGlyph F)) :
    glyphs.flatMap (fun g => lettersOf g.codepoint) =
      (glyphs.map ShapedGlyph.codepoint).flatMap lettersOf := by
  induction glyphs with
  | nil => rfl
  | cons g glyphs ih => rw [List.flatMap_cons,List.map_cons,List.flatMap_cons,ih]

/-- All five ligatures of the font are used, and no letter is lost, only where the table leads to
them. -/
theorem shaped_well_iff (text : Bytes) (letterSpacing : F) :
    ShapedWell font (text.takeWhile (· ≠ 0)) (shaperShape font text letterSpacing) ↔
      PairsShape font.findGlyphIndex (text.takeWhile (· ≠ 0)) := by
  have hcodepoints : (shaperShape font text letterSpacing).glyphs.map ShapedGlyph.codepoint =
      codepoints font (text.takeWhile (· ≠ 0)) :=
    shapeLoop_codepoints font letterSpacing ⟨[],0,font.zero⟩ _
  rw [← longestUsed_iff,← hcodepoints]
  constructor
  · exact fun h => h.longest
  · intro hused
    refine ⟨fun _ => ?_,hused,?_⟩
    · rw [spelled_eq]
      exact hused.spells
    · rw [← List.length_map ShapedGlyph.codepoint,hcodepoints]
      exact codepoints_length font _

end

/-- A font of the Latin letters and all ligatures, without widths. -/
def latinFont : Font ℤ where
  findGlyphIndex cp := if 0 < cp ∧ cp < 256 ∨ 0xFB00 ≤ cp ∧ cp ≤ 0xFB04 then cp else 0
  advanceWidth _ := 0
  glyphKernAdvance _ _ := 0
  kerningLoaded := true
  kernTable := []
  zero := 0
  scaled := id
  add := (· + ·)

/-- The font has every letter of `first` but the `s` is gone, and for `ffi` it has one glyph but
two are taken. -/
theorem first_without_its_s :
    (∀ c ∈ bytes "first", latinFont.findGlyphIndex c.toNat ≠ 0) ∧
    (shaperShape latinFont (bytes "first") 0).glyphs.flatMap (fun g => lettersOf g.codepoint) =
      bytes "firt" ∧
    Usable latinFont.findGlyphIndex (bytes "ffi") (bytes "ffi",0xFB03) ∧
    (shaperShape latinFont (bytes "ffi") 0).glyphs.map ShapedGlyph.codepoint = [0xFB00,105] := by
  have hfirst : codepoints latinFont [102,105,114,115,116] = [0xFB01,114,116] := by
    rw [codepoints_pair (candidate_fi _),codepoints_single (candidate_other (by simp [BeginsEntry])),
      codepoints_pair (candidate_st _),codepoints]
    decide +kernel
  have hffi : codepoints latinFont [102,102,105] = [0xFB00,105] := by
    rw [codepoints_pair (candidate_ff _),codepoints_single (candidate_other (by simp)),codepoints]
    decide +kernel
  refine ⟨by decide +kernel,?_,⟨by decide,⟨[],rfl⟩,by decide +kernel⟩,?_⟩
  · rw [spelled_eq,shaperShape,shapeLoop_codepoints,
      show (bytes "first").takeWhile (· ≠ 0) = [102,105,114,115,116] by decide,hfirst]
    decide
  · rw [shaperShape,shapeLoop_codepoints,
      show (bytes "ffi").takeWhile (· ≠ 0) = [102,102,105] by decide,hffi]
    decide

end Filly.Shaper

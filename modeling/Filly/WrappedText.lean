import Filly.Animation
import Filly.TerminalRenderer

/-!
# Wrapped text

A text is written in rows of `w` cells. A row ends at a newline, at the end of the text or of
the characters that are visible yet, or when it is full; a full row that is not at the end of
its line goes back to a space if there is one.
-/
namespace Filly.Rendering
open Animation CJson

/-! ## The rows -/

/-- `col` when the inner loop ends. -/
def lineCol (w charsLeft : ℤ) : ℕ → Bytes → ℕ
  | col, [] => col
  | col, c::t => if c ≠ 10 ∧ col < w ∧ col < charsLeft then lineCol w charsLeft (col+1) t else col

/-- Back from `p+k` to a space behind `p`; zero if there is none. -/
def spaceBefore (p : Bytes) : ℕ → ℕ
  | 0 => 0
  | k+1 => if p.getD (k+1) 0 = 32 then k+1 else spaceBefore p k

/-- `col` for the row at `p`. -/
def rowCol (w charsLeft : ℤ) (p : Bytes) : ℕ :=
  let col := lineCol w charsLeft 0 p
  match p.drop col with
  | [] => col
  | c::_ =>
      if col = w ∧ c ≠ 10 then
        let space := spaceBefore p col
        if 0 < space then space else col
      else col

/-- A newline is skipped. -/
def skipNewline : Bytes → Bytes
  | [] => []
  | c::t => if c = 10 then t else c::t

/-- The texts of at most `h` rows. -/
def textRows (w : ℤ) : ℕ → ℤ → Bytes → List Bytes
  | 0, _, _ => []
  | _+1, _, [] => []
  | h+1, charsLeft, c::t =>
      if 0 < charsLeft then
        let col := rowCol w charsLeft (c::t)
        (c::t).take col::textRows w h (charsLeft-col) (skipNewline ((c::t).drop col))
      else []

def rowPad (w : ℤ) (align : Themes.Alignment) (row : Bytes) : ℤ :=
  let pad := match align with
    | .center => (w-row.length).tdiv 2
    | .right => w-row.length
    | .left => 0
  if pad < 0 then 0 else pad

/-- A row is filled up with spaces. -/
def rowCells (w : ℤ) (align : Themes.Alignment) (row : Bytes) : Bytes :=
  let pad := rowPad w align row
  rounds pad (fun _ => [32])++row++rounds (w-(pad+row.length)) fun _ => [32]

section
variable {γ : Type}

def drawTextWrapped (x y w h : ℤ) (text : Option Bytes) (align : Themes.Alignment)
    (ws : WidgetStyle γ) (visibleChars : ℤ) : Bytes :=
  match text with
  | none => []
  | some text =>
      if w ≤ 0 ∨ h ≤ 0 then []
      else if visibleChars = 0 then []
      else
        let rows := textRows w h.toNat (if visibleChars < 0 then 999999 else visibleChars) text
        setStyle ws++
          (rows.zipIdx.flatMap fun row => moveTo x (y+row.2)++rowCells w align row.1)++
          rounds (h-rows.length) (fun i => moveTo x (y+rows.length+i)++rounds w fun _ => [32])++
          resetStyle

end

/-- The position of the first typewriter that runs; without one all characters are visible. -/
def getTypewriterChars (activeAnimations : List AnimInstance) : ℤ :=
  match activeAnimations.find? fun inst =>
      inst.playing && !inst.paused && inst.definition.tuiType = .typewriter with
  | some inst => inst.typewriterPos
  | none => -1

/-! ## What a row takes -/

/-- The characters of a text that are written. -/
def letters (text : Bytes) : Bytes := text.filter (· ≠ 10)

/-- A text up to its first newline. -/
def firstLine (text : Bytes) : Bytes := text.takeWhile (· ≠ 10)

theorem firstLine_cons {c : UInt8} (hc : c ≠ 10) (t : Bytes) :
    firstLine (c::t) = c::firstLine t :=
  List.takeWhile_cons_of_pos (decide_eq_true hc)

theorem firstLine_newline (t : Bytes) : firstLine (10::t) = [] := rfl

theorem not_mem_firstLine (p : Bytes) : (10 : UInt8) ∉ firstLine p := by
  intro h
  have hten := List.mem_takeWhile_imp (p := fun c : UInt8 => decide (c ≠ 10)) h
  exact of_decide_eq_true hten rfl

/-- A row in the first line has no newline. -/
theorem not_mem_take {p : Bytes} {k : ℕ} (hk : k ≤ (firstLine p).length) : 10 ∉ p.take k := by
  obtain ⟨t,ht⟩ := List.takeWhile_prefix (p := fun c : UInt8 => decide (c ≠ 10)) (l := p)
  have hp : firstLine p++t = p := ht
  have htake : (firstLine p++t).take k = (firstLine p).take k := List.take_append_of_le_length hk
  rw [hp] at htake
  rw [htake]
  exact fun hten => not_mem_firstLine p (List.mem_of_mem_take hten)

theorem lineCol_eq {w charsLeft : ℤ} {m : ℕ} (hm : m = min w charsLeft) (p : Bytes) :
    ∀ col ≤ m, lineCol w charsLeft col p = min (col+(firstLine p).length) m := by
  induction p with
  | nil =>
      intro col hcol
      rw [lineCol,firstLine,List.takeWhile_nil,List.length_nil]
      omega
  | cons c t ih =>
      intro col hcol
      rw [lineCol]
      split_ifs with hgo
      · obtain ⟨hc,hw,hleft⟩ := hgo
        rw [ih (col+1) (by omega),firstLine_cons hc,List.length_cons]
        congr 1
        omega
      · by_cases hc : c = 10
        · rw [hc,firstLine_newline,List.length_nil]
          omega
        · have hfull : col = m := by
            by_contra hne
            exact hgo ⟨hc,by omega,by omega⟩
          omega

theorem spaceBefore_le (p : Bytes) (k : ℕ) : spaceBefore p k ≤ k := by
  induction k with
  | zero => exact le_rfl
  | succ k ih =>
      rw [spaceBefore]
      split_ifs
      · exact le_rfl
      · omega

/-- The length of a row is at most what the inner loop reaches, and not zero if that is not. -/
theorem rowCol_bounds (w charsLeft : ℤ) (p : Bytes) :
    rowCol w charsLeft p ≤ lineCol w charsLeft 0 p ∧
      (0 < lineCol w charsLeft 0 p → 0 < rowCol w charsLeft p) := by
  have hspace := spaceBefore_le p (lineCol w charsLeft 0 p)
  unfold rowCol
  dsimp only
  split
  · exact ⟨le_rfl,id⟩
  · split_ifs with hfull hpos
    · exact ⟨hspace,fun _ => hpos⟩
    · exact ⟨le_rfl,id⟩
    · exact ⟨le_rfl,id⟩

/-- A row and what is left after it. -/
structure RowStep (w charsLeft : ℤ) (p : Bytes) (col : ℕ) : Prop where
  width : (col : ℤ) ≤ w
  visible : (col : ℤ) ≤ charsLeft
  inside : col ≤ p.length
  spells : letters p = p.take col++letters (skipNewline (p.drop col))
  shorter : (skipNewline (p.drop col)).length < p.length

theorem letters_eq_self {text : Bytes} (h : 10 ∉ text) : letters text = text := by
  rw [letters,List.filter_eq_self]
  intro c hc
  exact decide_eq_true fun heq => h (heq ▸ hc)

theorem letters_skipNewline (p : Bytes) : letters (skipNewline p) = letters p := by
  cases p with
  | nil => rfl
  | cons c t =>
      rw [skipNewline]
      split_ifs with hc
      · rw [letters,letters,List.filter_cons_of_neg (by simp [hc])]
      · rfl

theorem skipNewline_suffix (p : Bytes) : skipNewline p <:+ p := by
  cases p with
  | nil => exact List.suffix_rfl
  | cons c t =>
      rw [skipNewline]
      split_ifs
      · exact List.suffix_cons c t
      · exact List.suffix_rfl

/-- Backing up to a space neither drops nor repeats a character, and a row goes on in the
text. -/
theorem rowStep {w charsLeft : ℤ} {p : Bytes} (hw : 0 < w) (hleft : 0 < charsLeft) (hp : p ≠ []) :
    RowStep w charsLeft p (rowCol w charsLeft p) := by
  obtain ⟨m,hm⟩ := Int.eq_ofNat_of_zero_le (le_min hw.le hleft.le)
  have hm : (m : ℤ) = min w charsLeft := hm.symm
  obtain ⟨hle,hpos⟩ := rowCol_bounds w charsLeft p
  rw [lineCol_eq hm p 0 (Nat.zero_le m),Nat.zero_add] at hle hpos
  have hline : rowCol w charsLeft p ≤ (firstLine p).length := by omega
  have hbegin : firstLine p <+: p := List.takeWhile_prefix _
  have hinside := hline.trans hbegin.length_le
  refine ⟨by omega,by omega,hinside,?_,?_⟩
  · have hletters := letters_eq_self (not_mem_take hline)
    rw [letters_skipNewline,← hletters,letters,letters,letters,← List.filter_append,
      List.take_append_drop]
  · have hskip := (skipNewline_suffix (p.drop (rowCol w charsLeft p))).length_le
    rw [List.length_drop] at hskip
    by_cases hzero : rowCol w charsLeft p = 0
    · -- an empty row stands before a newline
      rw [hzero,List.drop_zero]
      obtain ⟨c,t,rfl⟩ := List.exists_cons_of_ne_nil hp
      have hc : c = 10 := by
        by_contra hc
        have hfirst : 0 < (firstLine (c::t)).length := by
          rw [firstLine_cons hc]
          exact Nat.succ_pos _
        omega
      rw [skipNewline,if_pos hc]
      exact Nat.lt_succ_self _
    · omega

/-! ## All rows of a text -/

theorem textRows_nil (w : ℤ) (h : ℕ) (charsLeft : ℤ) : textRows w h charsLeft [] = [] := by
  cases h <;> rfl

theorem textRows_cons (w : ℤ) (h : ℕ) {charsLeft : ℤ} (hleft : 0 < charsLeft) {p : Bytes}
    (hp : p ≠ []) :
    textRows w (h+1) charsLeft p =
      p.take (rowCol w charsLeft p)::
        textRows w h (charsLeft-rowCol w charsLeft p) (skipNewline (p.drop (rowCol w charsLeft p))) := by
  obtain ⟨c,t,rfl⟩ := List.exists_cons_of_ne_nil hp
  rw [textRows,if_pos hleft]

theorem textRows_hidden (w : ℤ) (h : ℕ) {charsLeft : ℤ} (hleft : ¬0 < charsLeft) (p : Bytes) :
    textRows w h charsLeft p = [] := by
  cases h with
  | zero => rfl
  | succ h =>
      cases p with
      | nil => rfl
      | cons c t => rw [textRows,if_neg hleft]

theorem textRows_length (w : ℤ) (h : ℕ) (charsLeft : ℤ) (p : Bytes) :
    (textRows w h charsLeft p).length ≤ h := by
  fun_induction textRows w h charsLeft p with
  | case1 => exact le_rfl
  | case2 => exact Nat.zero_le _
  | case3 h charsLeft c t _ col ih => exact Nat.succ_le_succ ih
  | case4 => exact Nat.zero_le _

section
variable {w : ℤ} (hw : 0 < w)
include hw

/-- A row more does not change those above it. -/
theorem textRows_take (h : ℕ) : ∀ (k : ℕ) (charsLeft : ℤ) (p : Bytes), p.length ≤ k →
    textRows w h charsLeft p = (textRows w k charsLeft p).take h := by
  induction h with
  | zero => exact fun k charsLeft p _ => (List.take_zero).symm
  | succ h ih =>
      intro k charsLeft p hk
      by_cases hp : p = []
      · rw [hp,textRows_nil,textRows_nil,List.take_nil]
      by_cases hleft : 0 < charsLeft
      · have hstep := rowStep hw hleft hp
        obtain ⟨k,rfl⟩ := Nat.exists_eq_succ_of_ne_zero
          (ne_of_gt ((List.length_pos_of_ne_nil hp).trans_le hk))
        rw [textRows_cons w h hleft hp,textRows_cons w k hleft hp,List.take_succ_cons,
          ih k _ _ (Nat.le_of_lt_succ (hstep.shorter.trans_le hk))]
      · rw [textRows_hidden w _ hleft,textRows_hidden w _ hleft,List.take_nil]

theorem textRows_width (h : ℕ) : ∀ (charsLeft : ℤ) (p : Bytes),
    ∀ row ∈ textRows w h charsLeft p, (row.length : ℤ) ≤ w := by
  induction h with
  | zero => exact fun charsLeft p row hrow => absurd hrow List.not_mem_nil
  | succ h ih =>
      intro charsLeft p row hrow
      by_cases hp : p = []
      · rw [hp,textRows_nil] at hrow
        exact absurd hrow List.not_mem_nil
      by_cases hleft : 0 < charsLeft
      · have hstep := rowStep hw hleft hp
        rw [textRows_cons w h hleft hp] at hrow
        obtain rfl | hrow := List.mem_cons.1 hrow
        · rw [List.length_take,min_eq_left hstep.inside]
          exact hstep.width
        · exact ih _ _ row hrow
      · rw [textRows_hidden w _ hleft] at hrow
        exact absurd hrow List.not_mem_nil

/-- With a row for each character the rows spell all that is visible. -/
theorem textRows_spells (h : ℕ) : ∀ (charsLeft : ℤ) (p : Bytes), p.length ≤ h →
    (textRows w h charsLeft p).flatten = (letters p).take charsLeft.toNat := by
  induction h with
  | zero =>
      intro charsLeft p hh
      rw [List.length_eq_zero_iff.1 (Nat.le_zero.1 hh)]
      exact (List.take_nil).symm
  | succ h ih =>
      intro charsLeft p hh
      by_cases hp : p = []
      · rw [hp,textRows_nil]
        exact (List.take_nil).symm
      by_cases hleft : 0 < charsLeft
      · have hstep := rowStep hw hleft hp
        have hlength : (p.take (rowCol w charsLeft p)).length = rowCol w charsLeft p := by
          rw [List.length_take,min_eq_left hstep.inside]
        have hvisible := hstep.visible
        rw [textRows_cons w h hleft hp,List.flatten_cons,
          ih _ _ (Nat.le_of_lt_succ (hstep.shorter.trans_le hh)),hstep.spells,List.take_append,
          List.take_of_length_le (hlength.trans_le (by omega)),hlength]
        congr 2
        omega
      · rw [textRows_hidden w _ hleft,show charsLeft.toNat = 0 by omega]
        rfl

end

/-! ## What is drawn -/

/-- The visible characters of a text: all if the limit is negative. -/
def visible (text : Bytes) (visibleChars : ℤ) : Bytes :=
  if visibleChars < 0 then letters text else (letters text).take visibleChars.toNat

/-- Without a typewriter the whole text is visible. -/
theorem visible_without_typewriter {activeAnimations : List AnimInstance}
    (h : ∀ inst ∈ activeAnimations, inst.playing → inst.paused = false →
      inst.definition.tuiType ≠ .typewriter) (text : Bytes) :
    visible text (getTypewriterChars activeAnimations) = letters text := by
  have hnone : activeAnimations.find? (fun inst =>
      inst.playing && !inst.paused && inst.definition.tuiType = .typewriter) = none := by
    rw [List.find?_eq_none]
    intro inst hinst hruns
    simp only [Bool.and_eq_true,Bool.not_eq_true',decide_eq_true_eq] at hruns
    exact h inst hinst hruns.1.1 hruns.1.2 hruns.2
  rw [getTypewriterChars,hnone]
  rfl

/-- Of the rows that a text takes the first `h` are drawn, and they have what is visible. -/
structure DrawnIn (w h : ℤ) (align : Themes.Alignment) (shown : Bytes) (all rows : List Bytes) :
    Prop where
  first : rows = all.take h.toNat
  height : (rows.length : ℤ) ≤ h
  width : ∀ row ∈ rows, (row.length : ℤ) ≤ w ∧ ((rowCells w align row).length : ℤ) = w
  inOrder : rows.flatten <+: shown
  complete : (all.length : ℤ) ≤ h → rows.flatten = shown

/-- What is on the screen where rows are drawn. -/
def screen {γ : Type} (x y w h : ℤ) (align : Themes.Alignment) (ws : WidgetStyle γ)
    (rows : List Bytes) : Bytes :=
  setStyle ws++(rows.zipIdx.flatMap fun row => moveTo x (y+row.2)++rowCells w align row.1)++
    rounds (h-rows.length) (fun i => moveTo x (y+rows.length+i)++rounds w fun _ => [32])++
    resetStyle

theorem rounds_space_length (n : ℤ) : (rounds n fun _ => [32]).length = n.toNat := by
  rw [rounds,List.length_flatMap]
  simp

/-- A row that fits fills the width. -/
theorem rowCells_length {w : ℤ} {row : Bytes} (hrow : (row.length : ℤ) ≤ w)
    (align : Themes.Alignment) : ((rowCells w align row).length : ℤ) = w := by
  have hpad : 0 ≤ rowPad w align row ∧ rowPad w align row+row.length ≤ w := by
    have hhalf : (w-row.length).tdiv 2 = (w-row.length)/2 :=
      Int.tdiv_eq_ediv_of_nonneg (by omega)
    unfold rowPad
    cases align <;> dsimp only <;> split_ifs <;> omega
  rw [rowCells,List.length_append,List.length_append,rounds_space_length,rounds_space_length]
  omega

theorem drawTextWrapped_eq {γ : Type} (x y : ℤ) {w h : ℤ} (hw : 0 < w) (hh : 0 < h) (text : Bytes)
    (align : Themes.Alignment) (ws : WidgetStyle γ) {visibleChars : ℤ} (hvisible : visibleChars ≠ 0) :
    drawTextWrapped x y w h (some text) align ws visibleChars =
      screen x y w h align ws
        (textRows w h.toNat (if visibleChars < 0 then 999999 else visibleChars) text) := by
  rw [drawTextWrapped]
  dsimp only
  rw [if_neg (by omega),if_neg hvisible,screen]

example : textRows 4 9 7 (bytes "to\ntype ab") = [bytes "to",bytes "type",bytes " "] := by
  decide +kernel

end Filly.Rendering

import Filly.Layout
import Filly.WrappedText

/-!
# Measured heights

`measure_text_height` counts the characters of a line, as if each row but the last were full.
What is drawn breaks its rows at spaces. Of all ways to break a text there, drawing takes one
with the fewest rows, so the measure is right where there is any that is not longer.
-/
namespace Filly.Rendering
open CJson
open Layout (measureTextHeight)

/-! ## Breaking a text into rows -/

/-- A row can end where its line does, before a space, or inside of a word that it has not begun
with another one. -/
structure Cut (w : ℤ) (row rest : Bytes) : Prop where
  fits : (row.length : ℤ) ≤ w
  inLine : 10 ∉ row
  ends : rest = [] ∨ rest.head? = some 10 ∨ rest.head? = some 32 ∨ 32 ∉ row.tail

/-- The text can be broken into `n` rows. -/
inductive Breaks (w : ℤ) : Bytes → ℕ → Prop
  | done : Breaks w [] 0
  | row {row rest n} (cut : Cut w row rest) (below : Breaks w (skipNewline rest) n) :
      Breaks w (row++rest) (n+1)

/-- The rows are not more than `h`, whatever the room and the limit, if only the whole text is
visible, and in `h` rows it is there. -/
structure ShownIn (w h : ℤ) (text : Bytes) : Prop where
  rows : ∀ (room : ℕ) (charsLeft : ℤ), (letters text).length < charsLeft →
    ((textRows w room charsLeft text).length : ℤ) ≤ h
  whole : ∀ charsLeft : ℤ, (letters text).length < charsLeft →
    (textRows w h.toNat charsLeft text).flatten = letters text

/-- The rows of the lines if words did not matter. -/
def countedRows (w : ℤ) (text : Bytes) : ℤ :=
  ((text.splitOn 10).map fun line => (line.length : ℤ)/w+1).sum

/-! ## What the measure counts -/

/-- A character of `measure_text_height`. -/
def measureStep (w : ℤ) (s : ℤ × ℤ) (c : UInt8) : ℤ × ℤ :=
  if c = 10 then (s.1+1,0) else if s.2+1 ≥ w then (s.1+1,0) else (s.1,s.2+1)

theorem measureTextHeight_eq {w : ℤ} (hw : 0 < w) (text : Bytes) (fontSize : ℤ) :
    measureTextHeight (some text) fontSize w false = (text.foldl (measureStep w) (1,0)).1 := by
  rw [measureTextHeight]
  simp only [Bool.false_eq_true,if_false,if_neg (not_le.2 hw),mul_one,
    if_neg (show ¬(1 : ℤ) ≤ 0 by decide),Int.tdiv_one]
  rfl

theorem foldl_line {w : ℤ} (hw : 0 < w) {line : Bytes} (hline : 10 ∉ line) :
    ∀ n k : ℤ, 0 ≤ k → k < w →
      line.foldl (measureStep w) (n,k) = (n+(k+line.length)/w,(k+line.length)%w) := by
  induction line with
  | nil =>
      intro n k hk hkw
      rw [List.foldl_nil,List.length_nil,Nat.cast_zero,add_zero,Int.ediv_eq_zero_of_lt hk hkw,
        Int.emod_eq_of_lt hk hkw,add_zero]
  | cons c t ih =>
      intro n k hk hkw
      have hc := List.ne_of_not_mem_cons hline
      have ht := List.not_mem_of_not_mem_cons hline
      rw [List.foldl_cons,measureStep,if_neg hc.symm,List.length_cons,Nat.cast_add,Nat.cast_one]
      split_ifs with hfull
      · obtain rfl : w = k+1 := by omega
        rw [ih ht _ 0 le_rfl hw,show k+((t.length : ℤ)+1) = t.length+1*(k+1) by ring,
          Int.add_mul_ediv_right _ _ hw.ne',Int.add_mul_emod_self_right,zero_add]
        congr 1
        ring
      · rw [ih ht _ (k+1) (by omega) (by omega),show k+1+(t.length : ℤ) = k+(t.length+1) by ring]

theorem countedRows_line {w : ℤ} {line : Bytes} (hline : 10 ∉ line) :
    countedRows w line = (line.length : ℤ)/w+1 := by
  rw [countedRows,List.splitOn_eq_singleton hline,List.map_singleton,List.sum_singleton]

theorem countedRows_newline {w : ℤ} {line : Bytes} (hline : 10 ∉ line) (rest : Bytes) :
    countedRows w (line++10::rest) = (line.length : ℤ)/w+1+countedRows w rest := by
  rw [countedRows,List.splitOn_append_cons_self_of_not_mem hline,List.map_cons,List.sum_cons,
    countedRows]

theorem foldl_counted {w : ℤ} (hw : 0 < w) (text : Bytes) :
    ∀ n : ℤ, (text.foldl (measureStep w) (n,0)).1+1 = n+countedRows w text := by
  induction hlength : text.length using Nat.strong_induction_on generalizing text with
  | _ length ih =>
    intro n
    by_cases hten : 10 ∈ text
    · obtain ⟨line,rest,rfl,hline⟩ := List.eq_append_cons_of_mem hten
      have hrest : rest.length < length := by
        rw [← hlength,List.length_append,List.length_cons]
        omega
      rw [List.foldl_append,List.foldl_cons,foldl_line hw hline n 0 le_rfl hw,measureStep,if_pos rfl,
        ih _ hrest rest rfl,countedRows_newline hline,zero_add]
      ring
    · rw [foldl_line hw hten n 0 le_rfl hw,countedRows_line hten,zero_add]
      ring

/-- The measure of a text is the number of rows with all of them full. -/
theorem measured_eq_counted {w : ℤ} (hw : 0 < w) (text : Bytes) (fontSize : ℤ) :
    measureTextHeight (some text) fontSize w false = countedRows w text := by
  have hcount := foldl_counted hw text 1
  rw [measureTextHeight_eq hw]
  omega

/-! ## A row is the longest that can be -/

/-- The row ends where it can, and no other one goes on behind it. -/
structure Longest (w : ℤ) (p : Bytes) (col : ℕ) : Prop where
  cut : Cut w (p.take col) (p.drop col)
  longest : ∀ row rest, p = row++rest → Cut w row rest → row.length ≤ col

theorem spaceBefore_spec (p : Bytes) (k : ℕ) :
    (0 < spaceBefore p k → p[spaceBefore p k]? = some 32) ∧
      ∀ i, spaceBefore p k < i → i ≤ k → p[i]? ≠ some 32 := by
  induction k with
  | zero => exact ⟨fun h => absurd h (lt_irrefl 0),fun i hi hk => absurd hk (not_le.2 hi)⟩
  | succ k ih =>
      rw [spaceBefore]
      split_ifs with hspace
      · refine ⟨fun _ => ?_,fun i hi hk => absurd hk (not_le.2 hi)⟩
        rw [List.getD_eq_getElem?_getD] at hspace
        cases hget : p[k+1]? with
        | none => simp [hget] at hspace
        | some c => simpa [hget] using hspace
      · refine ⟨ih.1,fun i hi hk hget => ?_⟩
        obtain rfl | hk := Nat.eq_or_lt_of_le hk
        · exact hspace (by rw [List.getD_eq_getElem?_getD,hget]; rfl)
        · exact ih.2 i hi (Nat.le_of_lt_succ hk) hget

theorem firstLine_append {row : Bytes} (hrow : 10 ∉ row) (rest : Bytes) :
    firstLine (row++rest) = row++firstLine rest :=
  takeWhile_ne_append hrow rest

theorem firstLine_letters (p : Bytes) : (firstLine p).length ≤ (letters p).length := by
  rw [← letters_eq_self (not_mem_firstLine p)]
  exact ((List.takeWhile_prefix _).filter _).length_le

/-- Behind the first line is a newline or nothing. -/
theorem drop_firstLine (p : Bytes) :
    p.drop (firstLine p).length = [] ∨ (p.drop (firstLine p).length).head? = some 10 := by
  induction p with
  | nil => exact .inl rfl
  | cons c t ih =>
      by_cases hc : c = 10
      · rw [hc]
        exact .inr rfl
      · rw [firstLine_cons hc,List.length_cons,List.drop_succ_cons]
        exact ih

/-- A row that goes on behind the last space has that space in it. -/
theorem cut_before_space {w : ℤ} {row rest : Bytes} (hcut : Cut w row rest) {space reach : ℕ}
    (hpos : 0 < space) (hspace : (row++rest)[space]? = some 32)
    (hlast : ∀ i, space < i → i ≤ reach → (row++rest)[i]? ≠ some 32)
    (hreach : row.length ≤ reach) {c : UInt8} {t : Bytes} (hend : (row++rest).drop reach = c::t)
    (hc : c ≠ 10) (hline : 10 ∉ (row++rest).take reach) : row.length ≤ space := by
  by_contra hlong
  have hnext : rest.head? = (row++rest)[row.length]? := by
    rw [List.getElem?_append_right le_rfl,Nat.sub_self,List.head?_eq_getElem?]
  obtain hrest | hten | hsp | htail := hcut.ends
  · have hlength := congrArg List.length hend
    rw [hrest,List.append_nil,List.length_drop,List.length_cons] at hlength
    omega
  · rw [hnext] at hten
    obtain heq | hlt := Nat.eq_or_lt_of_le hreach
    · rw [heq,← Nat.add_zero reach,← List.getElem?_drop,hend] at hten
      exact hc (Option.some.inj hten)
    · rw [← List.getElem?_take_of_lt hlt] at hten
      exact hline (List.mem_of_getElem? hten)
  · exact hlast row.length (by omega) hreach (hnext ▸ hsp)
  · rw [List.getElem?_append_left (by omega)] at hspace
    refine htail (List.mem_of_getElem? (i := space-1) ?_)
    rw [List.getElem?_tail,Nat.sub_add_cancel hpos,hspace]

/-- As far as the inner loop gets, no row goes on. -/
structure Reach (w : ℤ) (p : Bytes) (reach : ℕ) : Prop where
  fits : (reach : ℤ) ≤ w
  inLine : 10 ∉ p.take reach
  bound : ∀ row rest, p = row++rest → Cut w row rest → row.length ≤ reach

theorem Reach.width {w : ℤ} {p : Bytes} {reach k : ℕ} (h : Reach w p reach) (hk : k ≤ reach) :
    ((p.take k).length : ℤ) ≤ w := by
  have hfits := h.fits
  rw [List.length_take]
  omega

/-- Without a limit the loop ends at the end of the line or of the row. -/
theorem reach_lineCol {w charsLeft : ℤ} {p : Bytes} (hw : 0 < w)
    (hleft : (letters p).length < charsLeft) :
    Reach w p (lineCol w charsLeft 0 p) ∧
      ((lineCol w charsLeft 0 p : ℤ) ≠ w → lineCol w charsLeft 0 p = (firstLine p).length) := by
  have hletters := firstLine_letters p
  obtain ⟨m,hm⟩ := Int.eq_ofNat_of_zero_le (le_min hw.le (show 0 ≤ charsLeft by omega))
  rw [lineCol_eq hm.symm p 0 (Nat.zero_le m),Nat.zero_add]
  refine ⟨⟨by omega,not_mem_take (by omega),?_⟩,by omega⟩
  rintro row rest rfl hcut
  have hrow := hcut.fits
  have hlength := congrArg List.length (firstLine_append hcut.inLine rest)
  rw [List.length_append] at hlength
  omega

/-- Back to the last space. -/
theorem Reach.back {w : ℤ} {p : Bytes} {reach : ℕ} (h : Reach w p reach)
    (hpos : 0 < spaceBefore p reach) {c : UInt8} {t : Bytes} (hend : p.drop reach = c::t)
    (hc : c ≠ 10) : Longest w p (spaceBefore p reach) := by
  obtain ⟨hspace,hlast⟩ := spaceBefore_spec p reach
  have hle := spaceBefore_le p reach
  refine ⟨⟨h.width hle,?_,.inr (.inr (.inl ?_))⟩,?_⟩
  · exact fun hten => h.inLine (List.take_subset_take_left p hle hten)
  · rw [List.head?_drop,hspace hpos]
  · rintro row rest rfl hcut
    exact cut_before_space hcut hpos (hspace hpos) hlast (h.bound row rest rfl hcut) hend hc h.inLine

/-- One word fills the row. -/
theorem Reach.word {w : ℤ} {p : Bytes} {reach : ℕ} (h : Reach w p reach)
    (hnone : spaceBefore p reach = 0) : Longest w p reach := by
  have hlast := (spaceBefore_spec p reach).2
  refine ⟨⟨h.width le_rfl,h.inLine,.inr (.inr (.inr fun htail => ?_))⟩,h.bound⟩
  obtain ⟨i,hi⟩ := List.mem_iff_getElem?.1 htail
  rw [List.getElem?_tail,List.getElem?_take] at hi
  split_ifs at hi with hlt
  · exact hlast (i+1) (by omega) hlt.le hi

/-- The line or the text ends there. -/
theorem Reach.line {w : ℤ} {p : Bytes} {reach : ℕ} (h : Reach w p reach)
    (hend : p.drop reach = [] ∨ (p.drop reach).head? = some 10) : Longest w p reach := by
  refine ⟨⟨h.width le_rfl,h.inLine,?_⟩,h.bound⟩
  obtain hnil | hten := hend
  · exact .inl hnil
  · exact .inr (.inl hten)

theorem rowCol_longest {w charsLeft : ℤ} {p : Bytes} (hw : 0 < w)
    (hleft : (letters p).length < charsLeft) : Longest w p (rowCol w charsLeft p) := by
  obtain ⟨hreach,hline⟩ := reach_lineCol hw hleft
  unfold rowCol
  dsimp only
  generalize lineCol w charsLeft 0 p = reach at hreach hline
  cases hend : p.drop reach with
  | nil => exact hreach.line (.inl hend)
  | cons c t =>
      dsimp only
      split_ifs with hfull hpos
      · exact hreach.back hpos hend hfull.2
      · exact hreach.word (by omega)
      · refine hreach.line ?_
        by_cases hc : c = 10
        · rw [hend,hc]
          exact .inr rfl
        · rw [hline fun heq => hfull ⟨heq,hc⟩]
          exact drop_firstLine p

/-! ## No text is drawn in fewer rows -/

/-- Where a text goes on behind a row, less of it is left than behind a shorter one. -/
theorem skipNewline_drop_suffix (rest : Bytes) (k : ℕ) :
    skipNewline (rest.drop k) <:+ skipNewline rest := by
  cases rest with
  | nil => rw [List.drop_nil]
  | cons c t =>
      cases k with
      | zero => exact List.suffix_rfl
      | succ k =>
          rw [List.drop_succ_cons,skipNewline]
          have hdrop : skipNewline (t.drop k) <:+ t :=
            (skipNewline_suffix _).trans (List.drop_suffix k t)
          split_ifs
          · exact hdrop
          · exact hdrop.trans (List.suffix_cons c t)

/-- What is left of a text from a place on begins below a row or with an end of the row. -/
theorem suffix_of_row {row rest t : Bytes} (h : t <:+ row++rest) :
    t <:+ skipNewline rest ∨ ∃ u, u <:+ row ∧ t = u++rest := by
  obtain ⟨v,hv⟩ := h
  obtain ⟨u,rfl,rfl⟩ | ⟨u,rfl,rfl⟩ := List.append_eq_append_iff.1 hv
  · exact .inr ⟨u,List.suffix_append v u,rfl⟩
  · cases u with
    | nil => exact .inr ⟨[],List.nil_suffix,rfl⟩
    | cons c u =>
        rw [List.cons_append,skipNewline]
        split_ifs
        · exact .inl (List.suffix_append u t)
        · exact .inl (List.suffix_append (c::u) t)

/-- The end of a row could be a row of its own. -/
theorem Cut.suffix {w : ℤ} {row rest u : Bytes} (h : Cut w row rest) (hu : u <:+ row) :
    Cut w u rest := by
  have hlength := hu.length_le
  have hfits := h.fits
  have htails : u.tail ⊆ row.tail := by
    obtain ⟨v,rfl⟩ := hu
    cases v with
    | nil => exact List.Subset.refl _
    | cons c v => exact fun a ha => List.mem_append_right v (List.mem_of_mem_tail ha)
  refine ⟨by omega,fun hten => h.inLine (hu.subset hten),?_⟩
  obtain hrest | hten | hsp | htail := h.ends
  · exact .inl hrest
  · exact .inr (.inl hten)
  · exact .inr (.inr (.inl hsp))
  · exact .inr (.inr (.inr fun hmem => htail (htails hmem)))

section
variable {w : ℤ} (hw : 0 < w)
include hw

/-- However a text is broken, drawing is never behind, since no row of it could be longer. -/
theorem Breaks.fewest {text : Bytes} {n : ℕ} (h : Breaks w text n) :
    ∀ t, t <:+ text → ∀ (room : ℕ) (charsLeft : ℤ), (letters t).length < charsLeft →
      (textRows w room charsLeft t).length ≤ n := by
  induction h with
  | done =>
      intro t ht room charsLeft _
      rw [List.suffix_nil.1 ht,textRows_nil]
      exact le_rfl
  | @row row rest n hcut _ ih =>
      intro t ht room charsLeft hleft
      obtain hbelow | ⟨u,hu,rfl⟩ := suffix_of_row ht
      · exact (ih t hbelow room charsLeft hleft).trans (Nat.le_succ n)
      cases room with
      | zero => exact Nat.zero_le _
      | succ room =>
          by_cases hnil : u++rest = []
          · rw [hnil,textRows_nil]
            exact Nat.zero_le _
          have hpos : 0 < charsLeft := by omega
          have hstep := rowStep hw hpos hnil
          have hlong := (rowCol_longest hw hleft).longest u rest rfl (hcut.suffix hu)
          rw [textRows_cons w room hpos hnil,List.length_cons]
          refine Nat.succ_le_succ (ih _ ?_ room _ ?_)
          · rw [List.drop_append,List.drop_of_length_le hlong,List.nil_append]
            exact skipNewline_drop_suffix rest _
          · have hspells := congrArg List.length hstep.spells
            rw [List.length_append,List.length_take,min_eq_left hstep.inside] at hspells
            omega

/-- What is drawn is a way to break the text. -/
theorem breaks_drawn (room : ℕ) : ∀ (charsLeft : ℤ) (p : Bytes), p.length ≤ room →
    (letters p).length < charsLeft → Breaks w p (textRows w room charsLeft p).length := by
  induction room with
  | zero =>
      intro charsLeft p hroom _
      rw [List.length_eq_zero_iff.1 (Nat.le_zero.1 hroom)]
      exact .done
  | succ room ih =>
      intro charsLeft p hroom hleft
      by_cases hp : p = []
      · rw [hp]
        exact .done
      have hpos : 0 < charsLeft := by omega
      have hstep := rowStep hw hpos hp
      have hspells := congrArg List.length hstep.spells
      rw [List.length_append,List.length_take,min_eq_left hstep.inside] at hspells
      have hbelow := ih (charsLeft-rowCol w charsLeft p) _
        (Nat.le_of_lt_succ (hstep.shorter.trans_le hroom)) (by omega)
      have hbreaks := Breaks.row (rowCol_longest hw hleft).cut hbelow
      rwa [List.take_append_drop,← List.length_cons,← textRows_cons w room hpos hp] at hbreaks

/-- The measure is enough if and only if the text can be broken into as many rows as its
characters fill. -/
theorem measured_height_suffices_iff (text : Bytes) (fontSize : ℤ) :
    ShownIn w (measureTextHeight (some text) fontSize w false) text ↔
      ∃ n : ℕ, Breaks w text n ∧ (n : ℤ) ≤ countedRows w text := by
  rw [measured_eq_counted hw]
  constructor
  · intro h
    exact ⟨_,breaks_drawn hw text.length ((letters text).length+1) text le_rfl (by omega),
      h.rows _ _ (by omega)⟩
  · intro ⟨n,hbreaks,hn⟩
    have hrows : ∀ (room : ℕ) (charsLeft : ℤ), (letters text).length < charsLeft →
        ((textRows w room charsLeft text).length : ℤ) ≤ countedRows w text := by
      intro room charsLeft hleft
      have hfewest := hbreaks.fewest hw text List.suffix_rfl room charsLeft hleft
      omega
    refine ⟨hrows,fun charsLeft hleft => ?_⟩
    have hall := hrows text.length charsLeft hleft
    rw [textRows_take hw _ text.length charsLeft text le_rfl,List.take_of_length_le (by omega),
      textRows_spells hw text.length charsLeft text le_rfl,List.take_of_length_le (by omega)]

end

/-- Two words of three letters fit in their two rows of five cells. -/
theorem two_words_fit :
    ShownIn 5 (measureTextHeight (some (bytes "aaa bbb")) 16 5 false) (bytes "aaa bbb") := by
  have hbreaks := breaks_drawn (w := 5) (by decide) 7 8 (bytes "aaa bbb") (by decide) (by decide)
  rw [show textRows 5 7 8 (bytes "aaa bbb") = [bytes "aaa",bytes " bbb"] by decide +kernel] at hbreaks
  exact (measured_height_suffices_iff (by decide) _ 16).2 ⟨2,hbreaks,by decide +kernel⟩

/-- A container of five cells lays out five such words in four rows, and the last word is not
drawn. -/
theorem fifth_word_is_cut :
    (Layout.layoutTree (.mk {} (.container [.mk {} (.text (some (bytes "aaa bbb ccc ddd eee")))])) 5
      10 false).children.map Layout.RenderTree.rect = [⟨0,0,5,4⟩] ∧
    measureTextHeight (some (bytes "aaa bbb ccc ddd eee")) 0 5 false = 4 ∧
    textRows 5 5 999999 (bytes "aaa bbb ccc ddd eee") =
      [bytes "aaa",bytes " bbb",bytes " ccc",bytes " ddd",bytes " eee"] ∧
    (textRows 5 4 999999 (bytes "aaa bbb ccc ddd eee")).flatten = bytes "aaa bbb ccc ddd" ∧
    ¬ShownIn 5 (measureTextHeight (some (bytes "aaa bbb ccc ddd eee")) 0 5 false)
      (bytes "aaa bbb ccc ddd eee") := by
  refine ⟨by decide +kernel,by decide +kernel,by decide +kernel,by decide +kernel,?_⟩
  intro h
  have hwhole := h.whole 999999 (by decide +kernel)
  revert hwhole
  decide +kernel

end Filly.Rendering

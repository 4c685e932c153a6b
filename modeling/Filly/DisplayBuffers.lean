import Filly.EditorText

/-!
# The buffers of displayed texts

A text editor puts its visible lines together in memory of its own window's size, and a
terminal copies the lines with a match into 65536 bytes. Both count lines or bytes
before they copy a whole line, however long it is. In the model a copy that leaves the
buffer has no outcome.
-/
namespace Filly.DisplayBuffers
open CJson SessionLoop CBuffers TextEditor

/-! ## The text editor -/

variable {β : Type}

/-- A line, with a line end behind it unless it is the last. -/
def displayLine (d : EditorBlock) (last i : ℤ) (display : Bytes) : Option Bytes := do
  let display ← strcat display (← d.line i)
  if i < last-1 then strcat display [10,0] else some display

def displayLines (d : EditorBlock) (last : ℤ) : ℕ → ℤ → Bytes → Option Bytes
  | 0, _, display => some display
  | n+1, i, display => do displayLines d last n (i+1) (← displayLine d last i display)

/-- The size of the window is an `int`. -/
def displaySize (sv : Services β) (base : WidgetBase) (visibleH : ℤ) : ℤ :=
  visibleH*(min (sv.nineTenths base.renderArea.w) (base.renderArea.w-2)+2)

/-- What `text_editor_render` shows; the arena gives it memory of null bytes. -/
def editorDisplay (sv : Services β) (d : EditorBlock) : Option Bytes := do
  let d ← textEditorRender sv d
  let size := displaySize sv d.base d.visibleH
  if 2147483647 < size then none
  else do
    let display ← writeAt (List.replicate size.toNat 0) 0 [0]
    let last := min (d.scroll+d.visibleH) d.lineCount
    textAt (← displayLines d last (last-d.scroll).toNat d.scroll display) 0

/-- The lines in the window. -/
def visibleLines (d : TextEditorData) : List Bytes :=
  (d.lines.drop d.scroll.toNat).take d.visibleH.toNat

theorem strcat_behind {t : Bytes} (ht : 0 ∉ t) (block s : Bytes) :
    strcat block (t++0::s) = strcat block (t++[0]) := by
  rw [strcat,strcat,textAt_start ht,textAt_start ht]

theorem flatten_intersperse (ts : List Bytes) :
    (ts.intersperse [10]).flatten = [10].intercalate ts := rfl

theorem displayLines_eq {d : EditorBlock} {last : ℤ} (ts : List Bytes) {i : ℤ}
    (hts : ∀ j (h : j < ts.length), ∃ s, d.line (i+j) = some (ts[j]++0::s))
    (hnonzero : ∀ t ∈ ts, 0 ∉ t) (hlast : last = i+ts.length) (block : Bytes) :
    displayLines d last ts.length i block = strcatAll block (ts.intersperse [10]) := by
  induction ts generalizing i block with
  | nil => rfl
  | cons t ts ih =>
      obtain ⟨s,hline⟩ := hts 0 (Nat.zero_lt_succ _)
      rw [Nat.cast_zero,add_zero,List.getElem_cons_zero] at hline
      rw [List.forall_mem_cons] at hnonzero
      have hrest := ih (i := i+1) (fun j hj => by
        obtain ⟨s,hs⟩ := hts (j+1) (Nat.succ_lt_succ hj)
        rw [List.getElem_cons_succ] at hs
        rw [show i+1+(j:ℤ) = i+((j+1:ℕ):ℤ) by push_cast; ring]
        exact ⟨s,hs⟩) hnonzero.2 (by rw [hlast]; simp; ring)
      have hline' : displayLine d last i block = (strcat block (t++[0])).bind fun display =>
          if i < last-1 then strcat display [10,0] else some display := by
        rw [displayLine,hline]
        simp only [Option.bind_eq_bind,Option.bind_some,strcat_behind hnonzero.1]
      rw [List.length_cons,displayLines,hline']
      cases ts with
      | nil =>
          have hend : ¬i < last-1 := by
            rw [hlast]
            simp
          simp [hend,strcatAll,displayLines]
      | cons u ts =>
          have hmore : i < last-1 := by
            rw [hlast]
            simp only [List.length_cons]
            push_cast
            omega
          simp only [if_pos hmore,hrest,strcatAll,Option.bind_eq_bind,Option.bind_assoc]
          rw [List.intersperse_cons_cons,List.foldlM_cons]
          rfl

/-- The window of an editor begins before the row of the cursor, and after rendering it
has that row. -/
theorem scroll_render (sv : Services β) {d : TextEditorData} (hlines : d.lines ≠ []) :
    0 ≤ (SessionLoop.textEditorRender sv d).scroll ∧
      (SessionLoop.textEditorRender sv d).scroll ≤ (SessionLoop.textEditorRender sv d).row ∧
      (SessionLoop.textEditorRender sv d).row < d.lines.length ∧
      (SessionLoop.textEditorRender sv d).lines = d.lines ∧
      1 ≤ (SessionLoop.textEditorRender sv d).visibleH := by
  have hpos := List.length_pos_of_ne_nil hlines
  unfold SessionLoop.textEditorRender SessionLoop.teClampCursor
  simp only [if_neg hlines]
  refine ⟨le_max_right _ _,?_,by omega,trivial,le_max_right _ _⟩
  split_ifs
  all_goals omega

theorem length_intercalate {ts : List Bytes} (h : ts ≠ []) :
    ([10].intercalate ts).length+1 = (ts.map List.length).sum+ts.length := by
  induction ts with
  | nil => exact absurd rfl h
  | cons t ts ih =>
      cases ts with
      | nil => simp
      | cons u ts =>
          have hrest := ih (List.cons_ne_nil u ts)
          rw [List.intercalate_cons_of_ne_nil (List.cons_ne_nil u ts)]
          simp only [List.length_append,List.map_cons,List.sum_cons,List.length_cons,
            List.length_nil] at hrest ⊢
          omega

theorem nonzero_intercalate {ts : List Bytes} (h : ∀ t ∈ ts, 0 ∉ t) :
    ∀ t ∈ ts.intersperse [10], 0 ∉ t := by
  induction ts with
  | nil => simp
  | cons t ts ih =>
      rw [List.forall_mem_cons] at h
      cases ts with
      | nil => simpa using h.1
      | cons u ts =>
          rw [List.intersperse_cons_cons,List.forall_mem_cons,List.forall_mem_cons]
          exact ⟨h.1,by decide,ih h.2⟩

variable {b : EditorBlock} {d : TextEditorData}

/-- What is shown fits exactly if the visible lines with their ends fit into the size of the
window, which is no more than an `int`. -/
theorem editorDisplay_iff (sv : Services β) (hb : Stored b d) (hlines : d.lines ≠ []) :
    editorDisplay sv b =
        some ([10].intercalate (visibleLines (SessionLoop.textEditorRender sv d))) ↔
      (((visibleLines (SessionLoop.textEditorRender sv d)).map List.length).sum+
        (visibleLines (SessionLoop.textEditorRender sv d)).length:ℤ) ≤
          displaySize sv d.base (SessionLoop.textEditorRender sv d).visibleH ∧
      displaySize sv d.base (SessionLoop.textEditorRender sv d).visibleH ≤ 2147483647 := by
  obtain ⟨b',hrender,hstored⟩ := stored_render sv hb hlines
  obtain ⟨hscroll,hrow,hlast,hsame,hvisible⟩ := scroll_render sv hlines
  have hbase : (SessionLoop.textEditorRender sv d).base = d.base := teClampCursor_base _
  rw [← hbase]
  generalize SessionLoop.textEditorRender sv d = d' at hstored hscroll hrow hlast hsame hvisible
  rw [← hsame] at hlast
  obtain ⟨scroll,hs⟩ := Int.eq_ofNat_of_zero_le hscroll
  have hvs : visibleLines d' = (d'.lines.drop scroll).take d'.visibleH.toNat := by
    rw [visibleLines,hs]
    rfl
  have hcount : ((visibleLines d').length:ℤ) =
      min (d'.scroll+d'.visibleH) d'.lines.length-d'.scroll := by
    rw [hvs,List.length_take,List.length_drop,hs]
    omega
  have hne : visibleLines d' ≠ [] := List.ne_nil_of_length_pos (by omega)
  have hnonzero : ∀ t ∈ visibleLines d', 0 ∉ t := fun t ht =>
    hstored.nonzero t (List.mem_of_mem_drop (List.mem_of_mem_take ht))
  have hmemory : ∀ j (h : j < (visibleLines d').length),
      ∃ slack, b'.line (d'.scroll+j) = some ((visibleLines d')[j]++0::slack) := by
    intro j hj
    have hin : scroll+j < d'.lines.length := by omega
    obtain ⟨slack,hline⟩ := hstored.line hin
    refine ⟨slack,?_⟩
    have hget : (visibleLines d')[j] = d'.lines[scroll+j] := by simp [hvs]
    rw [hget,← hline,hs]
    push_cast
    rfl
  have hshown := displayLines_eq (visibleLines d') hmemory hnonzero
    (show min (d'.scroll+d'.visibleH) (d'.lines.length:ℤ) =
      d'.scroll+(visibleLines d').length by omega)
  have hnumber : (min (d'.scroll+d'.visibleH) (d'.lines.length:ℤ)-d'.scroll).toNat =
      (visibleLines d').length := by omega
  have hsum : (((visibleLines d').map List.length).sum+(visibleLines d').length:ℤ) =
      ([10].intercalate (visibleLines d')).length+1 := by
    exact_mod_cast (length_intercalate hne).symm
  rw [hsum,editorDisplay,hrender]
  simp only [Option.bind_eq_bind,Option.bind_some,hstored.base,hstored.visibleH,hstored.scroll,
    hstored.lineCount,hnumber,hshown]
  generalize displaySize sv d'.base d'.visibleH = size
  by_cases hlarge : 2147483647 < size
  · rw [if_pos hlarge]
    exact iff_of_false (by simp) (by omega)
  rw [if_neg hlarge,and_iff_left (by omega)]
  rcases le_or_gt size 0 with hsize | hsize
  · have hempty : writeAt (List.replicate size.toNat (0:UInt8)) 0 [0] = none := by
      rw [writeAt,if_neg]
      simp
      omega
    rw [hempty]
    exact iff_of_false (by simp) (by omega)
  · obtain ⟨n,rfl⟩ : ∃ n : ℕ, size = n+1 := ⟨(size-1).toNat,by omega⟩
    have hfirst : writeAt (List.replicate ((n:ℤ)+1).toNat (0:UInt8)) 0 [0] =
        some ([]++0::List.replicate n 0) := by
      have hwrite := writeAt_append [] (List.replicate n (0:UInt8)) (b := [0]) (m := [0]) rfl
      rw [show ((n:ℤ)+1).toNat = n+1 by omega,List.replicate_succ]
      exact hwrite
    have hall := strcatAll_eq (nonzero_intercalate hnonzero) (a := []) List.not_mem_nil
      (List.replicate n 0)
    rw [flatten_intersperse,List.length_replicate] at hall
    rw [hfirst,Option.bind_some,hall]
    split_ifs with hfits
    · have htext : 0 ∉ [10].intercalate (visibleLines d') := by
        intro hmem
        rw [← flatten_intersperse,List.mem_flatten] at hmem
        obtain ⟨t,ht,hzero⟩ := hmem
        exact nonzero_intercalate hnonzero t ht hzero
      rw [Option.bind_some,List.nil_append,textAt_start htext]
      exact iff_of_true rfl (by omega)
    · exact iff_of_false (by simp) (by omega)

/-! ## The terminal -/

def scrollback : ℕ := 65536

/-- The search string is somewhere in the line. -/
def found (search line : Bytes) : Bool :=
  (List.range (line.length+1-search.length)).any fun off =>
    (line.drop off).take search.length = search

theorem rest_lt {text : Bytes} (h : text ≠ []) :
    (text.drop (text.takeWhile (· ≠ 10)).length).tail.length < text.length := by
  have hpos := List.length_pos_of_ne_nil h
  rw [List.length_tail,List.length_drop]
  omega

/-- Lines with a match are copied while fewer than 65280 bytes are. -/
def copyMatches (search filtered : Bytes) (flen : ℕ) (text : Bytes) : Option (Bytes × ℕ) :=
  if _h : text = [] then some (filtered,flen)
  else if scrollback-256 ≤ flen then some (filtered,flen)
  else
    let line := text.takeWhile (· ≠ 10)
    let rest := (text.drop line.length).tail
    if found search line then do
      let filtered ← writeAt filtered flen line
      let filtered ← writeAt filtered (flen+line.length) [10]
      copyMatches search filtered (flen+line.length+1) rest
    else copyMatches search filtered flen rest
termination_by text.length
decreasing_by all_goals exact rest_lt _h

/-- The text that `terminal_emulator_render` shows. The buffer is static, so it has what an
earlier search left in it. -/
def terminalDisplay (filtered search output : Bytes) : Option Bytes :=
  let text := output.takeWhile (· ≠ 0)
  if search = [] then some text
  else do
    let (filtered,flen) ← copyMatches search filtered 0 text
    let filtered ← writeAt filtered flen [0]
    if 0 < flen then textAt filtered 0 else some (bytes "No matches")

/-- The lines that contain the search string. -/
def matchingLines (search text : Bytes) : List Bytes :=
  (text.splitOn 10).filter fun line => search <:+: line

/-- How lines with a match are shown. -/
def shownMatches (lines : List Bytes) : Bytes :=
  if lines = [] then bytes "No matches" else withEnds lines

theorem found_iff (search line : Bytes) : found search line = true ↔ search <:+: line := by
  rw [found,List.any_eq_true]
  constructor
  · rintro ⟨off,-,hoff⟩
    have hmatch := of_decide_eq_true hoff
    rw [← hmatch]
    exact (List.take_prefix _ _).isInfix.trans (List.drop_suffix _ _).isInfix
  · rintro ⟨p,q,rfl⟩
    refine ⟨p.length,?_,?_⟩
    · rw [List.mem_range]
      simp only [List.length_append]
      omega
    · rw [decide_eq_true_eq,List.append_assoc,List.drop_left,List.take_left]

theorem matchingLines_nil {search : Bytes} (hsearch : search ≠ []) :
    matchingLines search [] = [] := by
  rw [matchingLines,List.splitOn_nil,List.filter_cons_of_neg,List.filter_nil]
  simpa using hsearch

/-- The first line of a text and the lines behind it. -/
theorem matchingLines_eq {search : Bytes} (hsearch : search ≠ []) {text : Bytes} (h : text ≠ []) :
    matchingLines search text =
      (if found search (text.takeWhile (· ≠ 10)) then [text.takeWhile (· ≠ 10)] else [])++
        matchingLines search (text.drop (text.takeWhile (· ≠ 10)).length).tail := by
  have hfilter : ∀ line, (if found search line then [line] else []) =
      [line].filter fun line => search <:+: line := by
    intro line
    by_cases hline : search <:+: line
    · rw [if_pos ((found_iff search line).2 hline)]
      simp [hline]
    · rw [if_neg (mt (found_iff search line).1 hline)]
      simp [hline]
  rw [hfilter]
  by_cases hten : 10 ∈ text
  · obtain ⟨line,rest,rfl,hline⟩ := List.eq_append_cons_of_mem hten
    rw [takeWhile_ne_append_cons hline,List.drop_left,List.tail_cons,matchingLines,
      List.splitOn_append_cons_self_of_not_mem hline,← List.singleton_append,List.filter_append]
    rfl
  · have hwhile : text.takeWhile (· ≠ 10) = text := by simpa using takeWhile_ne_append hten []
    rw [hwhile,List.drop_length,List.tail_nil,matchingLines_nil hsearch,List.append_nil,matchingLines,
      List.splitOn_eq_singleton hten]

theorem length_withEnds_cons (line : Bytes) (lines : List Bytes) :
    (withEnds (line::lines)).length = line.length+1+(withEnds lines).length := by
  simp [withEnds]
  omega

theorem eq_nil_of_withEnds {lines : List Bytes} (h : withEnds lines = []) : lines = [] := by
  cases lines with
  | nil => rfl
  | cons line lines => simp [withEnds] at h

/-- The lines before the last leave more than 256 bytes, and all together one byte. -/
def RoomFor (n : ℕ) (lines : List Bytes) : Prop :=
  (lines ≠ [] → n+(withEnds lines.dropLast).length < scrollback-256) ∧
    n+(withEnds lines).length < scrollback

theorem roomFor_cons {n : ℕ} {line : Bytes} {lines : List Bytes} (hn : n < scrollback-256) :
    RoomFor n (line::lines) ↔ RoomFor (n+line.length+1) lines := by
  cases lines with
  | nil => simp [RoomFor,withEnds,hn,add_assoc]
  | cons next lines =>
      have hne : next::lines ≠ [] := List.cons_ne_nil _ _
      rw [RoomFor,RoomFor,List.dropLast_cons_of_ne_nil hne,length_withEnds_cons,
        length_withEnds_cons line (next::lines)]
      simp only [ne_eq,reduceCtorEq,not_false_eq_true,forall_const,add_assoc]

/-- A line goes behind what was copied if the buffer has room for it with its end. -/
theorem writeLine_eq (a line c : Bytes) :
    ((writeAt (a++c) a.length line).bind fun filtered =>
        writeAt filtered ((a.length:ℤ)+line.length) [10]) =
      if line.length+1 ≤ c.length then some (a++(line++[10])++c.drop (line.length+1)) else none := by
  by_cases hroom : line.length ≤ c.length
  · have hfirst : writeAt (a++c) a.length line = some (a++line++c.drop line.length) := by
      have hwrite := writeAt_append a (c.drop line.length) (b := c.take line.length) (m := line)
        (by simp [hroom])
      rwa [List.append_assoc,List.take_append_drop] at hwrite
    rw [hfirst,Option.bind_some,← Nat.cast_add,← List.length_append]
    split_ifs with hend
    · obtain ⟨x,rest,hx⟩ : ∃ x rest, c.drop line.length = x::rest :=
        List.exists_cons_of_ne_nil (by simp; omega)
      have hrest : c.drop (line.length+1) = rest := by
        rw [← List.drop_drop,hx]
        rfl
      have hwrite := writeAt_append (a++line) rest (b := [x]) (m := [10]) rfl
      rw [hrest,hx]
      simpa using hwrite
    · have hnil : c.drop line.length = [] := List.drop_eq_nil_of_le (by omega)
      rw [hnil,List.append_nil,writeAt,if_neg]
      simp
  · have hnone : writeAt (a++c) a.length line = none := by
      rw [writeAt,if_neg]
      simp only [List.length_append]
      omega
    rw [hnone,if_neg (by omega)]
    rfl

theorem copyMatches_found {search : Bytes} {text : Bytes} (htext : text ≠ []) {a c : Bytes}
    (hn : a.length < scrollback-256) (hfound : found search (text.takeWhile (· ≠ 10)) = true) :
    copyMatches search (a++c) a.length text =
      if (text.takeWhile (· ≠ 10)).length+1 ≤ c.length then
        copyMatches search
          (a++(text.takeWhile (· ≠ 10)++[10])++c.drop ((text.takeWhile (· ≠ 10)).length+1))
          (a++(text.takeWhile (· ≠ 10)++[10])).length
          (text.drop (text.takeWhile (· ≠ 10)).length).tail
      else none := by
  have hwrite := writeLine_eq a (text.takeWhile (· ≠ 10)) c
  rw [copyMatches,dif_neg htext,if_neg (by omega)]
  simp only [hfound,if_true]
  generalize text.takeWhile (· ≠ 10) = line at hwrite
  have hlength : (a++(line++[10])).length = a.length+line.length+1 := by simp [add_assoc]
  rw [hlength]
  split_ifs at hwrite ⊢ with hroom
  · obtain ⟨filtered,hfirst,hsecond⟩ := Option.bind_eq_some_iff.1 hwrite
    simp only [hfirst,hsecond,Option.bind_eq_bind,Option.bind_some]
  · rw [Option.bind_eq_bind,← Option.bind_assoc,hwrite]
    rfl

/-- What is copied are the first of the matching lines. -/
theorem copyMatches_prefix {search : Bytes} (hsearch : search ≠ []) {a c text filtered : Bytes}
    {n : ℕ} (h : copyMatches search (a++c) a.length text = some (filtered,n)) :
    ∃ lines c', lines <+: matchingLines search text ∧ filtered = a++withEnds lines++c' ∧
      n = (a++withEnds lines).length := by
  induction hk : text.length using Nat.strong_induction_on generalizing a c text with
  | _ k ih =>
      by_cases htext : text = []
      · rw [copyMatches,dif_pos htext,Option.some.injEq,Prod.mk.injEq] at h
        exact ⟨[],c,List.nil_prefix,by simp [withEnds,h.1],by simp [withEnds,h.2]⟩
      by_cases hn : scrollback-256 ≤ a.length
      · rw [copyMatches,dif_neg htext,if_pos hn,Option.some.injEq,Prod.mk.injEq] at h
        exact ⟨[],c,List.nil_prefix,by simp [withEnds,h.1],by simp [withEnds,h.2]⟩
      rw [matchingLines_eq hsearch htext]
      have hlt := rest_lt htext
      by_cases hfound : found search (text.takeWhile (· ≠ 10)) = true
      · rw [copyMatches_found htext (by omega) hfound] at h
        split_ifs at h
        obtain ⟨lines,c',hfront,hfiltered,hlength⟩ := ih _ (hk ▸ hlt) h rfl
        rw [if_pos hfound]
        refine ⟨text.takeWhile (· ≠ 10)::lines,c',?_,?_,?_⟩
        · exact (List.prefix_cons_inj _).2 hfront
        · rw [hfiltered]
          simp [withEnds]
        · rw [hlength]
          simp [withEnds]
      · rw [copyMatches,dif_neg htext,if_neg hn] at h
        dsimp only at h
        rw [if_neg hfound] at h
        rw [if_neg hfound]
        exact ih _ (hk ▸ hlt) h rfl

/-- All matching lines are copied, with a byte left behind them, exactly if there is room. -/
theorem copyMatches_iff {search : Bytes} (hsearch : search ≠ []) {a c : Bytes}
    (hac : a.length+c.length = scrollback) (text : Bytes) :
    (∃ c', c' ≠ [] ∧ copyMatches search (a++c) a.length text =
        some (a++withEnds (matchingLines search text)++c',
          (a++withEnds (matchingLines search text)).length)) ↔
      RoomFor a.length (matchingLines search text) := by
  induction hk : text.length using Nat.strong_induction_on generalizing a c text with
  | _ k ih =>
      by_cases htext : text = []
      · have hnil : matchingLines search text = [] := htext ▸ matchingLines_nil hsearch
        rw [copyMatches,dif_pos htext,hnil]
        simp only [withEnds,List.flatMap_nil,List.append_nil,RoomFor,ne_eq,not_true_eq_false,
          false_imp_iff,true_and,List.length_nil,add_zero,Option.some.injEq,Prod.mk.injEq,and_true,
          List.append_cancel_left_eq]
        constructor
        · rintro ⟨c',hc',rfl⟩
          have hpos := List.length_pos_of_ne_nil hc'
          omega
        · intro hlt
          exact ⟨c,List.ne_nil_of_length_pos (by omega),rfl⟩
      by_cases hn : scrollback-256 ≤ a.length
      · rw [copyMatches,dif_neg htext,if_pos hn]
        simp only [Option.some.injEq,Prod.mk.injEq]
        generalize matchingLines search text = lines
        constructor
        · rintro ⟨c',hc',hcopied,hlength⟩
          have hnil : lines = [] := by
            refine eq_nil_of_withEnds (List.length_eq_zero_iff.1 ?_)
            rw [List.length_append] at hlength
            omega
          subst hnil
          have hpos := List.length_pos_of_ne_nil hc'
          have htotal := congrArg List.length hcopied
          simp only [withEnds,List.flatMap_nil,List.append_nil,List.length_append] at htotal
          refine ⟨fun hne => absurd rfl hne,?_⟩
          simp only [withEnds,List.flatMap_nil,List.length_nil]
          omega
        · rintro ⟨hlast,hall⟩
          have hnil : lines = [] := by
            by_contra hne
            have := hlast hne
            omega
          subst hnil
          refine ⟨c,List.ne_nil_of_length_pos ?_,by simp [withEnds],by simp [withEnds]⟩
          simp only [withEnds,List.flatMap_nil,List.length_nil] at hall
          omega
      rw [matchingLines_eq hsearch htext]
      have hlt := rest_lt htext
      by_cases hfound : found search (text.takeWhile (· ≠ 10)) = true
      · rw [copyMatches_found htext (by omega) hfound,if_pos hfound,List.singleton_append,
          roomFor_cons (by omega)]
        generalize text.takeWhile (· ≠ 10) = line at hlt
        split_ifs with hroom
        · have hrest := ih _ (hk ▸ hlt) (a := a++(line++[10])) (c := c.drop (line.length+1)) (by
            simp only [List.length_append,List.length_drop,List.length_cons,List.length_nil]
            omega) _ rfl
          have hlength : (a++(line++[10])).length = a.length+line.length+1 := by simp [add_assoc]
          rw [hlength] at hrest
          rw [← hrest,hlength]
          have hends : a++withEnds (line::matchingLines search (text.drop line.length).tail) =
              a++(line++[10])++withEnds (matchingLines search (text.drop line.length).tail) := by
            simp [withEnds]
          rw [hends]
        · refine iff_of_false (by simp) fun h => ?_
          have := h.2
          omega
      · rw [copyMatches,dif_neg htext,if_neg hn]
        dsimp only
        rw [if_neg hfound,if_neg hfound]
        exact ih _ (hk ▸ hlt) hac _ rfl

theorem clean_matchingLines (search text : Bytes) : ∀ t ∈ matchingLines search text, 10 ∉ t :=
  fun t ht => not_mem_splitOn text t (List.mem_of_mem_filter ht)

/-- Other lines are shown as another text. -/
theorem shownMatches_inj {A B : List Bytes} (hA : ∀ t ∈ A, 10 ∉ t) (hB : ∀ t ∈ B, 10 ∉ t)
    (h : shownMatches A = shownMatches B) : A = B := by
  have hlast : ∀ {C : List Bytes}, C ≠ [] → bytes "No matches" ≠ withEnds C := by
    intro C hC hends
    have hten := getLast?_withEnds hC
    rw [← hends] at hten
    revert hten
    decide
  by_cases hnil : A = []
  · by_cases hnil' : B = []
    · rw [hnil,hnil']
    · rw [shownMatches,shownMatches,if_pos hnil,if_neg hnil'] at h
      exact absurd h (hlast hnil')
  · by_cases hnil' : B = []
    · rw [shownMatches,shownMatches,if_neg hnil,if_pos hnil'] at h
      exact absurd h.symm (hlast hnil)
    · rw [shownMatches,shownMatches,if_neg hnil,if_neg hnil'] at h
      have hsplit := congrArg (List.splitOn 10) (congrArg (·++[]) h)
      rw [withEnds,withEnds,splitOn_above hA,splitOn_above hB] at hsplit
      exact List.append_cancel_right hsplit

/-- A text has no more matching lines than one that it is the start of. -/
theorem length_matchingLines_le {search : Bytes} (hsearch : search ≠ []) (text tail : Bytes) :
    (matchingLines search text).length ≤ (matchingLines search (text++tail)).length := by
  induction hk : text.length using Nat.strong_induction_on generalizing text with
  | _ k ih =>
      by_cases htext : text = []
      · rw [htext,matchingLines_nil hsearch]
        exact Nat.zero_le _
      by_cases hten : 10 ∈ text
      · obtain ⟨line,rest,rfl,hline⟩ := List.eq_append_cons_of_mem hten
        have hnext := ih rest.length (by rw [← hk]; simp; omega) rest rfl
        rw [List.append_assoc,List.cons_append,matchingLines,matchingLines,
          List.splitOn_append_cons_self_of_not_mem hline,
          List.splitOn_append_cons_self_of_not_mem hline,List.filter_cons,List.filter_cons]
        split_ifs
        · exact Nat.succ_le_succ hnext
        · exact hnext
      · by_cases hmatch : search <:+: text
        · have hfirst : text <:+: (text++tail).takeWhile (· ≠ 10) := by
            rw [takeWhile_ne_append hten]
            exact (List.prefix_append _ _).isInfix
          have hfound := (found_iff search _).2 (hmatch.trans hfirst)
          rw [@matchingLines_eq search hsearch (text++tail) (by simp [htext]),if_pos hfound,
            matchingLines,List.splitOn_eq_singleton hten]
          simp [hmatch]
        · rw [matchingLines,List.splitOn_eq_singleton hten]
          simp [hmatch]

/-- A line has no other bytes than its text. -/
theorem subset_of_mem_splitOn (text : Bytes) : ∀ t ∈ text.splitOn 10, t ⊆ text := by
  induction text with
  | nil => simp
  | cons c text ih =>
      rw [List.splitOn_cons_eq_if_modifyHead]
      split_ifs
      · rw [List.forall_mem_cons]
        exact ⟨List.nil_subset _,fun t ht => List.subset_cons_of_subset c (ih t ht)⟩
      · generalize text.splitOn 10 = lines at ih
        cases lines with
        | nil => simp
        | cons t lines =>
            rw [List.modifyHead_cons,List.forall_mem_cons]
            rw [List.forall_mem_cons] at ih
            exact ⟨List.cons_subset_cons c ih.1,
              fun u hu => List.subset_cons_of_subset c (ih.2 u hu)⟩

theorem nonzero_withEnds {search text : Bytes} (htext : 0 ∉ text) {lines : List Bytes}
    (h : lines <+: matchingLines search text) : 0 ∉ withEnds lines := by
  intro hmem
  obtain ⟨line,hline,hzero⟩ := List.mem_flatMap.1 hmem
  rw [List.mem_append] at hzero
  have hsub := subset_of_mem_splitOn text line (List.mem_of_mem_filter (h.mem hline))
  exact hzero.elim (fun hz => htext (hsub hz)) (by decide)

/-- The text ends behind the copied lines, if there is a byte left for its end. -/
theorem shown_of_copied {lines : List Bytes} (hnonzero : 0 ∉ withEnds lines) (c : Bytes) :
    ((writeAt (withEnds lines++c) (withEnds lines).length [0]).bind fun filtered =>
        if 0 < (withEnds lines).length then textAt filtered 0 else some (bytes "No matches")) =
      if c = [] then none else some (shownMatches lines) := by
  cases c with
  | nil =>
      rw [if_pos rfl,writeAt,if_neg]
      · rfl
      · simp
  | cons x c =>
      have hwrite := writeAt_append (withEnds lines) c (b := [x]) (m := [0]) rfl
      rw [List.append_assoc,List.append_assoc,List.singleton_append,List.singleton_append] at hwrite
      rw [hwrite,Option.bind_some,if_neg (List.cons_ne_nil _ _)]
      by_cases hnil : lines = []
      · subst hnil
        rfl
      · have hpos : 0 < (withEnds lines).length :=
          List.length_pos_of_ne_nil fun h => hnil (eq_nil_of_withEnds h)
        rw [if_pos hpos,textAt_start hnonzero,shownMatches,if_neg hnil]

/-- A search shows exactly the matching lines in order if no null byte hides one and there
is room for them. -/
theorem terminalDisplay_iff {search : Bytes} (hsearch : search ≠ []) {filtered : Bytes}
    (hfiltered : filtered.length = scrollback) (output : Bytes) :
    terminalDisplay filtered search output = some (shownMatches (matchingLines search output)) ↔
      matchingLines search output = matchingLines search (output.takeWhile (· ≠ 0)) ∧
        RoomFor 0 (matchingLines search output) := by
  have hclean := nul_notMem_takeWhile output
  have hroom := copyMatches_iff hsearch (a := []) (c := filtered) (by simpa using hfiltered)
    (output.takeWhile (· ≠ 0))
  simp only [List.nil_append,List.length_nil] at hroom
  unfold terminalDisplay
  dsimp only
  rw [if_neg hsearch]
  have hle := length_matchingLines_le hsearch (output.takeWhile (· ≠ 0))
    (output.dropWhile (· ≠ 0))
  rw [List.takeWhile_append_dropWhile] at hle
  constructor
  · intro h
    obtain ⟨⟨copied,n⟩,hcopy,h⟩ := Option.bind_eq_some_iff.1 h
    obtain ⟨lines,c',hfront,rfl,rfl⟩ := copyMatches_prefix hsearch (a := []) hcopy
    rw [List.nil_append] at h hcopy
    have hshown := (shown_of_copied (nonzero_withEnds hclean hfront) c').symm.trans h
    split_ifs at hshown with hc'
    have hlines := shownMatches_inj
      (fun t ht => clean_matchingLines search _ t (hfront.mem ht))
      (clean_matchingLines search output) (Option.some.inj hshown)
    have hsame : lines = matchingLines search (output.takeWhile (· ≠ 0)) :=
      hfront.eq_of_length_le (hlines ▸ hle)
    rw [← hlines]
    refine ⟨hsame,?_⟩
    rw [hsame] at hcopy ⊢
    exact hroom.1 ⟨c',hc',hcopy⟩
  · rintro ⟨hsame,hroomFor⟩
    rw [hsame] at hroomFor ⊢
    obtain ⟨c',hc',hcopy⟩ := hroom.2 hroomFor
    have hends : 0 ∉ withEnds (matchingLines search (output.takeWhile (· ≠ 0))) :=
      nonzero_withEnds hclean (List.prefix_refl _)
    have hshown := shown_of_copied hends c'
    rw [if_neg hc'] at hshown
    rw [hcopy]
    exact hshown

/-- An editor shows its visible lines exactly if they fit into the size of its window, and a
search shows the matching lines exactly if none is behind a null byte and there is room for
them all. -/
theorem displays_fit_iff (sv : Services β) :
    (∀ b d, Stored b d → d.lines ≠ [] →
      (editorDisplay sv b =
          some ([10].intercalate (visibleLines (SessionLoop.textEditorRender sv d))) ↔
        (((visibleLines (SessionLoop.textEditorRender sv d)).map List.length).sum+
          (visibleLines (SessionLoop.textEditorRender sv d)).length:ℤ) ≤
            displaySize sv d.base (SessionLoop.textEditorRender sv d).visibleH ∧
        displaySize sv d.base (SessionLoop.textEditorRender sv d).visibleH ≤ 2147483647)) ∧
    ∀ filtered search output, filtered.length = scrollback → search ≠ [] →
      (terminalDisplay filtered search output =
          some (shownMatches (matchingLines search output)) ↔
        matchingLines search output = matchingLines search (output.takeWhile (· ≠ 0)) ∧
          RoomFor 0 (matchingLines search output)) :=
  ⟨fun _ _ hb hlines => editorDisplay_iff sv hb hlines,
    fun _ _ output hfiltered hsearch => terminalDisplay_iff hsearch hfiltered output⟩

/-- An editor of one content in a window of that size. -/
def windowEditor (w h : ℤ) (content : Bytes) : EditorBlock :=
  { textEditorWidgetNew none none (some content) with
    base := { acceptsTextInput := true, renderArea := ⟨0,0,w,h⟩ } }

def windowData (w h : ℤ) (content : Bytes) : TextEditorData :=
  { SessionLoop.textEditorWidgetNew none [] (some content) with
    base := { acceptsTextInput := true, renderArea := ⟨0,0,w,h⟩ } }

theorem stored_window (w h : ℤ) {content : Bytes} (hcontent : 0 ∉ content) :
    Stored (windowEditor w h content) (windowData w h content) :=
  { @stored_new none none (some content) (by simpa using hcontent) with base := rfl }

theorem short_lines_fit :
    editorDisplay fileServices (windowEditor 80 24 [97]) =
        some ([10].intercalate (visibleLines (SessionLoop.textEditorRender fileServices
          (windowData 80 24 [97])))) ∧
      terminalDisplay (List.replicate scrollback 0) [97] [98,10,97,10] =
        some (shownMatches (matchingLines [97] [98,10,97,10])) :=
  ⟨((displays_fit_iff fileServices).1 _ _ (stored_window 80 24 (by decide)) (by decide)).2
      (by decide +kernel),
    ((displays_fit_iff fileServices).2 _ [97] [98,10,97,10] List.length_replicate (by decide)).2
      ⟨by decide +kernel,by rw [RoomFor]; decide +kernel⟩⟩

/-- A line that is too long has no room. -/
theorem not_shown_of_long {n : ℕ} (hn : scrollback ≤ n+1) :
    terminalDisplay (List.replicate scrollback 0) [97] (List.replicate n 97) ≠
      some (shownMatches (matchingLines [97] (List.replicate n 97))) := by
  rw [Ne,terminalDisplay_iff (by decide) List.length_replicate,RoomFor]
  rintro ⟨-,-,hroom⟩
  have hclean : 10 ∉ List.replicate n (97:UInt8) := fun h =>
    absurd (List.eq_of_mem_replicate h) (by decide)
  have hpos : n ≠ 0 := by
    rw [scrollback] at hn
    omega
  have hmatch : [97] <:+: List.replicate n (97:UInt8) :=
    (List.singleton_infix_iff _ _).2 (List.mem_replicate.2 ⟨hpos,rfl⟩)
  have hlines : matchingLines [97] (List.replicate n 97) = [List.replicate n 97] := by
    rw [matchingLines,List.splitOn_eq_singleton hclean]
    simp [hmatch]
  rw [hlines,length_withEnds_cons,List.length_replicate] at hroom
  omega

/-- A line of 200 letters does not fit into a window of 20 by 10, nor a matching line of
70000 letters into the buffer of a search. -/
theorem long_lines_do_not_fit :
    editorDisplay fileServices (windowEditor 20 10 (List.replicate 200 97)) ≠
        some ([10].intercalate (visibleLines (SessionLoop.textEditorRender fileServices
          (windowData 20 10 (List.replicate 200 97))))) ∧
      terminalDisplay (List.replicate scrollback 0) [97] (List.replicate 70000 97) ≠
        some (shownMatches (matchingLines [97] (List.replicate 70000 97))) := by
  constructor
  · rw [Ne,editorDisplay_iff fileServices (stored_window 20 10 (by decide +kernel))
      (by decide +kernel)]
    decide +kernel
  · exact not_shown_of_long (by decide)

end Filly.DisplayBuffers

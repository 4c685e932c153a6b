import Filly.CJson
import Filly.Rectangles
import Mathlib.Data.List.TakeWhile

/-!
# The markdown widget

`markdown_render` makes a text node of each token that `strtok_r` finds between newlines, in an
array with one element for each line of the content. The tokenizer passes over empty lines, and
the text of a bullet goes through a buffer of 1024 bytes.
-/
namespace Filly.Markdown
open CJson Rectangles

structure TextNode where
  rect : Rect
  content : Bytes
  styleClass : Bytes := bytes "text"
  state : Option Bytes := none

/-- Two blanks, a bullet and a blank. -/
def bullet : Bytes := [32,32,226,128,162,32]

def startsWith (line : Bytes) (marker : String) : Bool := (bytes marker).isPrefixOf line

/-- The node that `parse_line` fills in. -/
def lineNode (line : Bytes) (maxW ch : ℤ) : TextNode :=
  let node : TextNode := { rect := ⟨0,0,maxW,ch⟩, content := line }
  if line = [] then node
  else if startsWith line "# " then
    { node with content := line.drop 2, state := some (bytes "title") }
  else if startsWith line "## " then
    { node with content := line.drop 3, state := some (bytes "title") }
  else if startsWith line "- " then { node with content := (bullet++line.drop 2).take 1023 }
  else node

/-- Behind the last element of the array nothing can be written. -/
def parseLine (count : ℕ) (maxW ch : ℤ) (children : List TextNode) (line : Bytes) :
    Option (List TextNode) :=
  if children.length < count then some (children++[lineNode line maxW ch]) else none

/-- The next token, and where the search goes on. -/
def strtokR (s : Bytes) : Option (Bytes × Bytes) :=
  match s.dropWhile (· = 10) with
  | [] => none
  | b::t => some ((b::t).takeWhile (· ≠ 10),((b::t).dropWhile (· ≠ 10)).drop 1)

theorem strtokR_length {s line rest : Bytes} (h : strtokR s = some (line,rest)) :
    rest.length < s.length := by
  have hle := (List.dropWhile_suffix (· = (10:UInt8)) (l := s)).length_le
  rw [strtokR] at h
  split at h
  · cases h
  · next b t heq =>
    rw [heq] at hle
    have hdrop := (List.dropWhile_suffix (· ≠ (10:UInt8)) (l := b::t)).length_le
    cases h
    rw [List.length_drop]
    rw [List.length_cons] at hle hdrop
    omega

def parseLines (count : ℕ) (maxW ch : ℤ) (s : Bytes) (children : List TextNode) :
    Option (List TextNode) :=
  match _ : strtokR s with
  | none => some children
  | some (line,rest) => (parseLine count maxW ch children line).bind (parseLines count maxW ch rest)
termination_by s.length
decreasing_by exact strtokR_length ‹_›

structure MarkdownTree where
  rect : Rect
  children : List TextNode

def lineCount (content : Bytes) : ℕ := 1+content.count 10

/-- Four fifths of the width are computed with a floating-point number. -/
def boxWidth (scaled : ℤ → ℤ) (area : Rect) : ℤ :=
  if area.w-2 < scaled area.w then area.w-2 else scaled area.w

def markdownRender (scaled : ℤ → ℤ) (area : Rect) (content : Bytes) : Option MarkdownTree := do
  let ch := if 200 < area.w then 30 else 1
  let boxW := boxWidth scaled area
  let children ← parseLines (lineCount content) (boxW-2) ch content []
  let boxH := children.length*ch+2
  let boxH := if area.h < boxH then area.h else boxH
  some { rect := ⟨(area.w-boxW).tdiv 2,(area.h-boxH).tdiv 2,boxW,boxH⟩
         children := children.mapIdx fun i node => { node with rect := ⟨1,1+i*ch,boxW-2,ch⟩ } }

/-! ## The lines of a text -/

/-- The lines, of which an empty last one does not count. -/
def linesOf (content : Bytes) : List Bytes :=
  let lines := content.splitOn 10
  if lines.getLast? = some [] then lines.dropLast else lines

/-- A line without its heading marker, or with a bullet for its marker. -/
def shown (line : Bytes) : Bytes :=
  if startsWith line "# " then line.drop 2
  else if startsWith line "## " then line.drop 3
  else if startsWith line "- " then bullet++line.drop 2
  else line

/-- There is a node for every line, with its text, and no more nodes than there is room for. -/
def ShowsLines (scaled : ℤ → ℤ) (area : Rect) (content : Bytes) : Prop :=
  ∃ tree, markdownRender scaled area content = some tree ∧
    tree.children.map (·.content) = (linesOf content).map shown ∧
      tree.children.length ≤ lineCount content

/-- A line that is not passed over, and not cut. -/
def Whole (line : Bytes) : Prop := line ≠ [] ∧ (startsWith line "- " → line.length ≤ 1019)

/-! ## The tokens -/

/-- What is between two newlines, if it is not empty. -/
def tokens (s : Bytes) : List Bytes := (s.splitOn 10).filter (· ≠ [])

theorem tokens_newline (s : Bytes) : tokens (10::s) = tokens s := by
  rw [tokens,List.splitOn_cons_eq_if_modifyHead,if_pos (beq_self_eq_true _)]
  rfl

theorem tokens_dropWhile (s : Bytes) : tokens (s.dropWhile (· = 10)) = tokens s := by
  induction s with
  | nil => rfl
  | cons b s ih =>
      by_cases hb : b = 10
      · rw [List.dropWhile_cons_of_pos (by simpa using hb),ih,hb,tokens_newline]
      · rw [List.dropWhile_cons_of_neg (by simpa using hb)]

theorem tokens_of_strtokR_none {s : Bytes} (h : strtokR s = none) : tokens s = [] := by
  rw [← tokens_dropWhile]
  rw [strtokR] at h
  split at h
  · next heq => rw [heq]; rfl
  · cases h

theorem tokens_of_strtokR {s line rest : Bytes} (h : strtokR s = some (line,rest)) :
    tokens s = line::tokens rest := by
  rw [← tokens_dropWhile]
  rw [strtokR] at h
  split at h
  · cases h
  · next b t heq =>
    have hb : b ≠ 10 := by
      have hhead := List.head?_dropWhile_not (· = (10:UInt8)) s
      rw [heq] at hhead
      simpa using hhead
    have hline : (10:UInt8) ∉ (b::t).takeWhile (· ≠ 10) := fun hmem => by
      simpa using List.mem_takeWhile_imp hmem
    have hne : (b::t).takeWhile (· ≠ 10) ≠ [] := by simp [hb]
    rw [heq]
    cases h
    conv_lhs => rw [← List.takeWhile_append_dropWhile (p := (· ≠ (10:UInt8))) (l := b::t)]
    cases hrest : (b::t).dropWhile (· ≠ 10) with
    | nil =>
        rw [List.append_nil,tokens,List.splitOn_eq_singleton hline,
          List.filter_cons_of_pos (by simpa using hne)]
        rfl
    | cons c rest =>
        have hc : c = 10 := by
          have hhead := List.head?_dropWhile_not (· ≠ (10:UInt8)) (b::t)
          rw [hrest] at hhead
          simpa using hhead
        rw [hc,tokens,List.splitOn_append_cons_self_of_not_mem hline,
          List.filter_cons_of_pos (by simpa using hne)]
        rfl

theorem parseLines_eq (count : ℕ) (maxW ch : ℤ) (s : Bytes) (children : List TextNode) :
    parseLines count maxW ch s children =
      (tokens s).foldlM (parseLine count maxW ch) children := by
  fun_induction parseLines count maxW ch s children with
  | case1 s children h =>
      rw [tokens_of_strtokR_none h]
      rfl
  | case2 s children line rest h ih =>
      rw [tokens_of_strtokR h,List.foldlM_cons]
      exact congrArg (Option.bind _) (funext ih)

theorem foldlM_parseLine {count : ℕ} (maxW ch : ℤ) (lines : List Bytes)
    (children : List TextNode) (h : children.length+lines.length ≤ count) :
    lines.foldlM (parseLine count maxW ch) children =
      some (children++lines.map fun line => lineNode line maxW ch) := by
  induction lines generalizing children with
  | nil => rw [List.map_nil,List.append_nil]; rfl
  | cons line lines ih =>
      rw [List.length_cons] at h
      rw [List.foldlM_cons,parseLine,if_pos (by omega),Option.bind_eq_bind,Option.bind_some,
        ih _ (by rw [List.length_append,List.length_singleton]; omega)]
      simp

theorem length_splitOn (s : Bytes) : (s.splitOn 10).length = lineCount s := by
  induction s with
  | nil => rfl
  | cons b s ih =>
      rw [List.splitOn_cons_eq_if_modifyHead,lineCount,List.count_cons]
      rw [lineCount] at ih
      split_ifs
      · rw [List.length_cons]
        omega
      · rw [List.length_modifyHead]
        omega

theorem length_tokens_le (s : Bytes) : (tokens s).length ≤ lineCount s :=
  (List.length_filter_le _ _).trans_eq (length_splitOn s)

/-! ## The nodes -/

/-- The text of a node: only that of a bullet is cut. -/
def cut (line : Bytes) : Bytes :=
  if startsWith line "- " then (shown line).take 1023 else shown line

theorem startsWith_iff (line : Bytes) (marker : String) :
    startsWith line marker ↔ ∃ text, bytes marker++text = line := List.isPrefixOf_iff_prefix

theorem shown_bullet (text : Bytes) : shown (bytes "- "++text) = bullet++text := rfl

theorem lineNode_content {line : Bytes} (hne : line ≠ []) (maxW ch : ℤ) :
    (lineNode line maxW ch).content = cut line := by
  simp only [lineNode,if_neg hne,cut]
  by_cases h₁ : startsWith line "# " = true
  · obtain ⟨text,rfl⟩ := (startsWith_iff _ _).1 h₁
    rfl
  · by_cases h₂ : startsWith line "## " = true
    · obtain ⟨text,rfl⟩ := (startsWith_iff _ _).1 h₂
      rfl
    · by_cases h₃ : startsWith line "- " = true
      · simp only [if_neg h₁,if_neg h₂,if_pos h₃,shown]
      · simp only [if_neg h₁,if_neg h₂,if_neg h₃,shown]

/-- Every content is rendered, in an array that is large enough. -/
theorem markdownRender_eq (scaled : ℤ → ℤ) (area : Rect) (content : Bytes) :
    ∃ tree, markdownRender scaled area content = some tree ∧
      tree.children.map (·.content) = (tokens content).map cut ∧
        tree.children.length ≤ lineCount content := by
  have hroom : ([]:List TextNode).length+(tokens content).length ≤ lineCount content := by
    rw [List.length_nil,Nat.zero_add]
    exact length_tokens_le content
  have hlines := foldlM_parseLine (boxWidth scaled area-2) (if 200 < area.w then 30 else 1)
    (tokens content) [] hroom
  rw [← parseLines_eq,List.nil_append] at hlines
  obtain ⟨tree,htree,place,hchildren⟩ : ∃ tree, markdownRender scaled area content = some tree ∧
      ∃ place : ℕ → Rect, tree.children = ((tokens content).map fun line =>
        lineNode line (boxWidth scaled area-2) (if 200 < area.w then 30 else 1)).mapIdx
          fun i node => { node with rect := place i } := by
    simp only [markdownRender,hlines]
    exact ⟨_,rfl,_,rfl⟩
  refine ⟨tree,htree,?_,?_⟩
  · rw [hchildren]
    apply List.ext_getElem?
    intro i
    rw [List.getElem?_map,List.getElem?_mapIdx,List.getElem?_map,List.getElem?_map]
    cases hline : (tokens content)[i]? with
    | none => rfl
    | some line =>
        have hne : line ≠ [] := by
          simpa using (List.mem_filter.1 (List.mem_of_getElem? hline)).2
        exact congrArg some (lineNode_content hne _ _)
  · rw [hchildren,List.length_mapIdx,List.length_map]
    exact length_tokens_le content

/-! ## When all lines are shown -/

theorem linesOf_append_last (content : Bytes) :
    linesOf content = content.splitOn 10 ∨ linesOf content++[[]] = content.splitOn 10 := by
  rw [linesOf]
  split_ifs with hlast
  · exact Or.inr (List.dropLast_append_getLast? _ hlast)
  · exact Or.inl rfl

theorem tokens_eq_filter (content : Bytes) : tokens content = (linesOf content).filter (· ≠ []) := by
  rcases linesOf_append_last content with h | h
  · rw [h,tokens]
  · rw [tokens,← h,List.filter_append]
    simp

theorem cut_eq_iff (line : Bytes) :
    cut line = shown line ↔ (startsWith line "- " → line.length ≤ 1019) := by
  rw [cut]
  by_cases hbullet : startsWith line "- " = true
  · rw [if_pos hbullet]
    obtain ⟨text,rfl⟩ := (startsWith_iff _ _).1 hbullet
    rw [shown_bullet,List.take_eq_self_iff,List.length_append,List.length_append]
    have hlengths : bullet.length = 6 ∧ (bytes "- ").length = 2 := by decide
    constructor
    · intro h _
      omega
    · intro h
      have hle := h hbullet
      omega
  · rw [if_neg hbullet]
    exact iff_of_true rfl fun h => absurd h hbullet

/-- What the tokens show is to be what the lines show. -/
theorem showsLines_iff_map (scaled : ℤ → ℤ) (area : Rect) (content : Bytes) :
    ShowsLines scaled area content ↔ (tokens content).map cut = (linesOf content).map shown := by
  obtain ⟨tree,htree,hcontents,hcount⟩ := markdownRender_eq scaled area content
  rw [← hcontents]
  constructor
  · rintro ⟨tree',htree',h,-⟩
    rw [htree] at htree'
    cases htree'
    exact h
  · exact fun h => ⟨tree,htree,h,hcount⟩

/-- The lines are shown exactly when no line but the last is empty and no bullet has more than 1017
bytes behind its marker. -/
theorem shows_lines_iff (scaled : ℤ → ℤ) (area : Rect) (content : Bytes) :
    ShowsLines scaled area content ↔ ∀ line ∈ linesOf content, Whole line := by
  rw [showsLines_iff_map,tokens_eq_filter]
  constructor
  · intro h
    have hall : (linesOf content).filter (· ≠ []) = linesOf content := by
      have hlength := congrArg List.length h
      rw [List.length_map,List.length_map] at hlength
      exact List.filter_sublist.eq_of_length hlength
    rw [hall,List.map_inj_left] at h
    intro line hline
    rw [← hall] at hline
    exact ⟨by simpa using (List.mem_filter.1 hline).2,
      (cut_eq_iff line).1 (h line (List.mem_of_mem_filter hline))⟩
  · intro h
    rw [List.filter_eq_self.2 fun line hline => by simpa using (h line hline).1,List.map_inj_left]
    exact fun line hline => (cut_eq_iff line).2 (h line hline).2

/-- A blank line between two others has no node. -/
theorem blank_line_is_lost : ¬ShowsLines id ⟨0,0,80,24⟩ (bytes "a\n\nb") := by
  rw [showsLines_iff_map]
  decide

end Filly.Markdown

import Filly.EditorBlocks

/-!
# What a text editor opens, returns and saves

A file is read by `fgets` into a buffer of 4096 bytes, a content is searched for line
ends, and both for the response and for a file each line is written with a line end
behind it. So a text comes back unchanged if it has a line end behind every line, and
from a file only if each line fits into the buffer.
-/
namespace Filly.TextEditor
open CJson SessionLoop CBuffers
open Keys hiding Event

/-- `fgets`: what it stores, and what is left of the stream. -/
def fgets (stream : Bytes) : Bytes × Bytes :=
  let chunk := stream.take 4095
  if 10 ∈ chunk then
    let line := chunk.takeWhile (· ≠ 10)
    (line++[10],stream.drop (line.length+1))
  else (chunk,stream.drop 4095)

theorem fgets_lt {stream : Bytes} (h : stream ≠ []) : (fgets stream).2.length < stream.length := by
  have hpos := List.length_pos_of_ne_nil h
  unfold fgets
  dsimp only
  split_ifs
  all_goals
    rw [List.length_drop]
    omega

/-- The text in the buffer, without a line end behind it. -/
def bufferLine (buf : Bytes) : Bytes :=
  let text := buf.takeWhile (· ≠ 0)
  if text.getLast? = some 10 then text.dropLast else text

def fileLines (stream : Bytes) : List Bytes :=
  if _h : stream = [] then [] else bufferLine (fgets stream).1::fileLines (fgets stream).2
termination_by stream.length
decreasing_by exact fgets_lt _h

/-- The lines up to each line end, and what is behind the last one. -/
def scan (segment : Bytes) : Bytes → List Bytes × Bytes
  | [] => ([],segment)
  | c::rest =>
      if c = 10 then (segment::(scan [] rest).1,(scan [] rest).2) else scan (segment++[c]) rest

def scannedLines (content : Bytes) : List Bytes :=
  let (lines,last) := scan [] content
  if last ≠ [] ∨ lines = [] then lines++[last] else lines

/-- The lines at the start; `file` is what is in the file, if there is one that can be
opened. A content counts if the file has no lines. -/
def openedLines (file content : Option Bytes) : List Bytes :=
  let lines := (file.map fileLines).getD []
  let lines := if lines = [] then (content.map scannedLines).getD [] else lines
  if lines = [] then [[]] else lines

def textEditorWidgetNew (filePath file content : Option Bytes) : EditorBlock :=
  let lines := openedLines file content
  { base := { acceptsTextInput := true }, filePath := filePath,
    lines := lines.map fun line => some (line++[0]), lineCount := lines.length,
    row := 0, col := (lines.headD []).length, scroll := 0, visibleH := 20 }

/-! ## Lines of a content -/

theorem scan_splitOn (segment rest : Bytes) :
    (scan segment rest).1++[(scan segment rest).2] =
      (rest.splitOn 10).modifyHead (segment++·) := by
  induction rest generalizing segment with
  | nil => simp [scan]
  | cons c rest ih =>
      rw [scan,List.splitOn_cons_eq_if_modifyHead]
      by_cases hc : c = 10
      · have hnil : (rest.splitOn 10).modifyHead (([] : Bytes)++·) = rest.splitOn 10 := by
          cases rest.splitOn 10 <;> rfl
        rw [if_pos hc,if_pos (by simpa using hc),List.cons_append,ih,hnil]
        simp
      · rw [if_neg hc,if_neg (by simpa using hc),ih,List.modifyHead_modifyHead]
        congr 1
        funext t
        simp

theorem scannedLines_eq (content : Bytes) : scannedLines content = contentLines content := by
  have hsplit := scan_splitOn [] content
  have hnil : (content.splitOn 10).modifyHead (([] : Bytes)++·) = content.splitOn 10 := by
    cases content.splitOn 10 <;> rfl
  rw [hnil] at hsplit
  rw [scannedLines,contentLines,← hsplit]
  generalize scan [] content = x
  obtain ⟨lines,last⟩ := x
  by_cases hlast : last ≠ [] ∨ lines = []
  · have hlast' : (lines++[last]).length = 1 ∨ (lines++[last]).getLastD [] ≠ [] := by
      rcases hlast with h | h
      · exact Or.inr (by simpa using h)
      · exact Or.inl (by rw [h]; rfl)
    dsimp only
    rw [if_pos hlast,if_pos hlast']
  · have hlast' : ¬((lines++[last]).length = 1 ∨ (lines++[last]).getLastD [] ≠ []) := by
      simpa [not_or,and_comm] using hlast
    dsimp only
    rw [if_neg hlast,if_neg hlast',List.dropLast_concat]

/-- Lines as they are returned and written. -/
def withEnds (lines : List Bytes) : Bytes := lines.flatMap (·++[10])

theorem withEnds_scan (segment rest : Bytes) :
    withEnds (scan segment rest).1++(scan segment rest).2 = segment++rest := by
  induction rest generalizing segment with
  | nil => simp [scan,withEnds]
  | cons c rest ih =>
      rw [scan]
      split_ifs with hc
      · have hrest := ih []
        rw [withEnds] at hrest ⊢
        rw [List.flatMap_cons,List.append_assoc,hrest,hc]
        simp
      · rw [ih]
        simp

theorem scan_last {segment : Bytes} (h : 10 ∉ segment) (rest : Bytes) :
    10 ∉ (scan segment rest).2 := by
  induction rest generalizing segment with
  | nil => exact h
  | cons c rest ih =>
      rw [scan]
      split_ifs with hc
      · exact ih List.not_mem_nil
      · refine ih ?_
        rw [List.mem_append,List.mem_singleton,not_or]
        exact ⟨h,Ne.symm hc⟩

theorem getLast?_withEnds {lines : List Bytes} (h : lines ≠ []) :
    (withEnds lines).getLast? = some 10 := by
  rw [← List.dropLast_append_getLast h,withEnds,List.flatMap_append]
  simp

/-- A content comes back with a line end behind its last line, if it had one or not. -/
theorem withEnds_scannedLines (content : Bytes) :
    withEnds (scannedLines content) =
      if content.getLast? = some 10 then content else content++[10] := by
  have hjoin := withEnds_scan [] content
  have hlast := scan_last List.not_mem_nil content
  rw [List.nil_append] at hjoin
  rw [scannedLines]
  generalize scan [] content = x at hjoin hlast
  obtain ⟨lines,last⟩ := x
  dsimp only at hjoin hlast ⊢
  by_cases h : last ≠ [] ∨ lines = []
  · have hno : content.getLast? ≠ some 10 := by
      intro hten
      rw [← hjoin,List.getLast?_append] at hten
      rcases eq_or_ne last [] with hempty | hlast'
      · rw [hempty,h.resolve_left (not_not_intro hempty)] at hten
        exact absurd hten (by simp [withEnds])
      · rw [List.getLast?_eq_some_getLast hlast',Option.some_or,Option.some.injEq] at hten
        exact hlast (hten ▸ List.getLast_mem hlast')
    rw [if_pos h,if_neg hno,← hjoin]
    simp [withEnds]
  · rw [not_or,not_not] at h
    rw [h.1,List.append_nil] at hjoin
    rw [if_neg (by rw [not_or,not_not]; exact h),if_pos (hjoin ▸ getLast?_withEnds h.2),hjoin]

/-! ## Lines of a file -/

/-- The buffer holds a line with its end, or as much as fits without one. -/
theorem fgets_cases {stream : Bytes} (hstream : stream ≠ []) (hnull : 0 ∉ stream) :
    (∃ line rest, stream = line++10::rest ∧ 10 ∉ line ∧ line.length ≤ 4094 ∧
        fileLines stream = line::fileLines rest) ∨
      10 ∉ stream.take 4095 ∧
        fileLines stream = stream.take 4095::fileLines (stream.drop 4095) := by
  by_cases hten : 10 ∈ stream.take 4095
  · left
    obtain ⟨line,rest,hchunk,hline⟩ := List.eq_append_cons_of_mem hten
    have hsplit : stream = line++10::(rest++stream.drop 4095) := by
      conv_lhs => rw [← List.take_append_drop 4095 stream,hchunk]
      simp
    have hlength : line.length ≤ 4094 := by
      have hle := congrArg List.length hchunk
      have htake := List.length_take_le 4095 stream
      simp only [List.length_append,List.length_cons] at hle
      omega
    have hwhile : (stream.take 4095).takeWhile (· ≠ 10) = line := by
      rw [hchunk,takeWhile_ne_append_cons hline]
    have hfgets : fgets stream = (line++[10],rest++stream.drop 4095) := by
      have hdrop : stream.drop (line.length+1) = rest++stream.drop 4095 := by
        conv_lhs => rw [hsplit,← List.singleton_append,← List.append_assoc]
        exact List.drop_left' (by simp)
      unfold fgets
      dsimp only
      rw [if_pos hten,hwhile,hdrop]
    have hbuffer : bufferLine (line++[10]) = line := by
      have hnull' : 0 ∉ line++[10] := by
        rw [hsplit] at hnull
        simp only [List.mem_append,List.mem_cons,not_or] at hnull ⊢
        exact ⟨hnull.1,by decide,List.not_mem_nil⟩
      rw [bufferLine,takeWhile_nul hnull']
      simp
    refine ⟨line,_,hsplit,hline,hlength,?_⟩
    rw [fileLines,dif_neg hstream,hfgets,hbuffer]
  · right
    have hfgets : fgets stream = (stream.take 4095,stream.drop 4095) := by
      unfold fgets
      dsimp only
      rw [if_neg hten]
    have hbuffer : bufferLine (stream.take 4095) = stream.take 4095 := by
      have hlast : (stream.take 4095).getLast? ≠ some 10 := fun h =>
        hten (List.mem_of_getLast? h)
      rw [bufferLine,takeWhile_nul fun h => hnull (List.mem_of_mem_take h),if_neg hlast]
    exact ⟨hten,by rw [fileLines,dif_neg hstream,hfgets,hbuffer]⟩

/-- Each line has an end and fits into the buffer with it. -/
def Fits (file : Bytes) : Prop :=
  (file = [] ∨ file.getLast? = some 10) ∧ ∀ line ∈ file.splitOn 10, line.length ≤ 4094

theorem fits_cons {line rest : Bytes} (hline : 10 ∉ line) (hlength : line.length ≤ 4094) :
    Fits (line++10::rest) ↔ Fits rest := by
  unfold Fits
  rw [List.splitOn_append_cons_self_of_not_mem hline,List.forall_mem_cons]
  have hlast : (line++10::rest).getLast? = some 10 ↔ rest = [] ∨ rest.getLast? = some 10 := by
    rw [List.getLast?_append,List.getLast?_cons]
    cases hrest : rest.getLast? with
    | none =>
        rw [List.getLast?_eq_none_iff] at hrest
        simp [hrest]
    | some c =>
        have hne : rest ≠ [] := by
          rintro rfl
          cases hrest
        simp [hne]
  rw [hlast]
  simp [hlength]

/-- A buffer without a line end holds the end of a file without one, or a part of a line
that is too long. -/
theorem not_fits {file : Bytes} (hfile : file ≠ []) (hten : 10 ∉ file.take 4095) : ¬Fits file := by
  rintro ⟨hend,hlines⟩
  by_cases hmem : 10 ∈ file
  · obtain ⟨line,rest,rfl,hline⟩ := List.eq_append_cons_of_mem hmem
    rw [List.splitOn_append_cons_self_of_not_mem hline,List.forall_mem_cons] at hlines
    refine hten ?_
    rw [List.take_append]
    refine List.mem_append_right _ ?_
    obtain ⟨k,hk⟩ : ∃ k, 4095-line.length = k+1 := ⟨4094-line.length,by omega⟩
    rw [hk,List.take_succ_cons]
    exact List.mem_cons_self
  · exact hmem (List.mem_of_getLast? (hend.resolve_left hfile))

theorem length_le_withEnds {file : Bytes} (hnull : 0 ∉ file) :
    file.length ≤ (withEnds (fileLines file)).length := by
  induction hn : file.length using Nat.strong_induction_on generalizing file with
  | _ n ih =>
      by_cases hfile : file = []
      · rw [← hn,hfile]
        exact Nat.zero_le _
      rcases fgets_cases hfile hnull with ⟨line,rest,rfl,-,-,hlines⟩ | ⟨-,hlines⟩
      · have hrest : rest.length < n := by
          rw [← hn]
          simp
          omega
        have hnext := ih _ hrest (fun h => hnull (by simp [h])) rfl
        rw [hlines,withEnds,List.flatMap_cons,← withEnds,← hn]
        simp only [List.length_append,List.length_cons,List.length_nil]
        omega
      · have hpos := List.length_pos_of_ne_nil hfile
        have hrest : (file.drop 4095).length < n := by
          rw [List.length_drop]
          omega
        have hnext := ih _ hrest (fun h => hnull (List.mem_of_mem_drop h)) rfl
        rw [hlines,withEnds,List.flatMap_cons,← withEnds,← hn]
        rw [List.length_drop] at hnext
        simp only [List.length_append,List.length_take,List.length_cons,List.length_nil]
        omega

theorem withEnds_fileLines_iff {file : Bytes} (hnull : 0 ∉ file) :
    withEnds (fileLines file) = file ↔ Fits file := by
  induction hn : file.length using Nat.strong_induction_on generalizing file with
  | _ n ih =>
      by_cases hfile : file = []
      · subst hfile
        rw [fileLines,dif_pos rfl]
        exact iff_of_true rfl ⟨Or.inl rfl,by simp⟩
      rcases fgets_cases hfile hnull with ⟨line,rest,rfl,hline,hlength,hlines⟩ | ⟨hten,hlines⟩
      · have hrest : rest.length < n := by
          rw [← hn]
          simp
          omega
        have hnext := ih _ hrest (fun h => hnull (by simp [h])) rfl
        rw [fits_cons hline hlength,← hnext,hlines,withEnds,List.flatMap_cons,← withEnds,
          List.append_assoc,List.append_right_inj,List.singleton_append,List.cons_inj_right]
      · refine iff_of_false (fun h => ?_) (not_fits hfile hten)
        have hle := @length_le_withEnds (file.drop 4095)
          fun h => hnull (List.mem_of_mem_drop h)
        have hlen := congrArg List.length h
        rw [hlines,withEnds,List.flatMap_cons,← withEnds] at hlen
        rw [List.length_drop] at hle
        simp only [List.length_append,List.length_take,List.length_cons,List.length_nil] at hlen
        omega

/-! ## Opening, returning and saving -/

theorem nonzero_scannedLines {content : Bytes} (h : 0 ∉ content) :
    ∀ line ∈ scannedLines content, 0 ∉ line := by
  intro line hline hzero
  have hmem : 0 ∈ withEnds (scannedLines content) :=
    List.mem_flatMap.2 ⟨line,hline,List.mem_append_left _ hzero⟩
  rw [withEnds_scannedLines] at hmem
  split_ifs at hmem
  · exact h hmem
  · rw [List.mem_append] at hmem
    exact hmem.elim h (by decide)

theorem nonzero_bufferLine (buf : Bytes) : 0 ∉ bufferLine buf := by
  have hnul := nul_notMem_takeWhile buf
  unfold bufferLine
  dsimp only
  split_ifs
  · exact fun h => hnul (List.mem_of_mem_dropLast h)
  · exact hnul

/-- What holds for each buffer that is read holds for the lines of a file. -/
theorem forall_fileLines {P : Bytes → Prop} (h : ∀ stream, P (bufferLine (fgets stream).1))
    (file : Bytes) : ∀ line ∈ fileLines file, P line := by
  induction hn : file.length using Nat.strong_induction_on generalizing file with
  | _ n ih =>
      by_cases hfile : file = []
      · rw [fileLines,dif_pos hfile]
        simp
      · rw [fileLines,dif_neg hfile,List.forall_mem_cons]
        exact ⟨h file,ih _ (hn ▸ fgets_lt hfile) _ rfl⟩

theorem nonzero_fileLines (file : Bytes) : ∀ line ∈ fileLines file, 0 ∉ line :=
  forall_fileLines (fun _ => nonzero_bufferLine _) file

/-- What holds for the lines of files and contents, and for the empty line, holds for the
lines that an editor is opened with. -/
theorem forall_openedLines {P : Bytes → Prop} {file content : Option Bytes} (hnil : P [])
    (hfile : ∀ bytes ∈ file, ∀ line ∈ fileLines bytes, P line)
    (hcontent : ∀ text ∈ content, ∀ line ∈ scannedLines text, P line) :
    ∀ line ∈ openedLines file content, P line := by
  have hlines : ∀ line ∈ (file.map fileLines).getD [], P line := by
    cases file with
    | none => exact fun line h => absurd h List.not_mem_nil
    | some bytes => exact hfile bytes rfl
  have hscanned : ∀ line ∈ (content.map scannedLines).getD [], P line := by
    cases content with
    | none => exact fun line h => absurd h List.not_mem_nil
    | some text => exact hcontent text rfl
  unfold openedLines
  dsimp only
  generalize (file.map fileLines).getD [] = lines at hlines
  generalize (content.map scannedLines).getD [] = scanned at hscanned
  split_ifs
  all_goals first | exact hlines | exact hscanned | exact List.forall_mem_singleton.2 hnil

theorem nonzero_openedLines (file : Option Bytes) {content : Option Bytes}
    (hcontent : ∀ text ∈ content, 0 ∉ text) : ∀ line ∈ openedLines file content, 0 ∉ line :=
  forall_openedLines List.not_mem_nil (fun bytes _ => nonzero_fileLines bytes)
    fun text h => nonzero_scannedLines (hcontent text h)

/-- An editor that is given lines has those that memory has. -/
theorem lines_new (filePath file content : Option Bytes) :
    SessionLoop.textEditorWidgetNew filePath ((file.map fileLines).getD []) content =
      { base := { acceptsTextInput := true }, filePath := filePath,
        lines := openedLines file content, row := 0,
        col := ((openedLines file content).headD []).length, scroll := 0, visibleH := 20 } := by
  have hmap : content.map contentLines = content.map scannedLines := by
    cases content with
    | none => rfl
    | some text => exact congrArg some (scannedLines_eq text).symm
  rw [SessionLoop.textEditorWidgetNew,hmap]
  rfl

/-- A new editor in memory has the lines of one that is given them. -/
theorem stored_new (filePath file : Option Bytes) {content : Option Bytes}
    (hcontent : ∀ text ∈ content, 0 ∉ text) :
    Stored (textEditorWidgetNew filePath file content)
      (SessionLoop.textEditorWidgetNew filePath ((file.map fileLines).getD []) content) := by
  rw [lines_new]
  refine ⟨rfl,rfl,⟨(openedLines file content).map fun line => (line,[]),[],?_,?_⟩,
    nonzero_openedLines file hcontent,rfl,rfl,rfl,rfl,rfl⟩
  · simp [slots,Function.comp_def,textEditorWidgetNew]
  · rw [List.map_map]
    exact List.map_id _

/-! ## What comes back -/

/-- The state of these services is what the file at the path holds. -/
def fileServices : Services Bytes where
  regexec _ _ := true
  filAccepts _ _ _ := true
  humanToBytes _ := 0
  nineTenths h := h*9/10
  writeFile _ text _ := text

/-- What Escape answers with in a new editor. -/
def returned (filePath file content : Option Bytes) : Option EventResult :=
  (textEditorHandleEvent fileServices .keyEsc 0 (textEditorWidgetNew filePath file content)
    (file.getD [])).map Prod.fst

/-- What the file holds when a new editor has saved it. -/
def saved (filePath file content : Option Bytes) : Option Bytes :=
  (textEditorHandleEvent fileServices .keyChar 19 (textEditorWidgetNew filePath file content)
    (file.getD [])).map fun x => x.2.2

/-- The text has a line end behind each line, and each line fits into the buffer with it. -/
def Faithful (file : Bytes) : Prop :=
  file.getLast? = some 10 ∧ ∀ line ∈ file.splitOn 10, line.length ≤ 4094

instance decidableFaithful (file : Bytes) : Decidable (Faithful file) :=
  inferInstanceAs (Decidable (file.getLast? = some 10 ∧ ∀ line ∈ file.splitOn 10,
    line.length ≤ 4094))

theorem joined_new (filePath file : Option Bytes) {content : Option Bytes}
    (hcontent : ∀ text ∈ content, 0 ∉ text) :
    (textEditorWidgetNew filePath file content).joined =
      some (withEnds (openedLines file content)) := by
  rw [(stored_new filePath file hcontent).joined,lines_new]
  rfl

theorem openedLines_ne_nil (file content : Option Bytes) : openedLines file content ≠ [] := by
  unfold openedLines
  dsimp only
  generalize (if (file.map fileLines).getD [] = [] then (content.map scannedLines).getD []
    else (file.map fileLines).getD []) = lines
  split_ifs with h
  · exact List.cons_ne_nil _ _
  · exact h

theorem withEnds_openedLines_iff {file : Bytes} (hnull : 0 ∉ file) (content : Option Bytes) :
    withEnds (openedLines (some file) content) = file ↔ Faithful file := by
  by_cases hfile : file = []
  · subst hfile
    refine iff_of_false (fun h => ?_) fun h => by simp [Faithful] at h
    have hlast := getLast?_withEnds (openedLines_ne_nil (some []) content)
    rw [h] at hlast
    cases hlast
  · have hopened : openedLines (some file) content = fileLines file := by
      have hne : fileLines file ≠ [] := by
        rw [fileLines,dif_neg hfile]
        exact List.cons_ne_nil _ _
      simp [openedLines,hne]
    rw [hopened,withEnds_fileLines_iff hnull,Fits,Faithful,or_iff_right hfile]

theorem withEnds_content_iff (content : Bytes) :
    withEnds (openedLines none (some content)) = content ↔ content.getLast? = some 10 := by
  have hopened : openedLines none (some content) = scannedLines content := by
    have hne : scannedLines content ≠ [] := by
      intro h
      have hends := withEnds_scannedLines content
      rw [h] at hends
      split_ifs at hends with hlast
      · rw [← hends] at hlast
        cases hlast
      · exact absurd hends (by simp [withEnds])
    simp [openedLines,hne]
  rw [hopened,withEnds_scannedLines]
  split_ifs with hlast
  · exact iff_of_true rfl hlast
  · refine iff_of_false (fun h => ?_) hlast
    have hlength := congrArg List.length h
    simp at hlength

theorem answered_string_iff (s t : Bytes) :
    answered (.string s) = answered (.string t) ↔ s = t :=
  ⟨fun h => by injection h with h; injection h with h; simpa using h,fun h => by rw [h]⟩

theorem returned_iff (filePath file : Option Bytes) {content : Option Bytes}
    (hcontent : ∀ text ∈ content, 0 ∉ text) (text : Bytes) :
    returned filePath file content = some (answered (.string text)) ↔
      withEnds (openedLines file content) = text := by
  rw [returned,textEditorHandleEvent,joined_new filePath file hcontent]
  rw [Option.map_some,Option.map_some,Option.some.injEq,answered_string_iff]

theorem saved_iff (path : Bytes) (file : Option Bytes) {content : Option Bytes}
    (hcontent : ∀ text ∈ content, 0 ∉ text) (text : Bytes) :
    saved (some path) file content = some text ↔ withEnds (openedLines file content) = text := by
  have hsave : teSave fileServices (textEditorWidgetNew (some path) file content) (file.getD []) =
      some (withEnds (openedLines file content)) := by
    have hpath : (textEditorWidgetNew (some path) file content).filePath = some path := rfl
    rw [teSave,hpath]
    dsimp only
    rw [joined_new (some path) file hcontent]
    rfl
  rw [saved,textEditorHandleEvent,if_pos rfl,hsave]
  simp

/-- A file comes back from Escape and from saving exactly if it is faithful, and a content
exactly if it ends with a line end. -/
theorem comes_back_iff {content : Option Bytes} (hcontent : ∀ text ∈ content, 0 ∉ text) :
    (∀ path file, 0 ∉ file →
      (returned (some path) (some file) content = some (answered (.string file)) ↔
        Faithful file) ∧
      (saved (some path) (some file) content = some file ↔ Faithful file)) ∧
    ∀ filePath text, 0 ∉ text →
      (returned filePath none (some text) = some (answered (.string text)) ↔
        text.getLast? = some 10) := by
  refine ⟨fun path file hfile => ⟨?_,?_⟩,fun filePath text htext => ?_⟩
  · rw [returned_iff (some path) (some file) hcontent,withEnds_openedLines_iff hfile]
  · rw [saved_iff path (some file) hcontent,withEnds_openedLines_iff hfile]
  · rw [returned_iff filePath none fun t ht => Option.some.inj ht ▸ htext,
      withEnds_content_iff]

/-- A file of one line with its end comes back; without the end it does not. -/
theorem line_comes_back :
    returned (some (bytes "f")) (some [97,10]) none = some (answered (.string [97,10])) :=
  (((@comes_back_iff none (by simp)).1 (bytes "f") [97,10] (by decide)).1).2
    (by decide +kernel)

/-- Escape adds a line end to a content without one, and to an empty one. -/
theorem line_end_is_added :
    returned none none (some [97]) ≠ some (answered (.string [97])) ∧
      returned none none (some []) ≠ some (answered (.string [])) := by
  constructor
  all_goals
    rw [Ne,returned_iff none none (by decide)]
    decide

end Filly.TextEditor

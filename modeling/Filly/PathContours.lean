import Filly.PathReading

/-!
# Contours of a path

Each move ends the contour before it with a line to its start. The length that is stored is the
number of all vertices less the length stored last, which is the length of the contour for the
first two contours only.
-/
namespace Filly.SvgPath
open CJson WhileLoops

/-! ## What contours are for -/

/-- Where the contours begin that `vector_rasterize_to_buffer` finds. -/
def contourStarts (vertexCount : ℤ) : ℤ → List ℤ → List ℤ
  | _, [] => []
  | vertIdx, count::counts =>
      if vertexCount < vertIdx+count then []
      else vertIdx::contourStarts vertexCount (vertIdx+count) counts

/-- The places of the vertices that were made by moves. -/
def movePlaces (types : List VertexType) : List ℕ :=
  (types.zipIdx.filter (·.1 = .move)).map Prod.snd

/-- The lengths are positive, they make up all vertices, and each contour begins at its move. -/
structure Partitions (types : List VertexType) (lengths : List ℤ) : Prop where
  positive : ∀ c ∈ lengths, 0 < c
  total : lengths.sum = types.length
  starts : contourStarts types.length 0 lengths = (movePlaces types).map Nat.cast

section
variable {F : Type} (ar : PathArithmetic F)

/-- The contours of the path that is returned, if there is one, divide its vertices. -/
def ContoursPartition (d : Bytes) : Prop :=
  ∀ n r, runFor (pathTurn ar) (pathStart ar d) n = .returned (some r) →
    ∀ path, pathOf ar r.pb = some path →
      path.vertices.length = (pbFinish ar r.pb).verts.length ∧
        Partitions ((pbFinish ar r.pb).verts.map Vertex.type) path.contourLengths

end

/-! ## The outline of a path -/

/-- The builder without coordinates. -/
structure Outline where
  types : List VertexType
  started : Bool
  contours : List ℤ

def PathCommand.vertexType : PathCommand → VertexType
  | .moveTo => .move
  | .lineTo | .horizontal | .vertical | .close => .line
  | .quad | .smoothQuad => .curve
  | .cubic | .smoothCubic => .cubic

def Outline.endContour (o : Outline) : Outline where
  types := o.types++[.line]
  started := false
  contours := o.contours++[((o.types++[VertexType.line]).length : ℤ)-o.contours.getLast?.getD 0]

/-- A contour that was begun ends. -/
def Outline.closed (o : Outline) : Outline := if o.started then o.endContour else o

def Outline.draw (o : Outline) (command : PathCommand) : Outline :=
  if command = .moveTo then
    { o.closed with types := o.closed.types++[.move], started := true }
  else { o with types := o.types++[command.vertexType] }

def Outline.finish (o : Outline) : Outline :=
  if o.closed.contours = [] ∧ o.closed.types ≠ [] then
    { o.closed with contours := [o.closed.types.length] }
  else o.closed

section
variable {F : Type} {ar : PathArithmetic F}

def PathBuilder.outline (pb : PathBuilder F) : Outline :=
  ⟨pb.verts.map Vertex.type,pb.started,pb.contours⟩

theorem outline_endContour {pb : PathBuilder F} (h : pb.started = true) :
    (pbEndContour ar pb).outline = pb.outline.endContour := by
  simp [pbEndContour,h,PathBuilder.outline,Outline.endContour,pbAddVertex]

variable (ar) in
theorem outline_closed (pb : PathBuilder F) :
    (if pb.started then pbEndContour ar pb else pb).outline = pb.outline.closed := by
  rw [Outline.closed]
  cases h : pb.started with
  | true => rw [if_pos rfl,outline_endContour h]; exact (if_pos h).symm
  | false => exact (if_neg (fun hs => by cases h.symm.trans hs)).symm

theorem outline_moveTo (pb : PathBuilder F) (p : F × F) :
    (pbMoveTo ar pb p).outline = pb.outline.draw .moveTo := by
  rw [Outline.draw,if_pos rfl,← outline_closed ar pb]
  simp [pbMoveTo,PathBuilder.outline,pbAddVertex]

/-- A command draws on the outline. -/
theorem outline_execute (s : SvgParser F) (command : PathCommand) :
    (s.execute ar command).pb.outline = s.pb.outline.draw command := by
  cases command with
  | moveTo => exact outline_moveTo _ _
  | lineTo | horizontal | vertical | close =>
      simp [SvgParser.execute,pbLineTo,pbAddVertex,PathBuilder.outline,Outline.draw,
        PathCommand.vertexType]
  | quad | smoothQuad =>
      simp [SvgParser.execute,pbQuadTo,pbAddVertex,PathBuilder.outline,Outline.draw,
        PathCommand.vertexType]
  | cubic | smoothCubic =>
      simp [SvgParser.execute,pbCubicTo,pbAddCubic,PathBuilder.outline,Outline.draw,
        PathCommand.vertexType]

theorem outline_finish (pb : PathBuilder F) : (pbFinish ar pb).outline = pb.outline.finish := by
  rw [Outline.finish,← outline_closed ar pb,pbFinish]
  generalize (if pb.started then pbEndContour ar pb else pb) = pb
  have hiff : pb.outline.contours = [] ∧ pb.outline.types ≠ [] ↔ pb.contours = [] ∧ pb.verts ≠ [] :=
    and_congr Iff.rfl (not_congr List.map_eq_nil_iff)
  dsimp only
  by_cases h : pb.contours = [] ∧ pb.verts ≠ []
  · rw [if_pos h,if_pos (hiff.2 h)]
    simp [PathBuilder.outline]
  · rw [if_neg h,if_neg (hiff.not.2 h)]

/-- The outline at the end is drawn by the commands of the path. -/
theorem Reads.outline {cmd : UInt8} {d : Bytes} {cs : List PathCommand} (h : Reads cmd d cs)
    {s r : SvgParser F} (hcmd : s.cmd = cmd) (hd : s.d = d) {n : ℕ}
    (hr : runFor (pathTurn ar) s n = .returned (some r)) :
    r.pb.outline = cs.foldl Outline.draw s.pb.outline := by
  induction h generalizing s n with
  | ended h =>
      subst hd
      cases returned_eq (pathTurn_ended h) hr
      rfl
  | unset h hc =>
      subst hd
      cases returned_eq (pathTurn_unset h hc hcmd) hr
      rfl
  | letter h hc hcommand _ ih =>
      subst hd
      obtain ⟨m,hm⟩ := returned_of_next (pathTurn_letter h hc hcommand) hr
      rw [ih (execute_cmd _ _) (execute_d _ _) hm,outline_execute,List.foldl_cons]
  | unknown h hc hcommand ht _ ih =>
      subst hd
      have hturn := @pathTurn_unknown F ar s _ _ h hc hcommand
      rw [ht] at hturn
      obtain ⟨m,hm⟩ := returned_of_next hturn hr
      have houtline := fun hcmd hd => @ih _ hcmd hd m hm
      exact houtline rfl rfl
  | again h hc hne hcommand _ _ _ ih =>
      subst hd hcmd
      obtain ⟨m,hm⟩ := returned_of_next (pathTurn_again h hc hne hcommand) hr
      have houtline := fun hcmd hd => @ih _ hcmd hd m hm
      rw [houtline (execute_cmd _ _) (execute_d _ _),outline_execute,List.foldl_cons]
  | skip h hc hne hcommand _ ih =>
      subst hd hcmd
      obtain ⟨m,hm⟩ := returned_of_next (pathTurn_skip h hc hne hcommand) hr
      have houtline := fun hcmd hd => @ih _ hcmd hd m hm
      exact houtline rfl rfl

end

/-! ## The lengths that are stored -/

/-- Each length is the count of vertices at the end of the contour less the length before it. -/
def storedLengths : ℤ → ℤ → List ℕ → List ℤ
  | _, _, [] => []
  | count, last, l::ls => (count+l-last)::storedLengths (count+l) (count+l-last) ls

/-- Where contours of these lengths begin. -/
def startsFrom : ℕ → List ℕ → List ℕ
  | _, [] => []
  | p, l::ls => p::startsFrom (p+l) ls

theorem storedLengths_append (count last : ℤ) (ls : List ℕ) (l : ℕ) :
    storedLengths count last (ls++[l]) =
      storedLengths count last ls++
        [count+ls.sum+l-(storedLengths count last ls).getLast?.getD last] := by
  induction ls generalizing count last with
  | nil => simp [storedLengths]
  | cons m ls ih =>
      simp only [List.cons_append,storedLengths,ih,List.getLast?_cons,Option.getD_some,
        List.sum_cons,Nat.cast_add,← add_assoc]

theorem startsFrom_append (p : ℕ) (ls : List ℕ) (l : ℕ) :
    startsFrom p (ls++[l]) = startsFrom p ls++[p+ls.sum] := by
  induction ls generalizing p with
  | nil => simp [startsFrom]
  | cons m ls ih => simp only [List.cons_append,startsFrom,ih,List.sum_cons,add_assoc]

/-- No stored length is too small. -/
theorem le_sum_storedLengths {count last : ℤ} {ls : List ℕ} (h : 0 ≤ last ∧ last ≤ count) :
    (ls.sum : ℤ) ≤ (storedLengths count last ls).sum := by
  induction ls generalizing count last with
  | nil => simp [storedLengths]
  | cons l ls ih =>
      have hrest := @ih (count+l) (count+l-last) (by omega)
      rw [storedLengths,List.sum_cons,List.sum_cons,Nat.cast_add]
      omega

/-- From the third contour on the lengths make up too much. -/
theorem sum_storedLengths_gt {l m n : ℕ} {ls : List ℕ} (hl : 0 < l) :
    ((l::m::n::ls).sum : ℤ) < (storedLengths 0 0 (l::m::n::ls)).sum := by
  have hrest := @le_sum_storedLengths (0+l+m+n) (0+l+m+n-(0+l+m-(0+l-0))) ls (by omega)
  simp only [storedLengths,List.sum_cons,Nat.cast_add]
  omega

theorem movePlaces_append (types : List VertexType) (t : VertexType) :
    movePlaces (types++[t]) = movePlaces types++if t = .move then [types.length] else [] := by
  rw [movePlaces,List.zipIdx_append,List.filter_append,List.map_append,← movePlaces]
  split_ifs with ht <;> simp [ht]

/-! ## Contours along a path -/

/-- No contour was begun. -/
structure Unbegun (o : Outline) (before : ℕ) : Prop where
  started : o.started = false
  contours : o.contours = []
  count : o.types.length = before
  moves : movePlaces o.types = []

/-- Behind vertices without a contour there are closed contours and one that was begun. -/
structure Begun (o : Outline) (before : ℕ) (ls : List ℕ) (n : ℕ) : Prop where
  started : o.started = true
  contours : o.contours = storedLengths before 0 ls
  count : o.types.length = before+ls.sum+n
  moves : movePlaces o.types = startsFrom before (ls++[n])
  positive : ∀ l ∈ ls, 0 < l
  nonempty : 0 < n

section
variable {o : Outline} {before n : ℕ} {ls : List ℕ} {command : PathCommand} {cs : List PathCommand}

theorem vertexType_ne_move (h : command ≠ .moveTo) : command.vertexType ≠ .move := by
  cases command with
  | moveTo => exact absurd rfl h
  | lineTo | horizontal | vertical | quad | smoothQuad | cubic | smoothCubic | close =>
      exact fun hm => by cases hm

theorem Unbegun.draw (h : Unbegun o before) (hne : command ≠ .moveTo) :
    Unbegun (o.draw command) (before+1) := by
  rw [Outline.draw,if_neg hne]
  refine ⟨h.started,h.contours,?_,?_⟩
  · rw [List.length_append,h.count,List.length_singleton]
  · rw [movePlaces_append,h.moves,if_neg (vertexType_ne_move hne),List.append_nil]

theorem Unbegun.move (h : Unbegun o before) : Begun (o.draw .moveTo) before [] 1 := by
  have hclosed : o.closed = o := if_neg (by rw [h.started]; exact Bool.false_ne_true)
  rw [Outline.draw,if_pos rfl,hclosed]
  refine ⟨rfl,h.contours,?_,?_,List.forall_mem_nil _,one_pos⟩
  · rw [List.length_append,h.count]
    rfl
  · rw [movePlaces_append,h.moves,if_pos rfl,h.count]
    rfl

theorem Begun.draw (h : Begun o before ls n) (hne : command ≠ .moveTo) :
    Begun (o.draw command) before ls (n+1) := by
  rw [Outline.draw,if_neg hne]
  refine ⟨h.started,h.contours,?_,?_,h.positive,Nat.succ_pos n⟩
  · rw [List.length_append,h.count,List.length_singleton,add_assoc]
  · rw [movePlaces_append,h.moves,if_neg (vertexType_ne_move hne),List.append_nil,startsFrom_append,
      startsFrom_append]

/-- The end of a contour stores a length. -/
theorem Begun.endContour (h : Begun o before ls n) :
    o.endContour.contours = storedLengths before 0 (ls++[n+1]) ∧
      o.endContour.types.length = before+(ls++[n+1]).sum ∧
        movePlaces o.endContour.types = startsFrom before (ls++[n+1]) := by
  refine ⟨?_,?_,?_⟩
  · rw [Outline.endContour,storedLengths_append,← h.contours,List.length_append,h.count,
      List.length_singleton]
    push_cast
    rw [add_assoc _ (n : ℤ)]
  · rw [Outline.endContour,List.length_append,h.count,List.sum_append,List.sum_singleton]
    simp only [List.length_singleton]
    omega
  · rw [Outline.endContour,movePlaces_append,if_neg (by decide),List.append_nil,h.moves,
      startsFrom_append,startsFrom_append]

theorem Begun.move (h : Begun o before ls n) : Begun (o.draw .moveTo) before (ls++[n+1]) 1 := by
  have hclosed : o.closed = o.endContour := if_pos h.started
  obtain ⟨hcontours,hcount,hmoves⟩ := h.endContour
  rw [Outline.draw,if_pos rfl,hclosed]
  refine ⟨rfl,hcontours,?_,?_,?_,one_pos⟩
  · rw [List.length_append,hcount]
    rfl
  · rw [movePlaces_append,hmoves,if_pos rfl,hcount,startsFrom_append _ (ls++[n+1])]
  · intro l hl
    rcases List.mem_append.1 hl with hl | hl
    · exact h.positive l hl
    · rw [List.mem_singleton.1 hl]
      exact Nat.succ_pos n

/-- Further moves begin further contours. -/
theorem Begun.foldl (h : Begun o before ls n) (cs : List PathCommand) :
    ∃ ls' n', Begun (cs.foldl Outline.draw o) before ls' n' ∧
      ls'.length = ls.length+cs.count .moveTo := by
  induction cs generalizing o ls n with
  | nil => exact ⟨ls,n,h,rfl⟩
  | cons command cs ih =>
      rw [List.foldl_cons,List.count_cons]
      by_cases hmove : command = .moveTo
      · obtain ⟨ls',n',hbegun,hlength⟩ := ih (hmove ▸ h.move)
        refine ⟨ls',n',hbegun,?_⟩
        rw [hlength,List.length_append,if_pos (by rw [hmove]; rfl),List.length_singleton]
        omega
      · obtain ⟨ls',n',hbegun,hlength⟩ := ih (h.draw hmove)
        refine ⟨ls',n',hbegun,?_⟩
        rw [hlength,if_neg (by simpa using hmove),Nat.add_zero]

/-- What is drawn before the first move belongs to no contour. -/
theorem Unbegun.foldl (h : Unbegun o before) (cs : List PathCommand) :
    (.moveTo ∉ cs ∧ Unbegun (cs.foldl Outline.draw o) (before+cs.length)) ∨
      ∃ ls n, Begun (cs.foldl Outline.draw o) (before+cs.idxOf .moveTo) ls n ∧
        ls.length+1 = cs.count .moveTo := by
  induction cs generalizing o before with
  | nil => exact .inl ⟨List.not_mem_nil,h⟩
  | cons command cs ih =>
      rw [List.foldl_cons]
      by_cases hmove : command = .moveTo
      · subst hmove
        obtain ⟨ls,n,hbegun,hlength⟩ := h.move.foldl cs
        refine .inr ⟨ls,n,by rwa [List.idxOf_cons_self],?_⟩
        rw [hlength,List.count_cons_self,List.length_nil,Nat.zero_add]
      · rcases ih (h.draw hmove) with ⟨hmem,hunbegun⟩ | ⟨ls,n,hbegun,hlength⟩
        · refine .inl ⟨?_,?_⟩
          · rw [List.mem_cons,not_or]
            exact ⟨fun heq => hmove heq.symm,hmem⟩
          · rw [List.length_cons,add_comm cs.length,← add_assoc]
            exact hunbegun
        · refine .inr ⟨ls,n,?_,?_⟩
          · rw [List.idxOf_cons_ne _ hmove,Nat.succ_eq_add_one,add_comm (cs.idxOf _),← add_assoc]
            exact hbegun
          · rw [hlength,List.count_cons_of_ne hmove]

/-! ## When the contours divide the vertices -/

theorem Unbegun.finish_types (h : Unbegun o before) : o.finish.types = o.types := by
  have hclosed : o.closed = o := if_neg (by rw [h.started]; exact Bool.false_ne_true)
  rw [Outline.finish,hclosed]
  split_ifs
  · rfl
  · rfl

/-- A path without a move has no contour that begins at one. -/
theorem Unbegun.not_partitions (h : Unbegun o before) (hsome : o.finish.types ≠ []) :
    ¬Partitions o.finish.types o.finish.contours := by
  have hclosed : o.closed = o := if_neg (by rw [h.started]; exact Bool.false_ne_true)
  rw [h.finish_types] at hsome ⊢
  have hcontours : o.finish.contours = [(before : ℤ)] := by
    rw [Outline.finish,hclosed,if_pos ⟨h.contours,hsome⟩,h.count]
  intro hpartitions
  have hstarts := hpartitions.starts
  rw [hcontours,h.moves,h.count,contourStarts,if_neg (by omega)] at hstarts
  cases hstarts

theorem Begun.finish (h : Begun o before ls n) :
    o.finish.contours = storedLengths before 0 (ls++[n+1]) ∧
      o.finish.types.length = before+(ls++[n+1]).sum ∧
        movePlaces o.finish.types = startsFrom before (ls++[n+1]) := by
  have hclosed : o.closed = o.endContour := if_pos h.started
  have hne : o.endContour.contours ≠ [] := List.append_ne_nil_of_right_ne_nil _ (List.cons_ne_nil _ _)
  rw [Outline.finish,hclosed,if_neg fun hnil => hne hnil.1]
  exact h.endContour

/-- The lengths of at most two contours are those of their subpaths. -/
theorem Begun.partitions (h : Begun o 0 ls n) (hle : ls.length ≤ 1) :
    Partitions o.finish.types o.finish.contours := by
  obtain ⟨hcontours,hcount,hmoves⟩ := h.finish
  match ls,hle with
  | [],_ =>
      refine ⟨?_,?_,?_⟩
      · rw [hcontours]
        simp [storedLengths]
      · rw [hcontours,hcount]
        simp [storedLengths]
      · rw [hcontours,hcount,hmoves]
        simp [storedLengths,contourStarts,startsFrom]
  | [l],_ =>
      have hl := h.positive l List.mem_cons_self
      refine ⟨?_,?_,?_⟩
      · rw [hcontours]
        simp [storedLengths]
        omega
      · rw [hcontours,hcount]
        simp [storedLengths]
      · rw [hcontours,hcount,hmoves]
        simp [storedLengths,contourStarts,startsFrom]
        omega

/-- The contours divide the vertices of up to two subpaths with nothing before them. -/
theorem Begun.partitions_iff (h : Begun o before ls n) :
    Partitions o.finish.types o.finish.contours ↔ before = 0 ∧ ls.length ≤ 1 := by
  obtain ⟨hcontours,hcount,hmoves⟩ := h.finish
  constructor
  · intro hpartitions
    have hstarts := hpartitions.starts
    have htotal := hpartitions.total
    rw [hcontours,hcount] at htotal
    rw [hcontours,hcount,hmoves] at hstarts
    have hbefore : before = 0 := by
      obtain ⟨m,ms,hms⟩ := List.exists_cons_of_ne_nil
        (List.append_ne_nil_of_right_ne_nil ls (List.cons_ne_nil (n+1) []))
      rw [hms,storedLengths,contourStarts,startsFrom,List.map_cons] at hstarts
      split_ifs at hstarts
      exact_mod_cast (List.cons.inj hstarts).1.symm
    subst hbefore
    refine ⟨rfl,?_⟩
    rcases ls with _ | ⟨l,_ | ⟨m,rest⟩⟩
    · exact Nat.zero_le 1
    · exact le_rfl
    · obtain ⟨k,rest',hrest⟩ := List.exists_cons_of_ne_nil
        (List.append_ne_nil_of_right_ne_nil rest (List.cons_ne_nil (n+1) []))
      have hgt := @sum_storedLengths_gt l m k rest' (h.positive l List.mem_cons_self)
      rw [List.cons_append,List.cons_append,hrest,Nat.zero_add] at htotal
      exact absurd htotal hgt.ne'
  · rintro ⟨rfl,hle⟩
    exact h.partitions hle

end

section
variable {F : Type} {ar : PathArithmetic F} {d : Bytes} {cs : List PathCommand}

theorem pathOf_eq_some {pb : PathBuilder F} {path : VectorPath} (h : pathOf ar pb = some path) :
    (pbFinish ar pb).verts ≠ [] ∧ path.vertices.length = (pbFinish ar pb).verts.length ∧
      path.contourLengths = (pbFinish ar pb).contours := by
  unfold pathOf at h
  dsimp only at h
  split_ifs at h with hnil
  cases h
  exact ⟨hnil,List.length_map _,rfl⟩

/-- Before the loop nothing is drawn. -/
def blank : Outline := ⟨[],false,[]⟩

theorem unbegun_blank : Unbegun blank 0 := ⟨rfl,rfl,rfl,rfl⟩

/-- The path is as good as its outline. -/
theorem contoursPartition_iff_outline (h : Reads 0 (d.takeWhile (· ≠ 0)) cs) :
    ContoursPartition ar d ↔
      ((cs.foldl Outline.draw blank).finish.types ≠ [] →
        Partitions (cs.foldl Outline.draw blank).finish.types
          (cs.foldl Outline.draw blank).finish.contours) := by
  have htypes (n : ℕ) (r : SvgParser F)
      (hr : runFor (pathTurn ar) (pathStart ar d) n = .returned (some r)) :
      (pbFinish ar r.pb).verts.map Vertex.type = (cs.foldl Outline.draw blank).finish.types ∧
        (pbFinish ar r.pb).contours = (cs.foldl Outline.draw blank).finish.contours := by
    have houtline : (pbFinish ar r.pb).outline = (cs.foldl Outline.draw blank).finish := by
      rw [outline_finish,h.outline rfl rfl hr]
      rfl
    exact ⟨congrArg Outline.types houtline,congrArg Outline.contours houtline⟩
  constructor
  · intro hpartition hne
    obtain ⟨n,r,hr⟩ := @Reads.ends _ ar _ _ _ h (pathStart ar d) rfl rfl
    obtain ⟨hverts,hcontours⟩ := htypes n r hr
    rw [← hverts] at hne ⊢
    rw [← hcontours]
    obtain ⟨path,hpath⟩ : ∃ path, pathOf ar r.pb = some path := by
      rw [pathOf,if_neg fun hnil => hne (by rw [hnil]; rfl)]
      exact ⟨_,rfl⟩
    rw [← (pathOf_eq_some hpath).2.2]
    exact (hpartition n r hr path hpath).2
  · intro hpartition n r hr path hpath
    obtain ⟨hverts,hcontours⟩ := htypes n r hr
    obtain ⟨hne,hlength,hlengths⟩ := pathOf_eq_some hpath
    rw [hlengths,hverts,hcontours]
    refine ⟨hlength,hpartition fun hnil => hne ?_⟩
    rw [← hverts] at hnil
    exact List.map_eq_nil_iff.1 hnil

/-- On a path that is read to its end the contours divide the vertices exactly if there is
nothing before its first move and it has at most two of them. -/
theorem contours_partition_iff (ar : PathArithmetic F) (h : Reads 0 (d.takeWhile (· ≠ 0)) cs) :
    ContoursPartition ar d ↔
      cs = [] ∨ (cs.head? = some .moveTo ∧ cs.count .moveTo ≤ 2) := by
  rw [contoursPartition_iff_outline h]
  rcases unbegun_blank.foldl cs with ⟨hmem,hunbegun⟩ | ⟨ls,n,hbegun,hlength⟩
  · cases cs with
    | nil => exact iff_of_true (fun hne => absurd rfl hne) (.inl rfl)
    | cons command cs =>
        have hsome : ((command::cs).foldl Outline.draw blank).finish.types ≠ [] := by
          rw [hunbegun.finish_types]
          exact List.ne_nil_of_length_pos (by rw [hunbegun.count,List.length_cons]; omega)
        refine iff_of_false (fun hp => hunbegun.not_partitions hsome (hp hsome)) ?_
        rintro (hnil | ⟨hfirst,-⟩)
        · cases hnil
        · exact hmem (List.mem_of_mem_head? hfirst)
  · have hsome : (cs.foldl Outline.draw blank).finish.types ≠ [] := by
      refine List.ne_nil_of_length_pos ?_
      rw [hbegun.finish.2.1,List.sum_append,List.sum_singleton]
      omega
    rw [forall_prop_of_true hsome,hbegun.partitions_iff]
    cases cs with
    | nil => cases hlength
    | cons command cs =>
        rw [List.head?_cons,Option.some_inj,← hlength]
        by_cases hmove : command = .moveTo
        · rw [hmove,List.idxOf_cons_self]
          simp
        · rw [List.idxOf_cons_ne _ hmove]
          simp [hmove]

end

/-! ## Two and three subpaths -/

/-- Two subpaths, the first of them closed. -/
def twoSubpaths : Bytes := bytes "M0 0L1 0ZM2 0L3 0"

theorem twoSubpaths_reads :
    Reads 0 (twoSubpaths.takeWhile (· ≠ 0)) [.moveTo,.lineTo,.close,.moveTo,.lineTo] :=
  .letter (c := 77) (t := bytes "0 0L1 0ZM2 0L3 0") (by decide) (by decide) (by decide)
    (.letter (c := 76) (t := bytes "1 0ZM2 0L3 0") (by decide) (by decide) (by decide)
      (.letter (c := 90) (t := bytes "M2 0L3 0") (by decide) (by decide) (by decide)
        (.letter (c := 77) (t := bytes "2 0L3 0") (by decide) (by decide) (by decide)
          (.letter (c := 76) (t := bytes "3 0") (by decide) (by decide) (by decide)
            (.ended (by decide))))))

theorem two_subpaths_partition : ContoursPartition unitArithmetic twoSubpaths :=
  (contours_partition_iff unitArithmetic twoSubpaths_reads).2 (.inr ⟨rfl,by decide⟩)

def returnedValue : Turn (SvgParser Unit) (Option (SvgParser Unit)) → Option (SvgParser Unit)
  | .returned r => r
  | .next _ => none

theorem returned_of_value {x : Turn (SvgParser Unit) (Option (SvgParser Unit))}
    {r : SvgParser Unit} (h : returnedValue x = some r) : x = .returned (some r) := by
  cases x with
  | returned r' => exact congrArg Turn.returned h
  | next s => cases h

/-- Of three lines the last is said to have six vertices. -/
theorem three_subpaths_overlap :
    ¬ContoursPartition unitArithmetic (bytes "M0 0L1 0M2 0L3 0M4 0L5 0") := by
  intro h
  have hends : (returnedValue (runFor (pathTurn unitArithmetic)
      (pathStart unitArithmetic (bytes "M0 0L1 0M2 0L3 0M4 0L5 0")) 7)).map (fun r =>
        ((pathOf unitArithmetic r.pb).map VectorPath.contourLengths,
          (pbFinish unitArithmetic r.pb).verts.length)) = some (some [3,3,6],9) := by
    decide +kernel
  obtain ⟨r,hr,hfinish⟩ := Option.map_eq_some_iff.1 hends
  rw [Prod.mk.injEq] at hfinish
  obtain ⟨path,hpath,hlengths⟩ := Option.map_eq_some_iff.1 hfinish.1
  have htotal := (h 7 r (returned_of_value hr) path hpath).2.total
  rw [hlengths,List.length_map,hfinish.2] at htotal
  exact absurd htotal (by decide)

end Filly.SvgPath

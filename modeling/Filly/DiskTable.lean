import Filly.RequestMembers
import Filly.Runs
import Filly.TextWidgets

/-!
# The table that a disk returns

A disk widget makes, deletes and resizes partitions in one list. A new partition gets
the start of a free area, the size that was entered and the number behind the last one, but
no end, and the free areas stay as they were. So a table is sound while all partitions in it
are those of the request.
-/
namespace Filly.SessionLoop
open CJson Keys Protocol Runs

structure FreeSpace where
  start : Bytes
  stop : Bytes
  size : Bytes

def partitionOf (i : ℕ) (item : Json) : Partition where
  number := ((item.getObjectItem (bytes "number")).map Json.valueint).getD (i+1)
  start := (memberText item "start").getD []
  stop := some ((memberText item "end").getD [])
  size := (memberText item "size").getD []
  ptype := (memberText item "type").getD []

def freeSpaceOf (item : Json) : FreeSpace where
  start := (memberText item "start").getD (bytes "0")
  stop := (memberText item "end").getD (bytes "0")
  size := (memberText item "size").getD (bytes "0")

def partitionsOf (partitions : Option Json) : List Partition :=
  ((partitions.map Json.elements).getD []).mapIdx partitionOf

def freeSpacesOf (freeSpace : Option Json) : List FreeSpace :=
  ((freeSpace.map Json.elements).getD []).map freeSpaceOf

/-- `disk_widget_new`, from what the request has. -/
def diskWidgetOf (partitions freeSpace : Option Json) (readonly : Bool) : DiskData :=
  diskWidgetNew (partitionsOf partitions) ((freeSpacesOf freeSpace).map FreeSpace.start) readonly

variable {β : Type} (sv : Services β)

/-- Enter takes over what was entered. -/
def Commits (code : KeyCode) (d : DiskData) : Prop :=
  code = .keyEnter ∧ ∃ size ∈ d.input, size ≠ [] ∧ 0 < sv.humanToBytes size

instance decidableCommits (code : KeyCode) (d : DiskData) : Decidable (Commits sv code d) :=
  inferInstanceAs (Decidable (code = .keyEnter ∧ ∃ size ∈ d.input, _))

def Creates (code : KeyCode) (d : DiskData) : Prop := d.mode = .newPartition ∧ Commits sv code d

instance decidableCreates (code : KeyCode) (d : DiskData) : Decidable (Creates sv code d) :=
  inferInstanceAs (Decidable (d.mode = .newPartition ∧ _))

def Deletes (code : KeyCode) (ch : UInt8) (d : DiskData) : Prop :=
  d.mode = .main ∧ code = .keyChar ∧ d.readonly = false ∧ ch = 100 ∧
    d.selected < d.partitions.length

instance decidableDeletes (code : KeyCode) (ch : UInt8) (d : DiskData) :
    Decidable (Deletes code ch d) :=
  inferInstanceAs (Decidable (d.mode = .main ∧ _))

/-- A new partition in a free area that is none has no outcome. -/
def diskEvent (code : KeyCode) (ch : UInt8) (d : DiskData) : Option (EventResult × DiskData) :=
  if Creates sv code d ∧ d.freeSpace.length ≤ d.editingIdx then none
  else some (diskHandleEvent sv code ch d)

/-- A disk, unless its memory was left, its last answer, and for each partition the free
area it was made in if it is not from the request. -/
structure DiskRun where
  disk : Option DiskData
  result : EventResult
  made : List (Option ℕ)

def DiskRun.start (partitions freeSpace : Option Json) (readonly : Bool) : DiskRun where
  disk := diskWidgetOf partitions freeSpace readonly
  result := .unhandled
  made := (partitionsOf partitions).map fun _ => none

/-- One event; there is none after a response. -/
def DiskRun.take (s : DiskRun) (ev : Event) : DiskRun :=
  if s.result.isResponse then s
  else
    match ev, s.disk with
    | .key code ch, some d =>
        match diskEvent sv code ch d with
        | none => { s with disk := none }
        | some (result,d') =>
            { disk := some d', result := result,
              made := if Creates sv code d then s.made++[some d.editingIdx]
                      else if Deletes code ch d then s.made.eraseIdx d.selected
                      else s.made }
    | _, _ => { s with result := .unhandled }

/-! ## Sound tables -/

/-- The member of a partition in an answer that is a text. -/
def textOf (e : Json) (name : String) : Option Bytes :=
  (e.getObjectItem (bytes name)).bind Json.valuestring

/-- A start, an end and a size. -/
def Placed (e : Json) : Prop :=
  ∀ name ∈ ["start","end","size"], ∃ text, textOf e name = some text ∧ text ≠ []

def InArea (e : Json) (area : FreeSpace) : Prop :=
  ∃ start stop, textOf e "start" = some start ∧ textOf e "end" = some stop ∧
    sv.humanToBytes area.start ≤ sv.humanToBytes start ∧
    sv.humanToBytes stop ≤ sv.humanToBytes area.stop

def Apart (e f : Json) : Prop :=
  ∃ start stop start' stop', textOf e "start" = some start ∧ textOf e "end" = some stop ∧
    textOf f "start" = some start' ∧ textOf f "end" = some stop' ∧
    (sv.humanToBytes stop ≤ sv.humanToBytes start' ∨
      sv.humanToBytes stop' ≤ sv.humanToBytes start)

/-- The numbers of a table are distinct, each partition has a place, and each that was made
is in its free area and apart from all others. -/
def TableSound (areas : List FreeSpace) (made : List (Option ℕ)) (table : List Json) : Prop :=
  (table.map fun e => e.getObjectItem (bytes "number")).Nodup ∧ (∀ e ∈ table, Placed e) ∧
    ∀ (i k : ℕ) (e : Json) (area : FreeSpace), made[i]? = some (some k) → areas[k]? = some area →
      table[i]? = some e →
        InArea sv e area ∧ ∀ (j : ℕ) (f : Json), j ≠ i → table[j]? = some f → Apart sv e f

/-- What a disk returns is sound, and one that is read-only keeps its table. -/
def DiskSound (initial : List Partition) (areas : List FreeSpace) (s : DiskRun) : Prop :=
  ∃ d, s.disk = some d ∧ (d.readonly = true → d.partitions = initial) ∧
    ∀ r table, s.result = .response r → r.result = some table →
      ∃ parts, table = .array parts ∧ TableSound sv areas s.made parts

/-- The partition is from the request and has a start, an end and a size. -/
def Given (p : Partition) : Prop :=
  p.start ≠ [] ∧ p.size ≠ [] ∧ ∃ stop ∈ p.stop, stop ≠ []

/-- A table is confirmed only if all partitions are from the request, with distinct numbers
and with places, and none is made without a free area. -/
def Careful (s : DiskRun) (ev : Event) : Prop :=
  s.result.isResponse = false →
    ∀ d code ch, s.disk = some d → ev = .key code ch →
      (d.mode = .confirm → code = .keyChar → ch = 121 ∨ ch = 89 →
        (∀ m ∈ s.made, m = none) ∧ (d.partitions.map Partition.number).Nodup ∧
          ∀ p ∈ d.partitions, Given p) ∧
      (Creates sv code d → d.freeSpace ≠ [])

/-! ## Members of an answer -/

theorem textOf_start (p : Partition) : textOf p.json "start" = some p.start := by
  obtain ⟨number,start,stop,size,ptype⟩ := p
  cases stop <;> rfl

theorem textOf_end (p : Partition) : textOf p.json "end" = p.stop := by
  obtain ⟨number,start,stop,size,ptype⟩ := p
  cases stop <;> rfl

theorem textOf_size (p : Partition) : textOf p.json "size" = some p.size := by
  obtain ⟨number,start,stop,size,ptype⟩ := p
  cases stop <;> rfl

theorem number_json (p : Partition) :
    p.json.getObjectItem (bytes "number") = some (Json.ofInt p.number) := rfl

theorem ofInt_injective : Function.Injective Json.ofInt := by
  intro m n h
  injection h with h
  injection h with hsign habs
  have hsign' : m < 0 ↔ n < 0 := by simpa using hsign
  omega

theorem placed_json_iff (p : Partition) : Placed p.json ↔ Given p := by
  have hlist : Placed p.json ↔ (∃ text, textOf p.json "start" = some text ∧ text ≠ []) ∧
      (∃ text, textOf p.json "end" = some text ∧ text ≠ []) ∧
        ∃ text, textOf p.json "size" = some text ∧ text ≠ [] := by
    simp [Placed]
  rw [hlist,textOf_start,textOf_end,textOf_size,Given]
  simp only [Option.some.injEq,exists_eq_left',Option.mem_def]
  tauto

/-- Partitions without an end are those that were made. -/
def Tracks (made : List (Option ℕ)) (partitions : List Partition) : Prop :=
  made.map Option.isSome = partitions.map fun p => p.stop.isNone

theorem Tracks.made_eq_none {made : List (Option ℕ)} {partitions : List Partition}
    (h : Tracks made partitions) (hgiven : ∀ p ∈ partitions, Given p) : ∀ m ∈ made, m = none := by
  intro m hm
  have hmem : m.isSome ∈ partitions.map fun p => p.stop.isNone := h ▸ List.mem_map_of_mem hm
  obtain ⟨p,hp,hstop⟩ := List.mem_map.1 hmem
  obtain ⟨-,-,stop,hsome,-⟩ := hgiven p hp
  rw [Option.mem_def.1 hsome] at hstop
  simpa using hstop.symm

/-- A table is sound exactly if all its partitions are from the request, with distinct
numbers and with places. -/
theorem tableSound_iff (areas : List FreeSpace) {made : List (Option ℕ)}
    {partitions : List Partition} (h : Tracks made partitions) :
    TableSound sv areas made (partitions.map Partition.json) ↔
      (∀ m ∈ made, m = none) ∧ (partitions.map Partition.number).Nodup ∧
        ∀ p ∈ partitions, Given p := by
  have hnumbers : ((partitions.map Partition.json).map
      fun e => e.getObjectItem (bytes "number")).Nodup ↔
        (partitions.map Partition.number).Nodup := by
    have hmap : (partitions.map Partition.json).map (fun e => e.getObjectItem (bytes "number")) =
        (partitions.map Partition.number).map fun n => some (Json.ofInt n) := by
      rw [List.map_map,List.map_map]
      exact List.map_congr_left fun p _ => number_json p
    rw [hmap,List.nodup_map_iff fun m n h => ofInt_injective (Option.some.inj h)]
  have hplaced : (∀ e ∈ partitions.map Partition.json, Placed e) ↔
      ∀ p ∈ partitions, Given p := by
    rw [List.forall_mem_map]
    exact forall₂_congr fun p _ => placed_json_iff p
  rw [TableSound,hnumbers,hplaced]
  constructor
  · rintro ⟨hnodup,hgiven,-⟩
    exact ⟨h.made_eq_none hgiven,hnodup,hgiven⟩
  · rintro ⟨hmade,hnodup,hgiven⟩
    refine ⟨hnodup,hgiven,fun i k e area hi => ?_⟩
    cases hmade _ (List.mem_of_getElem? hi)

/-! ## Each key -/

/-- What stays true of a disk. -/
structure DiskKept (initial : List Partition) (made : List (Option ℕ)) (d : DiskData) : Prop where
  tracks : Tracks made d.partitions
  readonly : d.readonly = true → d.partitions = initial ∧ d.mode = .main
  editing : d.mode = .newPartition → d.editingIdx < d.freeSpace.length ∨ d.freeSpace = []
  selected : d.selected < d.partitions.length+d.freeSpace.length ∨
    d.partitions.length+d.freeSpace.length = 0

variable {sv} {initial : List Partition} {made : List (Option ℕ)} {d : DiskData}

/-- The new list of origins after a key. -/
def madeAfter (sv : Services β) (code : KeyCode) (ch : UInt8) (d : DiskData)
    (made : List (Option ℕ)) : List (Option ℕ) :=
  if Creates sv code d then made++[some d.editingIdx]
  else if Deletes code ch d then made.eraseIdx d.selected
  else made

theorem DiskKept.leave (h : DiskKept initial made d) : DiskKept initial made d.leave :=
  ⟨h.tracks,fun hr => ⟨(h.readonly hr).1,rfl⟩,fun hm => (by cases hm),h.selected⟩

theorem DiskKept.writable (h : DiskKept initial made d) (hmode : d.mode ≠ .main) :
    d.readonly = false := by
  rw [← Bool.not_eq_true]
  exact fun hr => hmode (h.readonly hr).2

/-- A partition without an end is added, from a free area. -/
theorem DiskKept.create (h : DiskKept initial made d) (hmode : d.mode = .newPartition)
    (size : Bytes) : DiskKept initial (made++[some d.editingIdx]) (d.commit size).leave := by
  have hwritable := h.writable (by simp [hmode])
  rw [DiskData.commit,if_pos hmode]
  refine ⟨?_,fun hr => ?_,fun hm => (by cases hm),Or.inl ?_⟩
  · have htracks := h.tracks
    rw [Tracks] at htracks ⊢
    rw [List.map_append,htracks]
    simp [DiskData.leave]
  · exact absurd (hwritable.symm.trans hr) (by decide)
  · simp only [DiskData.leave,List.length_append,List.length_cons,List.length_nil]
    omega

/-- Another size leaves the ends. -/
theorem DiskKept.resize (h : DiskKept initial made d) (hmode : d.mode = .resizeInput)
    (size : Bytes) : DiskKept initial made (d.commit size).leave := by
  have hwritable := h.writable (by simp [hmode])
  rw [DiskData.commit,if_neg (by simp [hmode])]
  refine ⟨?_,fun hr => ?_,fun hm => (by cases hm),?_⟩
  · have htracks := h.tracks
    rw [Tracks] at htracks ⊢
    rw [htracks]
    refine List.ext_getElem? fun i => ?_
    simp only [DiskData.leave,List.getElem?_map,List.getElem?_modify]
    split_ifs
    all_goals cases d.partitions[i]? <;> rfl
  · exact absurd (hwritable.symm.trans hr) (by decide)
  · simpa [DiskData.leave] using h.selected

theorem DiskKept.input (h : DiskKept initial made d)
    (hmode : d.mode = .resizeInput ∨ d.mode = .newPartition) (code : KeyCode) (ch : UInt8) :
    DiskKept initial (madeAfter sv code ch d made) (diskInput sv code ch d).2 := by
  have hdelete : ¬Deletes code ch d := by
    rintro ⟨hmain,-⟩
    rcases hmode with hmode | hmode
    all_goals
      rw [hmode] at hmain
      cases hmain
  have hnone : ¬Creates sv code d → madeAfter sv code ch d made = made := by
    intro hcreate
    rw [madeAfter,if_neg hcreate,if_neg hdelete]
  have hcode : code ≠ .keyEnter → madeAfter sv code ch d made = made := fun hne =>
    hnone fun hcreate => hne hcreate.2.1
  unfold diskInput
  split
  · rw [hcode (by simp)]
    exact h.leave
  · cases hinput : d.input with
    | none =>
        rw [hnone fun hcreate => by
          obtain ⟨-,-,size,hsize,-⟩ := hcreate
          rw [hinput] at hsize
          cases hsize]
        exact h.leave
    | some size =>
        dsimp only
        split_ifs with hsize
        · have hcommits : Commits sv .keyEnter d := ⟨rfl,size,hinput,hsize⟩
          rcases hmode with hmode | hmode
          · rw [hnone fun hcreate => by
              rw [Creates,hmode] at hcreate
              cases hcreate.1]
            exact h.resize hmode size
          · rw [madeAfter,if_pos ⟨hmode,hcommits⟩]
            exact h.create hmode size
        · rw [hnone fun hcreate => by
            obtain ⟨-,-,size',hsize',hpos⟩ := hcreate
            rw [hinput] at hsize'
            obtain rfl := Option.some.inj hsize'
            exact hsize hpos]
          exact h.leave
  · rw [hcode (by simp)]
    exact ⟨h.tracks,h.readonly,h.editing,h.selected⟩
  · rw [hcode (by simp)]
    exact ⟨h.tracks,h.readonly,h.editing,h.selected⟩
  · rw [hcode (by assumption)]
    exact h

theorem DiskKept.delete (h : DiskKept initial made d) (hmode : d.mode = .main)
    (hwritable : d.readonly = false) (hselected : d.selected < d.partitions.length) :
    DiskKept initial (made.eraseIdx d.selected)
      { d with partitions := d.partitions.eraseIdx d.selected, base := d.base.touch,
               selected := if (d.partitions.eraseIdx d.selected).length ≤ d.selected
                           then d.selected-1 else d.selected } := by
  have hlength := List.length_eraseIdx_of_lt hselected
  refine ⟨?_,fun hr => ?_,fun hm => ?_,?_⟩
  · have htracks := h.tracks
    rw [Tracks] at htracks ⊢
    rw [← List.eraseIdx_map,← List.eraseIdx_map,htracks]
  · exact absurd (hwritable.symm.trans hr) (by decide)
  · exact absurd (hmode.symm.trans hm) (by decide)
  · dsimp only
    split_ifs
    all_goals omega

theorem DiskKept.command (h : DiskKept initial made d) (hmode : d.mode = .main)
    (hwritable : d.readonly = false) (ch : UInt8) :
    DiskKept initial (madeAfter sv .keyChar ch d made) (diskCommand ch d).2 := by
  have hcreate : ¬Creates sv .keyChar d := by
    rintro ⟨-,hcode,-⟩
    cases hcode
  have hreadonly : ∀ {P : Prop}, d.readonly = true → P := fun hr =>
    absurd (hwritable.symm.trans hr) (by decide)
  have hkeep : ¬(ch = 100 ∧ d.selected < d.partitions.length) →
      madeAfter sv .keyChar ch d made = made := by
    intro hne
    rw [madeAfter,if_neg hcreate,if_neg fun hdelete => hne hdelete.2.2.2]
  unfold diskCommand
  split_ifs with hquit hnew hlast hdelete hsel hresize hsel hwrite
  · rw [hkeep (by simp [hquit])]
    exact h
  · rw [hkeep (by simp [hnew])]
    refine ⟨h.tracks,hreadonly,fun _ => ?_,h.selected⟩
    have hsel := h.selected
    rw [← List.length_eq_zero_iff]
    dsimp only
    omega
  · rw [hkeep (by simp [hnew])]
    exact h
  · rw [madeAfter,if_neg hcreate,if_pos ⟨hmode,rfl,hwritable,hdelete,hsel⟩]
    exact h.delete hmode hwritable hsel
  · rw [hkeep fun hd => hsel hd.2]
    exact h
  · rw [hkeep fun hd => hdelete hd.1]
    exact ⟨h.tracks,hreadonly,fun hm => (by cases hm),h.selected⟩
  · rw [hkeep fun hd => hdelete hd.1]
    exact h
  · rw [hkeep fun hd => hdelete hd.1]
    exact ⟨h.tracks,hreadonly,fun hm => (by cases hm),h.selected⟩
  · rw [hkeep fun hd => hdelete hd.1]
    exact h

/-- Every key keeps what stays true. -/
theorem DiskKept.key (h : DiskKept initial made d) (code : KeyCode) (ch : UInt8) :
    DiskKept initial (madeAfter sv code ch d made) (diskHandleEvent sv code ch d).2 := by
  have hother : d.mode = .confirm ∨ d.mode = .main ∧ code ≠ .keyChar ∨
      d.mode = .main ∧ d.readonly = true → madeAfter sv code ch d made = made := by
    rintro (hmode | ⟨hmode,hcode⟩ | ⟨hmode,hr⟩)
    · rw [madeAfter,if_neg (by simp [Creates,hmode]),if_neg (by simp [Deletes,hmode])]
    · rw [madeAfter,if_neg (by simp [Creates,hmode]),if_neg (by simp [Deletes,hcode])]
    · rw [madeAfter,if_neg (by simp [Creates,hmode]),if_neg (by simp [Deletes,hr])]
  unfold diskHandleEvent
  split
  · next hmode =>
    rw [hother (Or.inl hmode)]
    split_ifs
    · exact h
    · exact ⟨h.tracks,fun hr => ⟨(h.readonly hr).1,rfl⟩,fun hm => (by cases hm),h.selected⟩
  · next hmode => exact h.input (Or.inl hmode) code ch
  · next hmode => exact h.input (Or.inr hmode) code ch
  · next hmode =>
    split
    · rw [hother (Or.inr (Or.inl ⟨hmode,by simp⟩))]
      exact h
    · rw [hother (Or.inr (Or.inl ⟨hmode,by simp⟩))]
      refine ⟨h.tracks,h.readonly,h.editing,?_⟩
      have hsel := h.selected
      dsimp only
      omega
    · rw [hother (Or.inr (Or.inl ⟨hmode,by simp⟩))]
      split_ifs with hnext
      · exact ⟨h.tracks,h.readonly,h.editing,Or.inl hnext⟩
      · exact ⟨h.tracks,h.readonly,h.editing,h.selected⟩
    · split_ifs with hr
      · rw [hother (Or.inr (Or.inr ⟨hmode,hr⟩))]
        exact h
      · exact h.command hmode (Bool.eq_false_of_not_eq_true hr) ch
    · next hne =>
      rw [hother (Or.inr (Or.inl ⟨hmode,hne⟩))]
      exact h

/-- Nothing is answered while a size is typed. -/
theorem diskInput_ne_response (code : KeyCode) (ch : UInt8) (d : DiskData) (r : WidgetResponse) :
    (diskInput sv code ch d).1 ≠ .response r := by
  intro h
  unfold diskInput at h
  split at h
  all_goals try split at h
  all_goals try split_ifs at h
  all_goals cases h

/-- A disk answers with a table only where it is confirmed. -/
theorem response_key {code : KeyCode} {ch : UInt8} {r : WidgetResponse} {table : Json}
    (h : (diskHandleEvent sv code ch d).1 = .response r) (htable : r.result = some table) :
    d.mode = .confirm ∧ code = .keyChar ∧ (ch = 121 ∨ ch = 89) ∧
      table = .array (d.partitions.map Partition.json) ∧ (diskHandleEvent sv code ch d).2 = d := by
  have hcancelled : ∀ {P : Prop}, cancelled = .response r → P := by
    intro P hr
    injection hr with hr
    rw [← hr] at htable
    cases htable
  unfold diskHandleEvent at h ⊢
  split at h
  · next hmode =>
    split_ifs at h with hyes
    · injection h with h
      rw [← h] at htable
      exact ⟨hmode,hyes.1,hyes.2,(Option.some.inj htable).symm,by rw [if_pos hyes]⟩
  · exact absurd h (diskInput_ne_response code ch d r)
  · exact absurd h (diskInput_ne_response code ch d r)
  · split at h
    · exact hcancelled h
    · cases h
    · cases h
    · unfold diskCommand at h
      split_ifs at h
      all_goals exact hcancelled h
    · cases h

/-! ## Runs -/

/-- The disk is there, and what it returned is sound. -/
structure RunKept (sv : Services β) (initial : List Partition) (areas : List FreeSpace)
    (s : DiskRun) : Prop where
  kept : ∃ d, s.disk = some d ∧ DiskKept initial s.made d
  sound : DiskSound sv initial areas s

theorem soundOf {areas : List FreeSpace} {s : DiskRun} (hdisk : s.disk = some d)
    (hkept : DiskKept initial s.made d)
    (hresult : ∀ r table, s.result = .response r → r.result = some table →
      ∃ parts, table = .array parts ∧ TableSound sv areas s.made parts) :
    RunKept sv initial areas s :=
  ⟨⟨d,hdisk,hkept⟩,d,hdisk,fun hr => (hkept.readonly hr).1,hresult⟩

theorem take_key {s : DiskRun} (hlive : s.result.isResponse = false) (hdisk : s.disk = some d)
    {code : KeyCode} {ch : UInt8} (hfree : Creates sv code d → d.editingIdx < d.freeSpace.length) :
    s.take sv (.key code ch) =
      { disk := some (diskHandleEvent sv code ch d).2, result := (diskHandleEvent sv code ch d).1,
        made := madeAfter sv code ch d s.made } := by
  have hevent : diskEvent sv code ch d = some (diskHandleEvent sv code ch d) :=
    if_neg fun h => absurd (hfree h.1) (by omega)
  unfold DiskRun.take
  rw [if_neg (by simp [hlive])]
  simp only [hdisk,hevent]
  rfl

theorem runKept_take {areas : List FreeSpace} {s : DiskRun} {ev : Event}
    (hs : RunKept sv initial areas s) (hev : Careful sv s ev) :
    RunKept sv initial areas (s.take sv ev) := by
  by_cases hlive : s.result.isResponse = false
  swap
  · unfold DiskRun.take
    rw [if_pos (by simpa using hlive)]
    exact hs
  obtain ⟨d,hdisk,hkept⟩ := hs.kept
  cases ev with
  | key code ch =>
      obtain ⟨hconfirm,hcreate⟩ := hev hlive d code ch hdisk rfl
      have hfree : Creates sv code d → d.editingIdx < d.freeSpace.length := fun h =>
        (hkept.editing h.1).resolve_right (hcreate h)
      rw [take_key hlive hdisk hfree]
      refine soundOf rfl (hkept.key code ch) fun r table hr htable => ?_
      obtain ⟨hmode,hcode,hch,rfl,hsame⟩ := response_key hr htable
      have hmade : madeAfter sv code ch d s.made = s.made := by
        rw [madeAfter,if_neg (by simp [Creates,hmode]),if_neg (by simp [Deletes,hmode])]
      refine ⟨_,rfl,?_⟩
      dsimp only
      rw [hmade,tableSound_iff sv areas hkept.tracks]
      exact hconfirm hmode hcode hch
  | _ =>
      unfold DiskRun.take
      rw [if_neg (by simp [hlive])]
      exact soundOf hdisk hkept fun r table hr => by cases hr

/-- A careless event leaves the memory or gives a table that is not sound. -/
theorem not_sound_take {areas : List FreeSpace} {s : DiskRun} {ev : Event}
    (hs : RunKept sv initial areas s) (hev : ¬Careful sv s ev) :
    ¬DiskSound sv initial areas (s.take sv ev) := by
  obtain ⟨d,hdisk,hkept⟩ := hs.kept
  simp only [Careful,not_forall] at hev
  obtain ⟨hlive,d',code,ch,hd',rfl,hcareless⟩ := hev
  obtain rfl : d = d' := Option.some.inj (hdisk.symm.trans hd')
  by_cases hcreate : Creates sv code d → d.freeSpace ≠ []
  · have hconfirm : ¬(d.mode = .confirm → code = .keyChar → ch = 121 ∨ ch = 89 →
        (∀ m ∈ s.made, m = none) ∧ (d.partitions.map Partition.number).Nodup ∧
          ∀ p ∈ d.partitions, Given p) := fun h => hcareless ⟨h,hcreate⟩
    simp only [Classical.not_imp] at hconfirm
    obtain ⟨hmode,rfl,hch,hunsound⟩ := hconfirm
    have hfree : Creates sv .keyChar d → d.editingIdx < d.freeSpace.length := fun h =>
      (hkept.editing h.1).resolve_right (hcreate h)
    have hmade : madeAfter sv .keyChar ch d s.made = s.made := by
      rw [madeAfter,if_neg (by simp [Creates,hmode]),if_neg (by simp [Deletes,hmode])]
    have hanswer : (diskHandleEvent sv .keyChar ch d).1 =
        answered (.array (d.partitions.map Partition.json)) := by
      unfold diskHandleEvent
      simp only [hmode]
      rw [if_pos ⟨trivial,hch⟩]
    rw [take_key hlive hdisk hfree]
    rintro ⟨-,-,-,hresult⟩
    obtain ⟨parts,hparts,hsound⟩ := hresult _ _ hanswer rfl
    obtain rfl : d.partitions.map Partition.json = parts := by injection hparts
    dsimp only at hsound
    rw [hmade,tableSound_iff sv areas hkept.tracks] at hsound
    exact hunsound hsound
  · rw [Classical.not_imp,not_not] at hcreate
    obtain ⟨hcreates,hnone⟩ := hcreate
    have hevent : diskEvent sv code ch d = none :=
      if_pos ⟨hcreates,by rw [hnone]; exact Nat.zero_le _⟩
    unfold DiskRun.take
    rw [if_neg (by simp [hlive])]
    simp only [hdisk,hevent]
    rintro ⟨d',hd',-⟩
    cases hd'

theorem runKept_start (partitions freeSpace : Option Json) (readonly : Bool) :
    RunKept sv (partitionsOf partitions) (freeSpacesOf freeSpace)
      (DiskRun.start partitions freeSpace readonly) := by
  refine soundOf rfl ⟨?_,fun _ => ⟨rfl,rfl⟩,fun hm => (by cases hm),?_⟩ fun r table hr => by cases hr
  · rw [Tracks,DiskRun.start,List.map_map]
    refine List.ext_getElem? fun i => ?_
    simp only [diskWidgetOf,diskWidgetNew,partitionsOf,List.getElem?_map,List.getElem?_mapIdx]
    cases ((partitions.map Json.elements).getD [])[i]? <;> rfl
  · simp only [diskWidgetOf,diskWidgetNew]
    omega

/-- What a disk returns is sound in every state of a run exactly if each event is careful. -/
theorem table_sound_iff (sv : Services β) (partitions freeSpace : Option Json) (readonly : Bool)
    (evs : List Event) :
    Always (DiskRun.take sv) (DiskSound sv (partitionsOf partitions) (freeSpacesOf freeSpace))
        (DiskRun.start partitions freeSpace readonly) evs ↔
      Guarded (DiskRun.take sv) (Careful sv) (DiskRun.start partitions freeSpace readonly) evs :=
  always_iff_guarded (I := RunKept sv (partitionsOf partitions) (freeSpacesOf freeSpace))
    (fun _ hs => hs.sound) (fun _ _ hs hev => runKept_take hs hev)
    (fun _ _ hs hev => not_sound_take hs hev) (runKept_start partitions freeSpace readonly) evs

/-- Sizes in bytes. -/
def byteServices : Services Unit where
  regexec _ _ := true
  filAccepts _ _ _ := true
  humanToBytes s := (s.takeWhile isDigit).foldl (fun n c => 10*n+(c.toNat-48)) 0
  nineTenths h := h*9/10
  writeFile _ _ b := b

/-- A table of one partition and a free area behind it. -/
def onePartition : Option Json :=
  some (.array [.object [(bytes "number",Json.ofInt 2),(bytes "start",.string (bytes "0")),
    (bytes "end",.string (bytes "99")),(bytes "size",.string (bytes "100"))]])

def oneArea : Option Json :=
  some (.array [.object [(bytes "start",.string (bytes "100")),
    (bytes "end",.string (bytes "199")),(bytes "size",.string (bytes "100"))]])

/-- A partition of 50 bytes is made in the free area and the table written. -/
def makeOne : List Event :=
  [.key .keyDown 0,.key .keyChar 110,.key .keyChar 53,.key .keyChar 48,.key .keyEnter 0,
    .key .keyChar 119,.key .keyChar 121]

/-- It has no end and the number of the other one. -/
theorem made_partition_has_no_end :
    (¬Always (DiskRun.take byteServices)
        (DiskSound byteServices (partitionsOf onePartition) (freeSpacesOf oneArea))
        (DiskRun.start onePartition oneArea false) makeOne) ∧
      ∃ e f, (run (DiskRun.take byteServices) (DiskRun.start onePartition oneArea false)
          makeOne).result = answered (.array [e,f]) ∧
        e.getObjectItem (bytes "number") = f.getObjectItem (bytes "number") := by
  have hresult : (run (DiskRun.take byteServices) (DiskRun.start onePartition oneArea false)
      makeOne).result = answered (.array
        [(⟨2,bytes "0",some (bytes "99"),bytes "100",[]⟩ : Partition).json,
          (⟨2,bytes "100",none,bytes "50",bytes "Linux filesystem"⟩ : Partition).json]) := by
    rfl
  refine ⟨fun h => ?_,_,_,hresult,rfl⟩
  obtain ⟨-,-,-,hsound⟩ := h.finish
  obtain ⟨parts,hparts,-,hplaced,-⟩ := hsound _ _ hresult rfl
  injection hparts with hparts
  rw [← hparts,List.forall_mem_cons,List.forall_mem_cons,placed_json_iff,placed_json_iff] at hplaced
  obtain ⟨-,-,stop,hstop,-⟩ := hplaced.2.1
  cases hstop

end Filly.SessionLoop

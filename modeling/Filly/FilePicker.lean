import Filly.CJson
import Filly.DirectoryTrees
import Filly.Runs

/-!
# The file picker

The current directory of a file picker is a path. Enter puts the name of an entry behind it,
and Backspace cuts it at its last slash.

The title and the picture are left out.
-/
namespace Filly.FilePicker
open CJson DirectoryTrees Runs

/-! ## Paths -/

/-- What is before and what is behind the last such byte. -/
def strrchr (c : UInt8) : Bytes → Option (Bytes × Bytes)
  | [] => none
  | b::s =>
      match strrchr c s with
      | some (before,behind) => some (b::before,behind)
      | none => if b = c then some ([],s) else none

theorem notMem_of_strrchr_eq_none {c : UInt8} {s : Bytes} (h : strrchr c s = none) : c ∉ s := by
  induction s with
  | nil => exact List.not_mem_nil
  | cons b s ih =>
      rw [strrchr] at h
      cases hs : strrchr c s with
      | some parts =>
          rw [hs] at h
          cases h
      | none =>
          rw [hs] at h
          dsimp only at h
          split_ifs at h with hb
          rw [List.mem_cons,not_or]
          exact ⟨Ne.symm hb,ih hs⟩

theorem strrchr_spec {c : UInt8} {s before behind : Bytes}
    (h : strrchr c s = some (before,behind)) : s = before++c::behind ∧ c ∉ behind := by
  induction s generalizing before with
  | nil => cases h
  | cons b s ih =>
      rw [strrchr] at h
      cases hs : strrchr c s with
      | some parts =>
          rw [hs] at h
          cases h
          obtain ⟨heq,hlast⟩ := ih hs
          exact ⟨congrArg (b::·) heq,hlast⟩
      | none =>
          rw [hs] at h
          dsimp only at h
          split_ifs at h with hb
          cases h
          exact ⟨congrArg (·::_) hb,notMem_of_strrchr_eq_none hs⟩

def component (c : Bytes) : Component Bytes :=
  if c = [] ∨ c = bytes "." then .here
  else if c = bytes ".." then .parent
  else .name c

/-- The component is a name. -/
def Named (c : Bytes) : Prop := c ≠ [] ∧ c ≠ bytes "." ∧ c ≠ bytes ".."

/-- A name in a tree has no slash and none of the special meanings. -/
structure FileSystem extends DirectoryTree Bytes where
  /-- The names that `readdir` gives. -/
  listing : List Bytes → List Bytes
  /-- `PATH_MAX`: a path with its zero byte is at most that long. -/
  pathMax : ℕ
  proper : ∀ place name, (kind (place++[name])).isSome → Named name ∧ 47 ∉ name
  listed : ∀ place, kind place = some .directory → ∀ name, name ∈ listing place ↔
    name = bytes "." ∨ name = bytes ".." ∨ (kind (place++[name])).isSome

variable (fs : FileSystem)

/-- The place of an absolute path. Other paths do not occur. -/
def resolve (path : Bytes) : Option (List Bytes) :=
  if path.head? = some 47 then fs.walk [] ((path.splitOn 47).map component) else none

/-- What there is at the place of a path. -/
def kindAt (path : Bytes) : Option FileKind := (resolve fs path).bind fs.kind

def opendir (path : Bytes) : Option (List Bytes) :=
  if path.length < fs.pathMax then
    (resolve fs path).filter fun place => fs.kind place = some .directory
  else none

def stat (path : Bytes) : Option FileKind :=
  if path.length < fs.pathMax then kindAt fs path else none

/-! ## The picker -/

/-- The entries are names with whether they are directories. -/
structure Picker where
  currentDir : Bytes
  filterExt : Option Bytes
  entries : List (Bytes × Bool)
  selected : ℕ
  deriving DecidableEq, Repr

/-- The filter is unset or empty, or it is what follows the last dot. -/
def filterPasses (ext : Option Bytes) (name : Bytes) : Bool :=
  match ext with
  | none => true
  | some ext => ext = [] ∨ (strrchr 46 name).map Prod.snd = some ext

/-- `snprintf(path, sizeof(path), "%s/%s", d->current_dir, entry->d_name)` -/
def statPath (dir name : Bytes) : Bytes := (dir++47::name).take 4095

/-- What becomes of a name that `readdir` gives. -/
def readEntry (d : Picker) (name : Bytes) : Option (Bytes × Bool) :=
  if name = bytes "." then none
  else
    match stat fs (statPath d.currentDir name) with
    | none => none
    | some kind =>
        if kind = .directory ∨ filterPasses d.filterExt name then some (name,kind = .directory)
        else none

def fpPopulate (d : Picker) : Picker :=
  match opendir fs d.currentDir with
  | none => { d with entries := [] }
  | some place =>
      let entries := (fs.listing place).filterMap (readEntry fs d)
      { d with
        entries := entries
        selected := if entries.length ≤ d.selected then entries.length-1 else d.selected }

def filePickerNew (startDir filterExt : Option Bytes) : Picker :=
  fpPopulate fs ⟨startDir.getD (bytes "/"),filterExt,[],0⟩

inductive Key where
  | esc | up | down | enter | backspace | other
  deriving DecidableEq, Repr

inductive EventResult where
  | handled | unhandled | cancelled
  | response (path : Bytes)
  deriving DecidableEq, Repr

def handleEvent (d : Picker) : Key → EventResult × Picker
  | .esc => (.cancelled,d)
  | .up => (.handled,{ d with selected := d.selected-1 })
  | .down =>
      (.handled,if d.selected+1 < d.entries.length then { d with selected := d.selected+1 } else d)
  | .enter =>
      match d.entries[d.selected]? with
      | none => (.handled,d)
      | some (name,isDir) =>
          if isDir then
            (.handled,fpPopulate fs { d with currentDir := d.currentDir++47::name })
          else (.response (d.currentDir++47::name),d)
  | .backspace =>
      match strrchr 47 d.currentDir with
      | none => (.handled,d)
      | some (before,_) =>
          if before = [] then (.handled,d)
          else (.handled,fpPopulate fs { d with currentDir := before })
  | .other => (.unhandled,d)

/-! ## What a key should do -/

/-- The next picker. -/
def press (d : Picker) (k : Key) : Picker := (handleEvent fs d k).2

/-- The place of an entry: two dots are the parent. -/
def entryPlace (place : List Bytes) (name : Bytes) : List Bytes :=
  if name = bytes ".." then place.dropLast else place++[name]

/-- The name ends with a dot and the requested extension. -/
def HasExtension (ext : Option Bytes) (name : Bytes) : Prop :=
  ∀ e ∈ ext, e ≠ [] → (46::e) <:+ name

/-- A result is a file of the directory, else the entry is a directory and becomes the current
one. -/
def EntersRight (d : Picker) (place : List Bytes) (name : Bytes) : Prop :=
  match (handleEvent fs d .enter).1 with
  | .response path =>
      resolve fs path = some (place++[name]) ∧ fs.kind (place++[name]) = some .file ∧
        HasExtension d.filterExt name
  | _ =>
      resolve fs (press fs d .enter).currentDir = some (entryPlace place name) ∧
        fs.kind (entryPlace place name) = some .directory

def Navigates (d : Picker) : Key → Prop
  | .enter => ∀ name isDir, d.entries[d.selected]? = some (name,isDir) →
      ∃ place, resolve fs d.currentDir = some place ∧ EntersRight fs d place name
  | .backspace => ∃ place, resolve fs d.currentDir = some place ∧
      resolve fs (press fs d .backspace).currentDir = some place.dropLast
  | _ => True

/-- The path that `stat` sees leads to a directory when the whole path does. Behind the last
slash there is a name, or what is before it is the root. -/
def StepMeets (d : Picker) : Key → Prop
  | .enter => ∀ entry ∈ d.entries[d.selected]?,
      (kindAt fs (statPath d.currentDir entry.1) = some .directory ↔
        kindAt fs (d.currentDir++47::entry.1) = some .directory)
  | .backspace => ∀ parts ∈ strrchr 47 d.currentDir,
      if parts.1 = [] then ¬Named parts.2 else Named parts.2 ∨ resolve fs parts.1 = some []
  | _ => True

instance : DecidablePred Named := fun c =>
  inferInstanceAs (Decidable (c ≠ [] ∧ c ≠ bytes "." ∧ c ≠ bytes ".."))

instance (d : Picker) : DecidablePred (StepMeets fs d)
  | .enter => inferInstanceAs (Decidable (∀ entry ∈ d.entries[d.selected]?, (_ ↔ _)))
  | .backspace => inferInstanceAs (Decidable (∀ parts ∈ strrchr 47 d.currentDir,
      if parts.1 = [] then ¬Named parts.2 else Named parts.2 ∨ resolve fs parts.1 = some []))
  | .esc | .up | .down | .other => isTrue trivial

/-- An entry is highlighted whenever there is one. -/
def Highlighted (d : Picker) : Prop := d.entries ≠ [] → d.selected < d.entries.length

/-! ## Paths and places -/

variable {fs} {d : Picker} {place : List Bytes} {name : Bytes}

theorem component_of_named (h : Named name) : component name = .name name := by
  rw [component,if_neg (not_or.2 ⟨h.1,h.2.1⟩),if_neg h.2.2]

theorem named_iff (name : Bytes) : Named name ↔ ∃ n, component name = .name n := by
  refine ⟨fun h => ⟨name,component_of_named h⟩,?_⟩
  rintro ⟨n,hn⟩
  unfold component at hn
  split_ifs at hn with hhere hparent
  exact ⟨fun h => hhere (Or.inl h),fun h => hhere (Or.inr h),hparent⟩

theorem resolve_concat {dir c : Bytes} (hdir : dir.head? = some 47) (hc : 47 ∉ c) :
    resolve fs (dir++47::c) = (resolve fs dir).bind (fs.step · (component c)) := by
  have hhead : (dir++47::c).head? = some 47 := by
    rw [List.head?_append,hdir]
    rfl
  rw [resolve,resolve,if_pos hhead,if_pos hdir,List.splitOn_append_cons_self,
    List.splitOn_eq_singleton hc,List.map_append]
  exact DirectoryTree.walk_concat [] _ (component c)

/-- A single component behind the first slash. -/
theorem resolve_single {c : Bytes} (hc : 47 ∉ c) :
    resolve fs (47::c) = fs.step [] (component c) := by
  have hsplit : (47::c : Bytes).splitOn 47 = [[],c] := by
    have happend := List.splitOn_append_cons_self (a := (47 : UInt8)) [] c
    rwa [List.splitOn_eq_singleton hc] at happend
  have hroot : fs.walk [] [component []] = some [] := by
    rw [← List.nil_append [component []],DirectoryTree.walk_concat]
    exact DirectoryTree.step_of_directory fs.root .here
  have hhead : (47::c : Bytes).head? = some 47 := rfl
  have hconcat := DirectoryTree.walk_concat (t := fs.toDirectoryTree) [] [component []] (component c)
  rw [hroot] at hconcat
  rw [resolve,if_pos hhead,hsplit]
  exact hconcat

theorem no_slash (hplace : fs.kind place = some .directory) (hname : name ∈ fs.listing place) :
    47 ∉ name := by
  rcases (fs.listed place hplace name).1 hname with rfl | rfl | hin
  · decide
  · decide
  · exact (fs.proper place name hin).2

/-- Each entry but the dot leads to its place. -/
theorem step_entry (hplace : fs.kind place = some .directory) (hname : name ∈ fs.listing place)
    (hdot : name ≠ bytes ".") :
    fs.step place (component name) = some (entryPlace place name) := by
  rw [DirectoryTree.step_of_directory hplace]
  rcases (fs.listed place hplace name).1 hname with hname | rfl | hin
  · exact absurd hname hdot
  · rfl
  · have hnamed := (fs.proper place name hin).1
    rw [component_of_named hnamed,entryPlace,if_neg hnamed.2.2]
    exact if_pos hin

/-! ## Reading a directory -/

variable (fs) in
/-- The current directory is open: what is listed was read from it. -/
structure Opened (d : Picker) (place : List Bytes) : Prop where
  absolute : d.currentDir.head? = some 47
  resolves : resolve fs d.currentDir = some place
  directory : fs.kind place = some .directory
  read : ∀ entry ∈ d.entries, ∃ name ∈ fs.listing place, readEntry fs d name = some entry

theorem fpPopulate_currentDir (d : Picker) : (fpPopulate fs d).currentDir = d.currentDir := by
  unfold fpPopulate
  split <;> rfl

theorem fpPopulate_filterExt (d : Picker) : (fpPopulate fs d).filterExt = d.filterExt := by
  unfold fpPopulate
  split <;> rfl

theorem opened_populate (habsolute : d.currentDir.head? = some 47)
    (hresolves : resolve fs d.currentDir = some place)
    (hplace : fs.kind place = some .directory) : Opened fs (fpPopulate fs d) place := by
  refine ⟨?_,?_,hplace,?_⟩
  · rwa [fpPopulate_currentDir]
  · rwa [fpPopulate_currentDir]
  · have hread (name : Bytes) : readEntry fs (fpPopulate fs d) name = readEntry fs d name := by
      unfold readEntry
      rw [fpPopulate_currentDir,fpPopulate_filterExt]
    intro entry hentry
    simp only [hread]
    unfold fpPopulate at hentry
    cases hopen : opendir fs d.currentDir with
    | none =>
        rw [hopen] at hentry
        exact absurd hentry List.not_mem_nil
    | some place' =>
        have hsame : place' = place := by
          unfold opendir at hopen
          split_ifs at hopen
          rw [hresolves,Option.filter_eq_some_iff] at hopen
          exact (Option.some.inj hopen.1).symm
        rw [hopen] at hentry
        rw [← hsame]
        exact List.mem_filterMap.1 hentry

theorem highlighted_populate (d : Picker) : Highlighted (fpPopulate fs d) := by
  unfold fpPopulate
  split
  · exact fun h => absurd rfl h
  · intro h
    have hpos := List.length_pos_iff.2 h
    dsimp only at hpos ⊢
    split_ifs <;> omega

/-- What an entry of an open directory is. -/
structure Entry (fs : FileSystem) (d : Picker) (place : List Bytes) (name : Bytes)
    (isDir : Bool) : Prop where
  resolves : resolve fs (d.currentDir++47::name) = some (entryPlace place name)
  flagged : isDir ↔ kindAt fs (statPath d.currentDir name) = some .directory
  passes : ¬isDir → filterPasses d.filterExt name
  listed : name = bytes ".." ∨ (fs.kind (place++[name])).isSome

theorem Opened.entry (h : Opened fs d place) {name : Bytes} {isDir : Bool}
    (hentry : (name,isDir) ∈ d.entries) : Entry fs d place name isDir := by
  obtain ⟨name',hname,hread⟩ := h.read _ hentry
  unfold readEntry at hread
  split_ifs at hread with hdot
  unfold stat at hread
  split_ifs at hread
  cases hkind : kindAt fs (statPath d.currentDir name') with
  | none =>
      rw [hkind] at hread
      cases hread
  | some kind =>
      rw [hkind] at hread
      dsimp only at hread
      split_ifs at hread with hpass
      cases hread
      refine ⟨?_,?_,?_,?_⟩
      · rw [resolve_concat h.absolute (no_slash h.directory hname),h.resolves]
        exact step_entry h.directory hname hdot
      · rw [hkind,decide_eq_true_iff,Option.some_inj]
      · rw [decide_eq_true_iff]
        exact hpass.resolve_left
      · exact ((fs.listed place h.directory name).1 hname).resolve_left hdot

theorem hasExtension_of_passes {ext : Option Bytes} (h : filterPasses ext name) :
    HasExtension ext name := by
  rintro e he hnonempty
  cases he
  rw [filterPasses,decide_eq_true_iff,Option.map_eq_some_iff] at h
  obtain ⟨⟨before,behind⟩,hlast,rfl⟩ := h.resolve_left hnonempty
  exact ⟨before,(strrchr_spec hlast).1.symm⟩

/-! ## Each key -/

/-- What is not a directory is a file in this one. -/
theorem Entry.file {isDir : Bool} (hentry : Entry fs d place name isDir)
    (hplace : fs.kind place = some .directory)
    (h : fs.kind (entryPlace place name) ≠ some .directory) :
    entryPlace place name = place++[name] ∧ fs.kind (place++[name]) = some .file := by
  have hparent : name ≠ bytes ".." := by
    rintro rfl
    exact h (DirectoryTree.directory_dropLast (by rw [hplace]; rfl))
  have heq : entryPlace place name = place++[name] := if_neg hparent
  obtain ⟨kind,hkind⟩ := Option.isSome_iff_exists.1 (hentry.listed.resolve_left hparent)
  rw [heq,hkind] at h
  cases kind with
  | file => exact ⟨heq,hkind⟩
  | directory => exact absurd rfl h

/-- An entry is entered or confirmed as it should be exactly when its flag is right. -/
theorem entersRight_iff (h : Opened fs d place) {isDir : Bool}
    (hselected : d.entries[d.selected]? = some (name,isDir)) :
    EntersRight fs d place name ↔ (isDir ↔ fs.kind (entryPlace place name) = some .directory) := by
  have hentry := h.entry (List.mem_of_getElem? hselected)
  cases isDir with
  | true =>
      have hpress : handleEvent fs d .enter =
          (.handled,fpPopulate fs { d with currentDir := d.currentDir++47::name }) := by
        simp only [handleEvent,hselected,if_true]
      rw [EntersRight,press,hpress]
      dsimp only
      rw [fpPopulate_currentDir]
      exact ⟨fun hright => iff_of_true rfl hright.2,fun hkind => ⟨hentry.resolves,hkind.1 rfl⟩⟩
  | false =>
      have hpress : handleEvent fs d .enter = (.response (d.currentDir++47::name),d) := by
        simp only [handleEvent,hselected,Bool.false_eq_true,if_false]
      rw [EntersRight,hpress]
      dsimp only
      rw [hentry.resolves,Option.some_inj]
      constructor
      · rintro ⟨heq,hkind,_⟩
        rw [heq,hkind]
        exact iff_of_false Bool.false_ne_true (by simp)
      · intro hkind
        obtain ⟨heq,hfile⟩ := hentry.file h.directory fun hdir => absurd (hkind.2 hdir) (by simp)
        exact ⟨heq,hfile,hasExtension_of_passes (hentry.passes Bool.false_ne_true)⟩

theorem navigates_enter_iff (h : Opened fs d place) :
    Navigates fs d .enter ↔ StepMeets fs d .enter := by
  cases hselected : d.entries[d.selected]? with
  | none => simp [Navigates,StepMeets,hselected]
  | some entry =>
      obtain ⟨name,isDir⟩ := entry
      have hentry := h.entry (List.mem_of_getElem? hselected)
      have hmeets : StepMeets fs d .enter ↔ (isDir ↔
          fs.kind (entryPlace place name) = some .directory) := by
        simp only [StepMeets,hselected,Option.mem_def,Option.some_inj,forall_eq']
        rw [← hentry.flagged,kindAt,hentry.resolves]
        rfl
      rw [hmeets,← entersRight_iff h hselected]
      constructor
      · intro hnav
        obtain ⟨place',hplace',hright⟩ := hnav name isDir hselected
        rw [h.resolves,Option.some_inj] at hplace'
        rwa [hplace']
      · intro hright name' isDir' hselected'
        rw [hselected,Option.some_inj,Prod.mk.injEq] at hselected'
        obtain ⟨rfl,-⟩ := hselected'
        exact ⟨place,h.resolves,hright⟩

theorem navigates_backspace_iff (h : Opened fs d place) :
    Navigates fs d .backspace ↔ StepMeets fs d .backspace := by
  have hplace (P : List Bytes → Prop) :
      (∃ place, resolve fs d.currentDir = some place ∧ P place) ↔ P place := by
    rw [h.resolves]
    simp
  rw [Navigates,hplace]
  cases hslash : strrchr 47 d.currentDir with
  | none =>
      refine absurd ?_ (notMem_of_strrchr_eq_none hslash)
      exact List.mem_of_mem_head? h.absolute
  | some parts =>
      obtain ⟨before,behind⟩ := parts
      obtain ⟨hdir,hbehind⟩ := strrchr_spec hslash
      have hresolves := h.resolves
      simp only [StepMeets,press,handleEvent,hslash,Option.mem_def,Option.some_inj,forall_eq']
      by_cases hfirst : before = []
      · rw [if_pos hfirst,if_pos hfirst,hresolves,Option.some_inj,eq_comm,
          DirectoryTree.dropLast_eq_self_iff,named_iff]
        rw [hdir,hfirst,List.nil_append,resolve_single hbehind] at hresolves
        exact DirectoryTree.eq_root_iff hresolves
      · have hhead : before.head? = some 47 := by
          have habsolute := h.absolute
          rwa [hdir,List.head?_append_of_ne_nil _ hfirst] at habsolute
        rw [if_neg hfirst,if_neg hfirst,fpPopulate_currentDir,named_iff]
        rw [hdir,resolve_concat hhead hbehind,Option.bind_eq_some_iff] at hresolves
        obtain ⟨outer,houter,hstep⟩ := hresolves
        rw [houter,Option.some_inj,Option.some_inj,eq_comm]
        exact DirectoryTree.dropLast_eq_iff hstep

theorem navigates_iff (h : Opened fs d place) (k : Key) : Navigates fs d k ↔ StepMeets fs d k := by
  cases k with
  | enter => exact navigates_enter_iff h
  | backspace => exact navigates_backspace_iff h
  | _ => exact Iff.rfl

/-- With its selection moved an open directory stays open. -/
theorem Opened.select (h : Opened fs d place) (n : ℕ) :
    Opened fs { d with selected := n } place := ⟨h.absolute,h.resolves,h.directory,h.read⟩

/-- A key that meets the condition opens the next directory. -/
theorem opened_press (h : Opened fs d place) {k : Key} (hk : StepMeets fs d k) :
    ∃ place', Opened fs (press fs d k) place' := by
  cases k with
  | esc => exact ⟨place,h⟩
  | other => exact ⟨place,h⟩
  | up => exact ⟨place,h.select _⟩
  | down =>
      refine ⟨place,?_⟩
      simp only [press,handleEvent]
      split_ifs
      · exact h.select _
      · exact h
  | enter =>
      cases hselected : d.entries[d.selected]? with
      | none =>
          refine ⟨place,?_⟩
          simp only [press,handleEvent,hselected]
          exact h
      | some entry =>
          obtain ⟨name,isDir⟩ := entry
          have hentry := h.entry (List.mem_of_getElem? hselected)
          simp only [StepMeets,hselected,Option.mem_def,Option.some_inj,forall_eq'] at hk
          rw [← hentry.flagged,kindAt,hentry.resolves] at hk
          simp only [press,handleEvent,hselected]
          split_ifs with hdir
          · refine ⟨entryPlace place name,opened_populate ?_ hentry.resolves (hk.1 hdir)⟩
            rw [List.head?_append,h.absolute]
            rfl
          · exact ⟨place,h⟩
  | backspace =>
      simp only [press,handleEvent]
      cases hslash : strrchr 47 d.currentDir with
      | none => exact ⟨place,h⟩
      | some parts =>
          obtain ⟨before,behind⟩ := parts
          obtain ⟨hdir,hbehind⟩ := strrchr_spec hslash
          dsimp only
          split_ifs with hfirst
          · exact ⟨place,h⟩
          · have hhead : before.head? = some 47 := by
              have habsolute := h.absolute
              rwa [hdir,List.head?_append_of_ne_nil _ hfirst] at habsolute
            have hresolves := h.resolves
            rw [hdir,resolve_concat hhead hbehind,Option.bind_eq_some_iff] at hresolves
            obtain ⟨outer,houter,hstep⟩ := hresolves
            exact ⟨outer,opened_populate hhead houter (DirectoryTree.directory_of_step hstep)⟩

theorem highlighted_press (h : Highlighted d) (k : Key) : Highlighted (press fs d k) := by
  unfold press handleEvent
  cases k with
  | esc => exact h
  | other => exact h
  | up => exact fun hentries => (Nat.sub_le _ _).trans_lt (h hentries)
  | down =>
      dsimp only
      split_ifs with hlast
      · exact fun _ => hlast
      · exact h
  | enter =>
      dsimp only
      split
      · exact h
      · split_ifs
        · exact highlighted_populate _
        · exact h
  | backspace =>
      dsimp only
      split
      · exact h
      · split_ifs
        · exact h
        · exact highlighted_populate _

/-! ## Every run -/

theorem guarded_navigates_iff {startDir filterExt : Option Bytes}
    (habsolute : (startDir.getD (bytes "/")).head? = some 47)
    (hplace : kindAt fs (startDir.getD (bytes "/")) = some .directory) (ks : List Key) :
    Guarded (press fs) (Navigates fs) (filePickerNew fs startDir filterExt) ks ↔
      Guarded (press fs) (StepMeets fs) (filePickerNew fs startDir filterExt) ks := by
  obtain ⟨place,hresolves,hkind⟩ := Option.bind_eq_some_iff.1 hplace
  have hopened : Opened fs (filePickerNew fs startDir filterExt) place :=
    opened_populate habsolute hresolves hkind
  exact guarded_congr (I := fun d => ∃ place, Opened fs d place)
    (fun _ _ ⟨_,h⟩ hk => opened_press h hk) (fun _ k ⟨_,h⟩ => navigates_iff h k) ⟨place,hopened⟩ ks

/-- From every absolute directory on, an entry is highlighted in each state of a run, and the keys
do what they should exactly when each of them meets the condition. -/
theorem navigation_iff (fs : FileSystem) (startDir filterExt : Option Bytes)
    (habsolute : (startDir.getD (bytes "/")).head? = some 47)
    (hplace : kindAt fs (startDir.getD (bytes "/")) = some .directory) (ks : List Key) :
    Always (press fs) Highlighted (filePickerNew fs startDir filterExt) ks ∧
      (Guarded (press fs) (Navigates fs) (filePickerNew fs startDir filterExt) ks ↔
        Guarded (press fs) (StepMeets fs) (filePickerNew fs startDir filterExt) ks) :=
  ⟨always_of_invariant (I := Highlighted) (fun _ k h => highlighted_press h k) _ ks
    (highlighted_populate _),guarded_navigates_iff habsolute hplace ks⟩

/-! ## A directory and a file -/

def sampleKind (place : List Bytes) : Option FileKind :=
  if place = [] ∨ place = [bytes "src"] then some .directory
  else if place = [bytes "notes"] then some .file
  else none

theorem concat_eq_singleton_iff {place : List Bytes} {name n : Bytes} :
    place++[name] = [n] ↔ place = [] ∧ name = n := by
  rw [List.append_eq_singleton_iff]
  simp

theorem sampleKind_concat_isSome_iff (place : List Bytes) (name : Bytes) :
    (sampleKind (place++[name])).isSome ↔
      place = [] ∧ (name = bytes "src" ∨ name = bytes "notes") := by
  have hroot : place++[name] ≠ [] := by simp
  rw [and_or_left,← concat_eq_singleton_iff,← concat_eq_singleton_iff]
  unfold sampleKind
  split_ifs with hdir hfile
  · exact iff_of_true rfl (Or.inl (hdir.resolve_left hroot))
  · exact iff_of_true rfl (Or.inr hfile)
  · refine iff_of_false Bool.false_ne_true ?_
    rintro (h | h)
    · exact hdir (Or.inr h)
    · exact hfile h

/-- The root of the sample has a directory without entries and a file. -/
def sample : FileSystem where
  kind := sampleKind
  root := rfl
  inside := fun place name h => by
    rw [((sampleKind_concat_isSome_iff place name).1 h).1]
    rfl
  listing := fun place =>
    [bytes ".",bytes ".."]++if place = [] then [bytes "src",bytes "notes"] else []
  pathMax := 4096
  proper := fun place name h => by
    rcases ((sampleKind_concat_isSome_iff place name).1 h).2 with rfl | rfl
    · exact ⟨⟨by decide,by decide,by decide⟩,by decide⟩
    · exact ⟨⟨by decide,by decide,by decide⟩,by decide⟩
  listed := fun place _ name => by
    rw [sampleKind_concat_isSome_iff]
    split_ifs with hplace <;> simp [hplace]

/-- Into the directory and back, and then the file is confirmed. -/
theorem picker_navigates :
    Guarded (press sample) (Navigates sample) (filePickerNew sample none none)
      [.down,.enter,.backspace,.down,.down,.enter] := by
  exact (navigation_iff sample none none rfl (by decide +kernel) _).2.2 (by decide +kernel)

/-- However many slashes, they are the root. -/
theorem resolve_slashes (n : ℕ) : resolve fs (List.replicate (n+1) 47) = some [] := by
  induction n with
  | zero =>
      rw [List.replicate_one,resolve_single List.not_mem_nil]
      exact DirectoryTree.step_of_directory fs.root .here
  | succ n ih =>
      rw [List.replicate_succ',resolve_concat rfl List.not_mem_nil,ih]
      exact DirectoryTree.step_of_directory fs.root .here

theorem kindAt_slashes (n : ℕ) : kindAt fs (List.replicate (n+1) 47) = some .directory := by
  rw [kindAt,resolve_slashes]
  exact fs.root

/-- Behind so many slashes no name is seen. -/
theorem kindAt_statPath_slashes (name : Bytes) :
    kindAt fs (statPath (List.replicate 4095 47) name) = some .directory := by
  rw [statPath,List.take_left' (List.length_replicate)]
  exact kindAt_slashes 4094

theorem filePickerNew_slashes : filePickerNew sample (some (List.replicate 4095 47)) none =
    ⟨List.replicate 4095 47,none,[(bytes "..",true),(bytes "src",true),(bytes "notes",true)],0⟩ := by
  have hopen : opendir sample (List.replicate 4095 47) = some [] := by
    rw [opendir,if_pos (by rw [List.length_replicate]; decide),resolve_slashes 4094]
    rfl
  have hread {name : Bytes} (hdot : name ≠ bytes ".") :
      readEntry sample ⟨List.replicate 4095 47,none,[],0⟩ name = some (name,true) := by
    have hshort : (statPath (List.replicate 4095 47) name).length < sample.pathMax := by
      rw [statPath,List.take_left' (List.length_replicate),List.length_replicate]
      decide
    rw [readEntry,if_neg hdot,stat,if_pos hshort,kindAt_statPath_slashes]
    rfl
  have hentries : (sample.listing []).filterMap
      (readEntry sample ⟨List.replicate 4095 47,none,[],0⟩) =
        [(bytes "..",true),(bytes "src",true),(bytes "notes",true)] := by
    change [bytes ".",bytes "..",bytes "src",bytes "notes"].filterMap _ = _
    have hdot : readEntry sample ⟨List.replicate 4095 47,none,[],0⟩ (bytes ".") = none := rfl
    rw [List.filterMap_cons_none hdot,List.filterMap_cons_some (hread (by decide)),
      List.filterMap_cons_some (hread (by decide)),List.filterMap_cons_some (hread (by decide)),
      List.filterMap_nil]
  unfold filePickerNew fpPopulate
  rw [Option.getD_some,hopen]
  dsimp only
  rw [hentries]
  rfl

/-- A directory of the root is not left, and behind two dots a way is gone back that leads
down. A file counts as a directory when its path is cut off to one. -/
theorem picker_goes_astray :
    (¬Guarded (press sample) (Navigates sample) (filePickerNew sample (some (bytes "/src")) none)
      [.backspace]) ∧
    (¬Guarded (press sample) (Navigates sample) (filePickerNew sample none none)
      [.down,.enter,.enter,.backspace]) ∧
    ¬Guarded (press sample) (Navigates sample)
      (filePickerNew sample (some (List.replicate 4095 47)) none) [.down,.down,.enter] := by
  refine ⟨?_,?_,?_⟩
  · rw [guarded_navigates_iff rfl (by decide +kernel)]
    decide +kernel
  · rw [guarded_navigates_iff rfl (by decide +kernel)]
    decide +kernel
  · rw [guarded_navigates_iff rfl (kindAt_slashes 4094),filePickerNew_slashes]
    intro h
    have hmeets : kindAt sample (List.replicate 4095 47++47::bytes "notes") = some .directory :=
      (h.2.2.1 (bytes "notes",true) rfl).1 (kindAt_statPath_slashes _)
    rw [kindAt,resolve_concat rfl (by decide),resolve_slashes 4094] at hmeets
    exact absurd hmeets (by decide +kernel)

end Filly.FilePicker

import Filly.CJson

/-!
# The commands that may run

`progress.c` looks for the file of a command, and compares where it lies with four
directories, before `execvp` looks for it again. What both ask of the file system is a
parameter: `realpath`, whose results are absolute and canonical, and what `execve` does
with a path.
-/
namespace Filly.CommandAllowList
open CJson

/-- An absolute path without empty components, as a C string. -/
structure Canonical (path : Bytes) : Prop where
  absolute : path.head? = some 47
  whole : 0 ∉ path
  proper : ¬[47,47] <:+: path
  closed : path ≠ [47] → path.getLast? ≠ some 47

/-- The outcome of `execve`: the file runs, `execvp` goes on to the next directory, or it
gives up. -/
inductive ExecResult where
  | runs | tryNext | fails
  deriving DecidableEq, Repr

structure System where
  realpath : Bytes → Option Bytes
  execve : Bytes → ExecResult
  /-- `getenv("PATH")` -/
  path : Option Bytes
  canonical : ∀ name resolved, realpath name = some resolved → Canonical resolved

/-! ## `progress_command_allowed` -/

/-- The tokens that `strtok` finds between colons: empty ones are passed over. -/
def strtok (text : Bytes) : List Bytes := (text.splitOn 58).filter (· ≠ [])

/-- `snprintf(full, PATH_MAX, "%s/%s", dir, name)` -/
def fullPath (dir name : Bytes) : Bytes := (dir++47::name).take 4095

/-- The name itself, or the first directory of `PATH` that has it. -/
def resolveCommand (sys : System) (name : Bytes) : Option Bytes :=
  (sys.realpath name).or
    (sys.path.bind fun path => (strtok path).findSome? fun dir => sys.realpath (fullPath dir name))

def allowed : List Bytes := ["/usr/bin/","/usr/sbin/","/bin/","/sbin/"].map bytes

/-- The path begins with the prefix, and a slash or the end follows. -/
def matchesPrefix (resolved dir : Bytes) : Bool :=
  dir.isPrefixOf resolved && ((resolved.drop dir.length).head?.getD 0 ∈ [47,0])

def progressCommandAllowed (sys : System) : List Bytes → Bool
  | [] => false
  | name::_ =>
      match resolveCommand sys name with
      | none => false
      | some resolved => allowed.any (matchesPrefix resolved)

/-! ## `execvp` -/

/-- The path that is tried for an element of `PATH`: an empty one is the current directory. -/
def candidate (dir name : Bytes) : Bytes := if dir = [] then name else dir++47::name

def searchPath (sys : System) (name : Bytes) : List Bytes → Option Bytes
  | [] => none
  | dir::dirs =>
      match sys.execve (candidate dir name) with
      | .runs => some (candidate dir name)
      | .tryNext => searchPath sys name dirs
      | .fails => none

/-- The file that runs. A name with a slash is not looked for in `PATH`. -/
def execvp (sys : System) : List Bytes → Option Bytes
  | [] => none
  | name::_ =>
      if name = [] then none
      else if 47 ∈ name then if sys.execve name = .runs then some name else none
      else searchPath sys name ((sys.path.getD (bytes "/bin:/usr/bin")).splitOn 58)

def allowedDirs : List Bytes := ["/usr/bin","/usr/sbin","/bin","/sbin"].map bytes

/-- The file that `execvp` runs lies in one of the four directories. -/
def RunsInside (sys : System) (cmd : List Bytes) : Prop :=
  ∃ file resolved, execvp sys cmd = some file ∧ sys.realpath file = some resolved ∧
    ∃ dir ∈ allowedDirs, dir++[47] <+: resolved

/-! ## No command is allowed -/

/-- The four prefixes end with a slash, and a canonical path has none behind it. -/
theorem matchesPrefix_canonical {resolved : Bytes} (h : Canonical resolved) (dir : Bytes)
    (hdir : dir ≠ []) : matchesPrefix resolved (dir++[47]) = false := by
  by_contra hmatch
  rw [Bool.not_eq_false,matchesPrefix,Bool.and_eq_true,List.isPrefixOf_iff_prefix] at hmatch
  obtain ⟨⟨rest,rfl⟩,hnext⟩ := hmatch
  rw [List.drop_left,decide_eq_true_iff] at hnext
  cases rest with
  | nil =>
      refine h.closed ?_ ?_
      · simpa using hdir
      · simp
  | cons c rest =>
      have hc : c = 47 ∨ c = 0 := by simpa using hnext
      rcases hc with rfl | rfl
      · exact h.proper ⟨dir,rest,by simp⟩
      · exact h.whole (by simp)

theorem allowed_eq : allowed = allowedDirs.map (·++[47]) := by decide

theorem resolveCommand_canonical {sys : System} {name resolved : Bytes}
    (h : resolveCommand sys name = some resolved) : Canonical resolved := by
  rw [resolveCommand,Option.or_eq_some_iff] at h
  rcases h with h | ⟨-,h⟩
  · exact sys.canonical _ _ h
  · obtain ⟨path,-,hfound⟩ := Option.bind_eq_some_iff.1 h
    obtain ⟨dir,-,hdir⟩ := List.exists_of_findSome?_eq_some hfound
    exact sys.canonical _ _ hdir

theorem progressCommandAllowed_eq_false (sys : System) (cmd : List Bytes) :
    progressCommandAllowed sys cmd = false := by
  cases cmd with
  | nil => rfl
  | cons name args =>
      rw [progressCommandAllowed]
      cases hresolved : resolveCommand sys name with
      | none => rfl
      | some resolved =>
          have hcanonical := resolveCommand_canonical hresolved
          dsimp only
          rw [allowed_eq,List.any_map,List.any_eq_false]
          intro dir hdir
          have hne : dir ≠ [] := by
            rintro rfl
            revert hdir
            decide
          rw [Function.comp_apply,matchesPrefix_canonical hcanonical dir hne]
          exact Bool.false_ne_true

/-- The check agrees with where the command lies as long as it lies elsewhere. -/
theorem allowed_iff_inside_iff (sys : System) (cmd : List Bytes) :
    (progressCommandAllowed sys cmd = true ↔ RunsInside sys cmd) ↔ ¬RunsInside sys cmd := by
  rw [progressCommandAllowed_eq_false,iff_false_left Bool.false_ne_true]

/-- A file system with one program. -/
def oneProgram : System where
  realpath := fun name => if name = bytes "/usr/bin/ls" then some name else none
  execve := fun name => if name = bytes "/usr/bin/ls" then .runs else .tryNext
  path := some (bytes "/usr/local/bin:/usr/bin")
  canonical := by
    intro name resolved h
    split_ifs at h with hname
    rw [Option.some_inj] at h
    rw [← h,hname]
    refine ⟨by decide,by decide,?_,by decide⟩
    decide

/-- The program lies in `/usr/bin`, and it is not allowed. -/
theorem listing_is_not_allowed :
    ¬(progressCommandAllowed oneProgram [bytes "ls"] = true ↔ RunsInside oneProgram [bytes "ls"]) := by
  intro h
  have hinside : RunsInside oneProgram [bytes "ls"] :=
    ⟨bytes "/usr/bin/ls",bytes "/usr/bin/ls",by decide +kernel,by decide,bytes "/usr/bin",
      by decide,by decide⟩
  exact absurd (h.2 hinside) (by decide +kernel)

end Filly.CommandAllowList

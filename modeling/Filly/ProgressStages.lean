import Filly.Fil
import Filly.Runs

/-!
# The stages of a running command

`progress_update` reads what the child has written, at most 4095 bytes at a time, and
looks for six markers in what it has read. The first marker of the chain that is found
tells the stage.
-/
namespace Filly.ProgressStages
open CJson Runs

structure Stage where
  marker : Bytes
  percent : ℤ
  text : Bytes
  deriving DecidableEq

/-- The chain of tests, in its order. -/
def stages : List Stage :=
  [⟨bytes "Preflight",5,bytes "Preflight complete"⟩,
   ⟨bytes "Mount",20,bytes "Storage configured"⟩,
   ⟨bytes "Base system",50,bytes "Base installed"⟩,
   ⟨bytes "Bootloader",78,bytes "Bootloader configured"⟩,
   ⟨bytes "Post-install",90,bytes "Post-install done"⟩,
   ⟨bytes "Final",100,bytes "Finalizing"⟩]

structure ProgressData where
  output : Bytes
  stage : Bytes
  progress : ℤ
  /-- `child_pid` is not 0. -/
  running : Bool
  yieldFd : ℤ
  lastYieldedProgress : ℤ
  /-- What was written to `yield_fd`. -/
  sent : List Bytes

/-- The widget when its child has been started. -/
def started (yieldFd : ℤ) : ProgressData where
  output := []
  stage := bytes "Starting..."
  progress := 0
  running := true
  yieldFd := yieldFd
  lastYieldedProgress := -1
  sent := []

def yieldLine (d : ProgressData) : Bytes :=
  bytes "\x7b\"type\":\"yield\",\"progress\":"++Fil.intText d.progress++bytes ",\"stage\":\""++
    d.stage++bytes "\"\x7d\n"

def progressSendYield (d : ProgressData) : ProgressData :=
  if d.yieldFd < 0 then d
  else if d.progress = d.lastYieldedProgress ∧ d.progress ≠ 100 then d
  else { d with lastYieldedProgress := d.progress, sent := d.sent++[yieldLine d] }

/-- The first marker of the chain that `strstr` finds. -/
def stageOf (text : Bytes) : Option Stage := stages.find? fun s => s.marker <:+: text

def enterStage (d : ProgressData) : Option Stage → ProgressData
  | none => d
  | some s => { d with progress := s.percent, stage := s.text }

/-- A read without bytes is one that failed. -/
def progressRead (d : ProgressData) (read : Bytes) : ProgressData :=
  if read = [] then d
  else
    let text := read.takeWhile (· ≠ 0)
    progressSendYield (enterStage { d with output := d.output++text } (stageOf text))

def progressUpdate (d : ProgressData) (read : Bytes) (exited : Bool) : ProgressData :=
  if d.running then
    let d := progressRead d read
    if exited then
      progressSendYield { d with progress := 100, stage := bytes "Complete", running := false }
    else d
  else d

/-- An update while the child runs. -/
def step (d : ProgressData) (read : Bytes) : ProgressData := progressUpdate d read false

/-! ## What is recorded -/

/-- A way of cutting an output into reads. -/
structure Cut (out : Bytes) (reads : List Bytes) : Prop where
  joined : reads.flatten = out
  sized : ∀ read ∈ reads, read ≠ [] ∧ read.length ≤ 4095

def recorded (d : ProgressData) : Bytes × ℤ := (d.stage,d.progress)

/-- All ways of cutting the output come to the same stage and percentage. -/
def Independent (yieldFd : ℤ) (out : Bytes) : Prop :=
  ∀ reads reads', Cut out reads → Cut out reads' →
    recorded (run step (started yieldFd) reads) = recorded (run step (started yieldFd) reads')

/-- A marker stands before those of later stages only. -/
def Ordered (out : Bytes) : Prop :=
  ∀ s ∈ stages, ∀ t ∈ stages, ∀ p q, s.marker <+: out.drop p → t.marker <+: out.drop q → p < q →
    s.percent ≤ t.percent

/-- With the markers in order no read takes the percentage back. -/
def NeverBack (yieldFd : ℤ) (out : Bytes) : Prop :=
  Ordered out → ∀ reads, Cut out reads → ∀ k,
    (run step (started yieldFd) (reads.take k)).progress ≤
      (run step (started yieldFd) (reads.take (k+1))).progress

theorem progressSendYield_recorded (d : ProgressData) :
    recorded (progressSendYield d) = recorded d := by
  unfold progressSendYield
  split_ifs <;> rfl

theorem progressSendYield_running (d : ProgressData) :
    (progressSendYield d).running = d.running := by
  unfold progressSendYield
  split_ifs <;> rfl

theorem step_running {d : ProgressData} (h : d.running = true) (read : Bytes) :
    (step d read).running = true := by
  unfold step progressUpdate progressRead
  rw [if_pos h]
  simp only [Bool.false_eq_true,if_false]
  split_ifs
  · exact h
  · rw [progressSendYield_running]
    cases stageOf (read.takeWhile (· ≠ 0)) <;> exact h

/-- What one read records. -/
theorem step_recorded {d : ProgressData} (h : d.running = true) {read : Bytes} (hread : 0 ∉ read) :
    recorded (step d read) =
      ((stageOf read).map fun s => (s.text,s.percent)).getD (recorded d) := by
  have hwhole : read.takeWhile (· ≠ 0) = read := by
    rw [List.takeWhile_eq_self_iff]
    intro c hc
    simpa using fun h0 : c = 0 => hread (h0 ▸ hc)
  unfold step progressUpdate progressRead
  rw [if_pos h,hwhole]
  simp only [Bool.false_eq_true,if_false]
  split_ifs with hnil
  · rw [hnil]
    rfl
  · rw [progressSendYield_recorded]
    cases stageOf read <;> rfl

theorem stageOf_singleton (c : UInt8) : stageOf [c] = none := by
  rw [stageOf,List.find?_eq_none]
  intro s hs h
  have hlength := (of_decide_eq_true h).length_le
  have hmarker : ∀ s ∈ stages, 1 < s.marker.length := by decide
  exact absurd hlength (Nat.not_le.2 (hmarker s hs))

theorem stageOf_eq_some {text : Bytes} {s : Stage} (h : stageOf text = some s) :
    s ∈ stages ∧ s.marker <:+: text :=
  ⟨List.mem_of_find?_eq_some h,by simpa using List.find?_some h⟩

theorem run_running {d : ProgressData} (h : d.running = true) (reads : List Bytes) :
    (run step d reads).running = true := by
  induction reads generalizing d with
  | nil => exact h
  | cons read reads ih => exact ih (step_running h read)

theorem run_append (d : ProgressData) (reads reads' : List Bytes) :
    run step d (reads++reads') = run step (run step d reads) reads' := List.foldl_append

/-- What is recorded in the end comes from the start or from a marker in one read. -/
theorem run_recorded {d : ProgressData} (h : d.running = true) {reads : List Bytes}
    (hreads : ∀ read ∈ reads, 0 ∉ read) :
    recorded (run step d reads) = recorded d ∨
      ∃ s ∈ stages, recorded (run step d reads) = (s.text,s.percent) ∧
        s.marker <:+: reads.flatten := by
  induction reads generalizing d with
  | nil => exact Or.inl rfl
  | cons read reads ih =>
      rw [List.forall_mem_cons] at hreads
      have hnext := ih (step_running h read) hreads.2
      rw [step_recorded h hreads.1] at hnext
      rw [List.flatten_cons]
      rcases hnext with hsame | ⟨s,hs,hrec,hmarker⟩
      · cases hstage : stageOf read with
        | none =>
            rw [hstage] at hsame
            exact Or.inl hsame
        | some s =>
            obtain ⟨hs,hmarker⟩ := stageOf_eq_some hstage
            rw [hstage] at hsame
            exact Or.inr ⟨s,hs,hsame,hmarker.trans (List.prefix_append _ _).isInfix⟩
      · exact Or.inr ⟨s,hs,hrec,hmarker.trans (List.suffix_append _ _).isInfix⟩

/-- Single bytes show no marker. -/
theorem run_singletons {d : ProgressData} (h : d.running = true) {text : Bytes}
    (htext : 0 ∉ text) : recorded (run step d (text.map ([·]))) = recorded d := by
  induction text generalizing d with
  | nil => rfl
  | cons c text ih =>
      rw [List.mem_cons,not_or] at htext
      have hstep := @step_recorded d h [c] (by simpa using htext.1)
      rw [stageOf_singleton] at hstep
      exact (ih (step_running h [c]) htext.2).trans hstep

theorem cut_singletons (text : Bytes) : Cut text (text.map ([·])) := by
  constructor
  · rw [← List.flatMap_def,List.flatMap_singleton']
  · intro read hread
    obtain ⟨c,-,rfl⟩ := List.mem_map.1 hread
    exact ⟨List.cons_ne_nil _ _,by simp⟩

/-- A read of a marker alone is enough to record a stage. -/
theorem not_independent {yieldFd : ℤ} {out : Bytes} (hout : 0 ∉ out) {s : Stage} (hs : s ∈ stages)
    (hmarker : s.marker <:+: out) : ¬Independent yieldFd out := by
  obtain ⟨before,after,rfl⟩ := hmarker
  simp only [List.mem_append,not_or] at hout
  have hsize : ∀ s ∈ stages, s.marker ≠ [] ∧ s.marker.length ≤ 4095 := by decide
  have hstage : ∀ s ∈ stages, ∃ t, stageOf s.marker = some t ∧ t.percent ≠ 0 := by
    have : ∀ s ∈ stages, ((stageOf s.marker).map Stage.percent).getD 0 ≠ 0 := by decide
    intro s hs
    have h := this s hs
    cases ht : stageOf s.marker with
    | none => rw [ht] at h; exact absurd rfl h
    | some t => rw [ht] at h; exact ⟨t,rfl,h⟩
  intro h
  have hcut : Cut (before++s.marker++after)
      (before.map ([·])++s.marker::after.map ([·])) := by
    constructor
    · rw [List.flatten_append,List.flatten_cons,(cut_singletons before).joined,
        (cut_singletons after).joined,List.append_assoc]
    · intro read hread
      rw [List.mem_append,List.mem_cons] at hread
      rcases hread with hread | rfl | hread
      · exact (cut_singletons before).sized read hread
      · exact hsize s hs
      · exact (cut_singletons after).sized read hread
  have hsame := h _ _ hcut (cut_singletons _)
  have hstarted : (started yieldFd).running = true := rfl
  rw [run_singletons hstarted (by simp only [List.mem_append,not_or]; exact hout),
    run_append] at hsame
  have hbefore := run_running hstarted (before.map ([·]))
  have hafter := run_singletons (step_running hbefore s.marker) hout.2
  rw [step_recorded hbefore hout.1.2] at hafter
  obtain ⟨t,ht,hne⟩ := hstage s hs
  rw [ht] at hafter
  exact hne (congrArg Prod.snd (hafter.symm.trans hsame))

/-- Without a marker nothing is recorded. -/
theorem independent_of_no_marker {yieldFd : ℤ} {out : Bytes} (hout : 0 ∉ out)
    (h : ∀ s ∈ stages, ¬s.marker <:+: out) : Independent yieldFd out := by
  have hstart : ∀ reads, Cut out reads →
      recorded (run step (started yieldFd) reads) = recorded (started yieldFd) := by
    rintro reads ⟨rfl,-⟩
    have hreads : ∀ read ∈ reads, 0 ∉ read :=
      fun read hread hmem => hout (List.mem_flatten.2 ⟨read,hread,hmem⟩)
    rcases run_recorded (show (started yieldFd).running = true from rfl) hreads with
      hsame | ⟨s,hs,-,hmarker⟩
    · exact hsame
    · exact absurd hmarker (h s hs)
  intro reads reads' hcut hcut'
  rw [hstart reads hcut,hstart reads' hcut']

/-! ## The percentage never goes back -/

/-- Two markers, one behind the other. -/
theorem percent_le {first second : Bytes} {s t : Stage} (hs : s ∈ stages) (ht : t ∈ stages)
    (hfirst : s.marker <:+: first) (hsecond : t.marker <:+: second) {rest : Bytes}
    (hordered : Ordered (first++second++rest)) : s.percent ≤ t.percent := by
  have hpos : ∀ s ∈ stages, 0 < s.marker.length := by decide
  obtain ⟨a,b,rfl⟩ := hfirst
  obtain ⟨c,e,rfl⟩ := hsecond
  refine hordered s hs t ht a.length (a++s.marker++b++c).length ?_ ?_ ?_
  · refine ⟨b++(c++t.marker++e)++rest,?_⟩
    simp [List.append_assoc]
  · refine ⟨e++rest,?_⟩
    rw [show a++s.marker++b++(c++t.marker++e)++rest =
      (a++s.marker++b++c)++(t.marker++(e++rest)) by simp [List.append_assoc],List.drop_left]
  · have := hpos s hs
    simp only [List.length_append]
    omega

theorem neverBack {yieldFd : ℤ} {out : Bytes} (hout : 0 ∉ out) : NeverBack yieldFd out := by
  rintro hordered reads ⟨rfl,-⟩ k
  have hreads : ∀ read ∈ reads, 0 ∉ read :=
    fun read hread hmem => hout (List.mem_flatten.2 ⟨read,hread,hmem⟩)
  rcases Nat.lt_or_ge k reads.length with hk | hk
  · have htake : ∀ read ∈ reads.take k, 0 ∉ read :=
      fun read hread => hreads read (List.mem_of_mem_take hread)
    have hrunning := run_running (show (started yieldFd).running = true from rfl) (reads.take k)
    have hstep := step_recorded hrunning (hreads _ (List.getElem_mem hk))
    rw [List.take_succ_eq_append_getElem hk,run_append]
    change _ ≤ (step (run step (started yieldFd) (reads.take k)) reads[k]).progress
    cases hstage : stageOf reads[k] with
    | none =>
        rw [hstage] at hstep
        exact (congrArg Prod.snd hstep).ge
    | some t =>
        rw [hstage] at hstep
        rw [show (step (run step (started yieldFd) (reads.take k)) reads[k]).progress = t.percent
          from congrArg Prod.snd hstep]
        obtain ⟨ht,hmarker⟩ := stageOf_eq_some hstage
        rcases run_recorded (show (started yieldFd).running = true from rfl) htake with
          hsame | ⟨s,hs,hrec,hseen⟩
        · have hnonneg : ∀ s ∈ stages, 0 ≤ s.percent := by decide
          exact (congrArg Prod.snd hsame).le.trans (hnonneg t ht)
        · refine (congrArg Prod.snd hrec).le.trans ?_
          refine @percent_le _ _ s t hs ht hseen hmarker (reads.drop (k+1)).flatten ?_
          rw [List.append_assoc,← List.flatten_cons,List.getElem_cons_drop,
            ← List.flatten_append,List.take_append_drop]
          exact hordered
  · rw [List.take_of_length_le hk,List.take_of_length_le (hk.trans (Nat.le_succ k))]

/-- The reports do not depend on the reads exactly for an output without markers. That the
percentage never goes back holds of every output. -/
theorem reports_iff (yieldFd : ℤ) (out : Bytes) (hout : 0 ∉ out) :
    Independent yieldFd out ∧ NeverBack yieldFd out ↔ ∀ s ∈ stages, ¬s.marker <:+: out := by
  rw [and_iff_left (neverBack hout)]
  constructor
  · exact fun h s hs hmarker => not_independent hout hs hmarker h
  · exact independent_of_no_marker hout

theorem dots_are_reported_alike :
    Independent (-1) (bytes "...") ∧ NeverBack (-1) (bytes "...") :=
  (reports_iff (-1) (bytes "...") (by decide)).2 (by decide +kernel)

/-- Two markers in one read are reported as the first, in two reads as the second. -/
theorem one_read_hides_a_stage :
    ¬(Independent (-1) (bytes "Preflight Mount") ∧ NeverBack (-1) (bytes "Preflight Mount")) := by
  intro h
  have hsame := h.1 [bytes "Preflight Mount"] [bytes "Preflight",bytes " Mount"]
    ⟨by decide,by decide⟩ ⟨by decide,by decide⟩
  exact absurd hsame (by decide +kernel)

end Filly.ProgressStages

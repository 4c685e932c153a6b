import Filly.Checkpoint
import Filly.Runs

/-!
# The table of sessions

A session is added by each connection and by each `session create` message. Its
id is made of the clock second and the thread identity, and nothing compares it
with the ids already in the table. Sessions are saved from time to time and come
back at the next start of the daemon.
-/
namespace Filly.Daemon
open CJson SessionStore Numerals Runs

/-- `snprintf(s->id, sizeof(s->id), "%lx%lx", time, thread)`. -/
def sessionId (time thread : UInt64) : Bytes := numeral 16 time.toNat++numeral 16 thread.toNat

theorem digitByte_clean {d : ℕ} (h : d < 16) : cleanByte (digitByte d) = true := by
  interval_cases d <;> decide

theorem sessionId_clean (time thread : UInt64) : Clean (sessionId time thread) := by
  intro b hb
  obtain hb | hb := List.mem_append.mp hb
  · obtain ⟨d,hd,rfl⟩ := mem_numeral (by norm_num) hb
    exact digitByte_clean hd
  · obtain ⟨d,hd,rfl⟩ := mem_numeral (by norm_num) hb
    exact digitByte_clean hd

theorem sessionId_length (time thread : UInt64) : (sessionId time thread).length ≤ 63 := by
  have h : ∀ n : UInt64, (numeral 16 n.toNat).length ≤ 16 := fun n =>
    length_numeral_le (by norm_num) (by norm_num) (lt_of_lt_of_le n.toNat_lt (by norm_num))
  have h₁ := h time
  have h₂ := h thread
  rw [sessionId,List.length_append]
  omega

/-- `a[0] = '\0'`; the other characters keep what memory held. -/
def CharArray.cut {n : ℕ} (a : CharArray n) : CharArray n :=
  ⟨a.1.set 0 0,by rw [List.length_set,a.2]⟩

/-- A new session; the memory comes from `realloc`. -/
def newSession (time thread : UInt64) (anchor : CharArray 32) (relativeTo : CharArray 64) :
    Session where
  id := sessionId time thread
  store := storeNew
  active := true
  widgetPositionX := -1
  widgetPositionY := -1
  widgetAnchor := anchor.cut
  widgetRelativeTo := relativeTo.cut
  widgetZIndex := 0
  id_length := sessionId_length time thread
  id_nul := (sessionId_clean time thread).nul_notMem

def sessionCreate (sessions : List Session) (time thread : UInt64) (anchor : CharArray 32)
    (relativeTo : CharArray 64) : List Session :=
  sessions++[newSession time thread anchor relativeTo]

/-- The place of the session in the table. -/
def sessionFind (sessions : List Session) (id : Bytes) : Option ℕ :=
  sessions.findIdx? fun s => s.id = id && s.active

/-! ## Runs of the daemon -/

structure TableState where
  sessions : List Session
  file : Option Bytes

inductive TableEvent where
  | create (time thread : UInt64) (anchor : CharArray 32) (relativeTo : CharArray 64)
  /-- Messages change the store and the position of a session. -/
  | change (i : ℕ) (store : Store) (x y z : ℤ) (anchor : CharArray 32) (relativeTo : CharArray 64)
  | save
  | restart

def changeSession (store : Store) (x y z : ℤ) (anchor : CharArray 32) (relativeTo : CharArray 64)
    (s : Session) : Session :=
  { s with store := store, widgetPositionX := x, widgetPositionY := y, widgetAnchor := anchor,
           widgetRelativeTo := relativeTo, widgetZIndex := z }

/-- A text that could not be printed is written by `fprintf` as `(null)`. -/
def savedFile (sessions : List Session) : Bytes :=
  (checkpointSave sessions).getD (bytes "(null)\n")

/-- The file is unlinked when it is read. -/
def tableStep (s : TableState) : TableEvent → TableState
  | .create time thread anchor relativeTo =>
      { s with sessions := sessionCreate s.sessions time thread anchor relativeTo }
  | .change i store x y z anchor relativeTo =>
      { s with sessions := s.sessions.modify i (changeSession store x y z anchor relativeTo) }
  | .save => { s with file := some (savedFile s.sessions) }
  | .restart => ⟨(s.file.map checkpointRestore).getD [],none⟩

/-- The daemon before its first start. -/
def tableStart : TableState := ⟨[],none⟩

/-! ## Identity -/

def activeIds (sessions : List Session) : List Bytes :=
  (sessions.filter Session.active).map Session.id

/-- No two active sessions share an id, and looking an id up gives the session
that has it. -/
def Identified (sessions : List Session) : Prop :=
  (activeIds sessions).Nodup ∧
    ∀ i s, sessions[i]? = some s → s.active → sessionFind sessions s.id = some i

theorem sessionFind_of_nodup {sessions : List Session} (h : (activeIds sessions).Nodup) {i : ℕ}
    {s : Session} (hi : sessions[i]? = some s) (ha : s.active) :
    sessionFind sessions s.id = some i := by
  induction sessions generalizing i with
  | nil => cases hi
  | cons t sessions ih =>
      unfold sessionFind
      rw [List.findIdx?_cons]
      cases i with
      | zero =>
          cases hi
          simp [ha]
      | succ i =>
          rw [List.getElem?_cons_succ] at hi
          have hrest : (activeIds sessions).Nodup :=
            h.sublist (((List.sublist_cons_self t sessions).filter _).map _)
          have hne : (t.id = s.id && t.active) = false := by
            by_contra hn
            simp only [Bool.not_eq_false,Bool.and_eq_true,decide_eq_true_eq] at hn
            have hmem : s.id ∈ activeIds sessions :=
              List.mem_map_of_mem (List.mem_filter.mpr ⟨List.mem_of_getElem? hi,ha⟩)
            rw [activeIds,List.filter_cons_of_pos hn.2,List.map_cons,List.nodup_cons,hn.1] at h
            exact h.1 hmem
          have hfind : sessions.findIdx? (fun u => u.id = s.id && u.active) = some i := ih hrest hi
          simp only [hne,hfind,Bool.false_eq_true,if_false,Option.map_some]

theorem identified_iff (sessions : List Session) :
    Identified sessions ↔ (activeIds sessions).Nodup :=
  ⟨fun h => h.1,fun h => ⟨h,fun _ _ hi ha => sessionFind_of_nodup h hi ha⟩⟩

/-! ## What a step does to the ids -/

theorem activeIds_create (sessions : List Session) (time thread : UInt64) (anchor : CharArray 32)
    (relativeTo : CharArray 64) :
    activeIds (sessionCreate sessions time thread anchor relativeTo) =
      activeIds sessions++[sessionId time thread] := by
  simp [activeIds,sessionCreate,newSession]

theorem map_modify {α β : Type} {f : α → α} {g : α → β} (h : ∀ a, g (f a) = g a) (l : List α)
    (i : ℕ) : (l.modify i f).map g = l.map g := by
  induction l generalizing i with
  | nil => cases i <;> rfl
  | cons a l ih =>
      cases i with
      | zero => rw [List.modify_zero_cons,List.map_cons,List.map_cons,h]
      | succ i => rw [List.modify_succ_cons,List.map_cons,List.map_cons,ih]

theorem activeIds_eq (sessions : List Session) : activeIds sessions =
    ((sessions.map fun s => (s.active,s.id)).filter Prod.fst).map Prod.snd := by
  rw [List.filter_map,List.map_map]
  rfl

theorem activeIds_change (sessions : List Session) (i : ℕ) (store : Store) (x y z : ℤ)
    (anchor : CharArray 32) (relativeTo : CharArray 64) :
    activeIds (sessions.modify i (changeSession store x y z anchor relativeTo)) =
      activeIds sessions := by
  have h := map_modify (f := changeSession store x y z anchor relativeTo)
    (g := fun s => (s.active,s.id)) (fun _ => rfl) sessions i
  rw [activeIds_eq,activeIds_eq,h]

theorem rebuilt_id {s : Session} {r : Bytes × List (Bytes × Bytes)} (hclean : Clean s.id)
    (h : readSession s = some r) : (rebuilt r).id = s.id := by
  obtain ⟨i,hi,h⟩ := Option.bind_eq_some_iff.mp h
  obtain ⟨es,-,rfl⟩ := Option.map_eq_some_iff.mp h
  rw [readString_clean hclean,Option.some_inj] at hi
  subst hi
  exact (restores_rebuilt s).2.1

theorem restore_active {file : Bytes} {s : Session} (h : s ∈ checkpointRestore file) :
    s.active = true := by
  unfold checkpointRestore at h
  split at h
  · cases h
  · split at h
    · obtain ⟨obj,-,hobj⟩ := List.mem_filterMap.mp h
      unfold restoreSession at hobj
      split at hobj
      · cases hobj
      · cases hobj
        rfl
    · cases h

theorem activeIds_of_active {sessions : List Session} (h : ∀ s ∈ sessions, s.active = true) :
    activeIds sessions = sessions.map Session.id := by
  rw [activeIds,List.filter_eq_self.mpr h]

theorem rebuilt_ids {ss : List Session} {rs : List (Bytes × List (Bytes × Bytes))}
    (hclean : ∀ s ∈ ss, Clean s.id) (h : readSessions ss = some rs) :
    (rs.map rebuilt).map Session.id = ss.map Session.id := by
  have hpairs := (List.forall₂_and_left ss rs).mpr ⟨hclean,forall₂_readSessions h⟩
  have heq : List.Forall₂ (· = ·) (ss.map Session.id) ((rs.map rebuilt).map Session.id) := by
    rw [List.map_map,List.forall₂_map_left_iff,List.forall₂_map_right_iff]
    exact hpairs.imp fun s r hr => (rebuilt_id hr.1 hr.2).symm
  rw [List.forall₂_eq_eq_eq] at heq
  exact heq.symm

/-- Ids made by the daemon survive a checkpoint, if it is readable at all. -/
theorem activeIds_restore (sessions : List Session) (hclean : ∀ s ∈ sessions, Clean s.id) :
    activeIds (checkpointRestore (savedFile sessions)) = activeIds sessions ∨
      activeIds (checkpointRestore (savedFile sessions)) = [] := by
  unfold savedFile
  cases hsave : checkpointSave sessions with
  | none =>
      apply Or.inr
      have hnone : cJSONParse ((bytes "(null)\n").takeWhile (· ≠ 0)) = none :=
        Option.isNone_iff_eq_none.mp (by decide)
      rw [Option.getD_none,checkpointRestore,hnone]
      rfl
  | some file =>
      obtain ⟨text,htext,rfl⟩ := Option.map_eq_some_iff.mp hsave
      rw [Option.getD_some,activeIds_of_active fun _ => restore_active,
        cJSONPrintUnformatted_text htext,checkpointRestore_text]
      cases hread : readSessions (sessions.filter Session.active) with
      | none => exact Or.inr rfl
      | some rs =>
          apply Or.inl
          exact rebuilt_ids (fun s hs => hclean s (List.mem_filter.mp hs).1) hread

/-! ## Runs -/

/-- What every reachable state keeps, its checkpoint included. -/
structure TableState.Sound (s : TableState) : Prop where
  nodup : (activeIds s.sessions).Nodup
  clean : ∀ t ∈ s.sessions, Clean t.id
  file : ∀ f, s.file = some f → (activeIds (checkpointRestore f)).Nodup ∧
    ∀ t ∈ checkpointRestore f, Clean t.id

/-- A new id is not the id of an active session. -/
def FreshId (s : TableState) : TableEvent → Prop
  | .create time thread _ _ => sessionId time thread ∉ activeIds s.sessions
  | _ => True

theorem sound_start : tableStart.Sound where
  nodup := List.nodup_nil
  clean := fun _ h => by cases h
  file := fun _ h => by cases h

theorem sound_save {s : TableState} (h : s.Sound) : (tableStep s .save).Sound := by
  refine ⟨h.nodup,h.clean,fun f hf => ?_⟩
  obtain rfl : savedFile s.sessions = f := Option.some_inj.mp hf
  have hids := activeIds_restore s.sessions h.clean
  constructor
  · obtain hids | hids := hids
    · rw [hids]
      exact h.nodup
    · rw [hids]
      exact List.nodup_nil
  · intro t ht
    have hmem : t.id ∈ activeIds (checkpointRestore (savedFile s.sessions)) :=
      List.mem_map_of_mem (List.mem_filter.mpr ⟨ht,restore_active ht⟩)
    obtain hids | hids := hids
    · rw [hids] at hmem
      obtain ⟨u,hu,hid⟩ := List.mem_map.mp hmem
      exact hid ▸ h.clean u (List.mem_filter.mp hu).1
    · rw [hids] at hmem
      cases hmem

theorem sound_step (s : TableState) (e : TableEvent) (h : s.Sound) (hfresh : FreshId s e) :
    (tableStep s e).Sound := by
  cases e with
  | create time thread anchor relativeTo =>
      refine ⟨?_,?_,h.file⟩
      · rw [tableStep,activeIds_create]
        exact h.nodup.append (List.nodup_singleton _) (List.disjoint_singleton.mpr hfresh)
      · intro t ht
        obtain ht | ht := List.mem_append.mp ht
        · exact h.clean t ht
        · rw [List.mem_singleton.mp ht]
          exact sessionId_clean time thread
  | change i store x y z anchor relativeTo =>
      refine ⟨?_,?_,h.file⟩
      · rw [tableStep,activeIds_change]
        exact h.nodup
      · intro t ht
        have hids := map_modify (f := changeSession store x y z anchor relativeTo)
          (g := Session.id) (fun _ => rfl) s.sessions i
        obtain ⟨u,hu,hid⟩ := List.mem_map.mp (hids ▸ List.mem_map_of_mem (f := Session.id) ht)
        exact hid ▸ h.clean u hu
  | save => exact sound_save h
  | restart =>
      cases hf : s.file with
      | none =>
          rw [tableStep,hf]
          exact sound_start
      | some f =>
          rw [tableStep,hf]
          exact ⟨(h.file f hf).1,(h.file f hf).2,fun _ hn => by cases hn⟩

/-- Sessions can be told apart along a run exactly when every new id is fresh. -/
theorem identified_iff_freshId (es : List TableEvent) :
    Always tableStep (fun s => Identified s.sessions) tableStart es ↔
      Guarded tableStep FreshId tableStart es := by
  constructor
  · apply Always.guarded
    intro s e _ h
    cases e with
    | create time thread anchor relativeTo =>
        have hnodup := h.1
        rw [tableStep,activeIds_create,List.nodup_append] at hnodup
        exact fun hm => hnodup.2.2 _ hm _ (List.mem_singleton_self _) rfl
    | _ => trivial
  · intro h
    exact (h.always sound_step sound_start).imp fun s hs => (identified_iff s.sessions).mpr hs.nodup

/-- A thread that creates two sessions within one second. -/
def sameSecond : List TableEvent :=
  [.create 1700000000 140245718640320 (.zeros 32) (.zeros 64),
    .create 1700000000 140245718640320 (.zeros 32) (.zeros 64)]

/-- The two sessions have one id, and looking it up gives the first of them. -/
theorem sessions_of_one_second :
    ¬Always tableStep (fun s => Identified s.sessions) tableStart sameSecond ∧
      (run tableStep tableStart sameSecond).sessions.map Session.id =
        [bytes "6553f1007f8d803da6c0",bytes "6553f1007f8d803da6c0"] ∧
      sessionFind (run tableStep tableStart sameSecond).sessions (bytes "6553f1007f8d803da6c0") =
        some 0 := by
  refine ⟨fun h => ?_,by decide +kernel,by decide +kernel⟩
  exact absurd h.finish.1 (by decide +kernel)

end Filly.Daemon

import Filly.Requests
import Filly.SessionTable

/-!
# Concurrent connections

Each connection has a thread of its own, which takes the encoding and the
streaming flag from the handshake and the store from its session. All three are
kept in variables of the process. A thread writes them one after the other at
its start and reads them when it draws, validates and responds, so the steps of
other threads may come between.
-/
namespace Filly.Daemon
open CJson Protocol Runs

/-! ## The handshake -/

structure Negotiated where
  msgpack : Bool
  streaming : Bool
  deriving DecidableEq, Repr

def hasString (j : Json) (name text : Bytes) : Bool :=
  stringField j name = some text

/-- The line is a C string, which ends at its first NUL. -/
def negotiate (line : Bytes) : Negotiated :=
  match cJSONParse (line.takeWhile (· ≠ 0)) with
  | none => ⟨false,false⟩
  | some first =>
      if hasString first (bytes "type") (bytes "handshake") then
        ⟨hasString first (bytes "encoding") (bytes "msgpack"),
          ((first.getObjectItem (bytes "capabilities")).elim [] Json.children).any
            fun cap => cap.valuestring = some (bytes "streaming")⟩
      else ⟨false,false⟩

/-! ## Threads and shared variables -/

structure Globals where
  useMsgpack : Bool
  sessionUseStreaming : Bool
  /-- The session whose store is the active one. -/
  gActiveStore : Option ℕ
  deriving DecidableEq, Repr

inductive Write where
  | encoding (b : Bool)
  | streaming (b : Bool)
  | store (session : ℕ)
  deriving DecidableEq, Repr

def Globals.write (g : Globals) : Write → Globals
  | .encoding b => { g with useMsgpack := b }
  | .streaming b => { g with sessionUseStreaming := b }
  | .store i => { g with gActiveStore := some i }

/-- How far `handle_client` has come. -/
inductive Phase where
  | accepted
  | encodingCleared
  | streamingCleared
  | encodingChosen
  | negotiated
  | bound
  | closed
  deriving DecidableEq, Repr

structure Connection where
  own : Negotiated
  session : Option ℕ
  phase : Phase
  deriving DecidableEq, Repr

/-- The next statement before the session is made. -/
def Connection.next (c : Connection) : Option Write × Phase :=
  match c.phase with
  | .accepted => (some (.encoding false),.encodingCleared)
  | .encodingCleared => (some (.streaming false),.streamingCleared)
  | .streamingCleared => (if c.own.msgpack then some (.encoding true) else none,.encodingChosen)
  | .encodingChosen => (if c.own.streaming then some (.streaming true) else none,.negotiated)
  | p => (none,p)

/-- What a thread finds in a shared variable. -/
inductive Use where
  | respond (msgpack : Bool)
  | draw (streaming : Bool)
  | validate (store : Option ℕ)
  deriving DecidableEq, Repr

structure World where
  globals : Globals
  sessions : List Session
  connections : List Connection
  uses : List (ℕ × Use)

inductive ThreadEvent where
  /-- The first line of a new connection has been read. -/
  | accept (line : Bytes)
  | advance (c : ℕ)
  /-- A session is created, or the one that the request names is found, and its
  store becomes the active one. -/
  | bind (c : ℕ) (time thread : UInt64) (anchor : CharArray 32) (relativeTo : CharArray 64)
      (sessionId : Option Bytes)
  /-- A `session create` message. -/
  | create (time thread : UInt64) (anchor : CharArray 32) (relativeTo : CharArray 64)
  | respond (c : ℕ)
  | draw (c : ℕ)
  | validate (c : ℕ)
  | close (c : ℕ)

/-- The session of a request, after the table has grown. -/
def boundSession (created : List Session) (sessionId : Option Bytes) : ℕ :=
  (sessionId.bind (sessionFind created)).getD (created.length-1)

/-- A thread reads a variable while it runs the widget of its connection. -/
def World.use (w : World) (c : ℕ) (u : Use) : World :=
  match w.connections[c]? with
  | none => w
  | some d => if d.phase = .bound then { w with uses := w.uses++[(c,u)] } else w

def Globals.writeOption (g : Globals) : Option Write → Globals
  | none => g
  | some u => g.write u

/-- One statement of one thread. A thread that is not at such a statement, or does
not exist, does nothing. -/
def threadStep (w : World) : ThreadEvent → World
  | .accept line => { w with connections := w.connections++[⟨negotiate line,none,.accepted⟩] }
  | .advance c =>
      match w.connections[c]? with
      | none => w
      | some d =>
          { w with globals := w.globals.writeOption d.next.1
                   connections := w.connections.set c { d with phase := d.next.2 } }
  | .bind c time thread anchor relativeTo id =>
      match w.connections[c]? with
      | none => w
      | some d =>
          if d.phase = .negotiated then
            let created := sessionCreate w.sessions time thread anchor relativeTo
            { w with globals := w.globals.write (.store (boundSession created id))
                     sessions := created
                     connections := w.connections.set c
                       { d with session := some (boundSession created id), phase := .bound } }
          else w
  | .create time thread anchor relativeTo =>
      { w with sessions := sessionCreate w.sessions time thread anchor relativeTo }
  | .respond c => w.use c (.respond w.globals.useMsgpack)
  | .draw c => w.use c (.draw w.globals.sessionUseStreaming)
  | .validate c => w.use c (.validate w.globals.gActiveStore)
  | .close c =>
      match w.connections[c]? with
      | none => w
      | some d => { w with connections := w.connections.set c { d with phase := .closed } }

/-- The daemon when it starts to accept connections. -/
def threadStart (sessions : List Session) : World := ⟨⟨false,false,none⟩,sessions,[],[]⟩

/-! ## Isolation -/

/-- A use is the one the connection negotiated or owns. -/
def Use.Own (d : Connection) : Use → Prop
  | .respond b => b = d.own.msgpack
  | .draw b => b = d.own.streaming
  | .validate s => s = d.session

def Isolated (w : World) : Prop :=
  ∀ c u d, (c,u) ∈ w.uses → w.connections[c]? = some d → u.Own d

/-! ## What a thread relies on -/

/-- The encoding a thread in progress has written for the last time. -/
def Connection.encoding (d : Connection) : Option Bool :=
  match d.phase with
  | .accepted | .closed => none
  | .encodingCleared | .streamingCleared => if d.own.msgpack then none else some false
  | .encodingChosen | .negotiated | .bound => some d.own.msgpack

def Connection.streaming (d : Connection) : Option Bool :=
  match d.phase with
  | .accepted | .encodingCleared | .closed => none
  | .streamingCleared | .encodingChosen => if d.own.streaming then none else some false
  | .negotiated | .bound => some d.own.streaming

/-- The assignment does not change a value that the thread relies on. -/
def Connection.Accepts (d : Connection) : Write → Prop
  | .encoding b => ∀ v ∈ d.encoding, b = v
  | .streaming b => ∀ v ∈ d.streaming, b = v
  | .store i => d.phase = .bound → some i = d.session

/-- The assignment to a shared variable that an event makes. -/
def World.write (w : World) : ThreadEvent → Option (ℕ × Write)
  | .advance c => (w.connections[c]?).bind fun d => d.next.1.map fun u => (c,u)
  | .bind c time thread anchor relativeTo id =>
      (w.connections[c]?).bind fun d => if d.phase = .negotiated then
        some (c,.store (boundSession (sessionCreate w.sessions time thread anchor relativeTo) id))
      else none
  | _ => none

/-- An assignment is accepted by every other thread. -/
def Undisturbing (w : World) (e : ThreadEvent) : Prop :=
  ∀ q ∈ w.write e, ∀ p ∈ w.connections.zipIdx, p.2 ≠ q.1 → p.1.Accepts q.2

instance (d : Connection) (u : Write) : Decidable (d.Accepts u) :=
  match u with
  | .encoding b => inferInstanceAs (Decidable (∀ v ∈ d.encoding, b = v))
  | .streaming b => inferInstanceAs (Decidable (∀ v ∈ d.streaming, b = v))
  | .store i => inferInstanceAs (Decidable (d.phase = .bound → some i = d.session))

instance (w : World) (e : ThreadEvent) : Decidable (Undisturbing w e) :=
  inferInstanceAs (Decidable
    (∀ q ∈ w.write e, ∀ p ∈ w.connections.zipIdx, p.2 ≠ q.1 → p.1.Accepts q.2))

theorem Undisturbing.accepts {w : World} {e : ThreadEvent} (h : Undisturbing w e) {c i : ℕ}
    {u : Write} {d : Connection} (hu : w.write e = some (c,u)) (hi : i ≠ c)
    (hd : w.connections[i]? = some d) : d.Accepts u :=
  h (c,u) hu (d,i) (List.mem_zipIdx_iff_getElem?.mpr hd) hi

structure Connection.Agrees (d : Connection) (g : Globals) : Prop where
  encoding : ∀ v ∈ d.encoding, g.useMsgpack = v
  streaming : ∀ v ∈ d.streaming, g.sessionUseStreaming = v
  store : d.phase = .bound → g.gActiveStore = d.session

theorem Connection.Agrees.write {d : Connection} {g : Globals} (h : d.Agrees g) {u : Write}
    (hu : d.Accepts u) : d.Agrees (g.write u) := by
  cases u with
  | encoding b => exact ⟨hu,h.streaming,h.store⟩
  | streaming b => exact ⟨h.encoding,hu,h.store⟩
  | store i => exact ⟨h.encoding,h.streaming,hu⟩

theorem eq_of_mem_pending {later v : Bool} (h : v ∈ if later then none else some false) :
    false = v := by
  cases later with
  | false => exact Option.some_inj.mp h
  | true => cases h

/-- A thread's own statements leave what it relies on. -/
theorem Connection.Agrees.next {d : Connection} {g : Globals} (h : d.Agrees g) :
    Connection.Agrees { d with phase := d.next.2 } (g.writeOption d.next.1) := by
  obtain ⟨⟨m,s⟩,i,p⟩ := d
  cases p with
  | accepted => exact ⟨fun _ => eq_of_mem_pending,nofun,nofun⟩
  | encodingCleared => exact ⟨h.encoding,fun _ => eq_of_mem_pending,nofun⟩
  | streamingCleared =>
      cases m with
      | false => exact ⟨h.encoding,h.streaming,nofun⟩
      | true => exact ⟨fun _ => Option.some_inj.mp,h.streaming,nofun⟩
  | encodingChosen =>
      cases s with
      | false => exact ⟨h.encoding,h.streaming,nofun⟩
      | true => exact ⟨h.encoding,fun _ => Option.some_inj.mp,nofun⟩
  | negotiated => exact ⟨h.encoding,h.streaming,nofun⟩
  | bound => exact h
  | closed => exact h

/-! ## Steps -/

/-- The thread runs its widget, or has done so. -/
def Connection.Started (d : Connection) : Prop := d.phase = .bound ∨ d.phase = .closed

/-- Every thread finds what it relies on, and every use was by a thread that had
its session. -/
structure World.Sound (w : World) : Prop where
  agrees : ∀ (i : ℕ) (d : Connection), w.connections[i]? = some d → d.Agrees w.globals
  used : ∀ p ∈ w.uses, ∃ d, w.connections[p.1]? = some d ∧ d.Started ∧ p.2.Own d

theorem World.Sound.isolated {w : World} (h : w.Sound) : Isolated w := by
  intro c u d hu hd
  obtain ⟨e,he,-,hown⟩ := h.used (c,u) hu
  obtain rfl : e = d := Option.some_inj.mp (he.symm.trans hd)
  exact hown

theorem sound_threadStart (sessions : List Session) : (threadStart sessions).Sound where
  agrees := nofun
  used := nofun

theorem sound_accept {w : World} (h : w.Sound) (line : Bytes) :
    (threadStep w (.accept line)).Sound where
  agrees := fun i d hd => by
    change (w.connections++[_])[i]? = some d at hd
    rcases Nat.lt_or_ge i w.connections.length with hi | hi
    · rw [List.getElem?_append_left hi] at hd
      exact h.agrees i d hd
    · rw [List.getElem?_append_right hi] at hd
      obtain rfl := List.mem_singleton.mp (List.mem_of_getElem? hd)
      exact ⟨nofun,nofun,nofun⟩
  used := fun p hp => by
    obtain ⟨d,hd,hs,ho⟩ := h.used p hp
    exact ⟨d,by rw [← hd]; exact List.getElem?_append_left (List.getElem?_eq_some_iff.mp hd).1,hs,ho⟩

/-- One thread goes on while the variables change only in ways the others accept. -/
theorem World.Sound.set {w : World} (h : w.Sound) {c : ℕ} {d e : Connection} {g : Globals}
    (hd : w.connections[c]? = some d) (hg : ∀ i f, i ≠ c → w.connections[i]? = some f → f.Agrees g)
    (he : e.Agrees g) (hown : e.own = d.own) (hs : d.Started → e.Started ∧ e.session = d.session)
    (sessions : List Session) : World.Sound ⟨g,sessions,w.connections.set c e,w.uses⟩ where
  agrees := fun i f hf => by
    change (w.connections.set c e)[i]? = some f at hf
    by_cases hi : i = c
    · subst hi
      rw [List.getElem?_set_self (List.getElem?_eq_some_iff.mp hd).1,Option.some_inj] at hf
      exact hf ▸ he
    · rw [List.getElem?_set_ne (Ne.symm hi)] at hf
      exact hg i f hi hf
  used := fun p hp => by
    obtain ⟨f,hf,hstart,ho⟩ := h.used p hp
    by_cases hi : p.1 = c
    · rw [hi] at hf ⊢
      obtain rfl : f = d := Option.some_inj.mp (hf.symm.trans hd)
      obtain ⟨hes,hsession⟩ := hs hstart
      refine ⟨e,List.getElem?_set_self (List.getElem?_eq_some_iff.mp hd).1,hes,?_⟩
      cases hu : p.2 with
      | respond b => rw [hu] at ho; exact ho.trans (congrArg Negotiated.msgpack hown.symm)
      | draw b => rw [hu] at ho; exact ho.trans (congrArg Negotiated.streaming hown.symm)
      | validate s => rw [hu] at ho; exact ho.trans hsession.symm
    · exact ⟨f,(List.getElem?_set_ne (Ne.symm hi)).trans hf,hstart,ho⟩

theorem World.Sound.use {w : World} (h : w.Sound) {c : ℕ} {u : Use}
    (hu : ∀ d, w.connections[c]? = some d → d.phase = .bound → u.Own d) : (w.use c u).Sound := by
  unfold World.use
  cases hd : w.connections[c]? with
  | none => exact h
  | some d =>
      by_cases hb : d.phase = .bound
      · simp only [hb,if_true]
        refine ⟨h.agrees,fun p hp => ?_⟩
        obtain hp | hp := List.mem_append.mp hp
        · exact h.used p hp
        · obtain rfl := List.mem_singleton.mp hp
          exact ⟨d,hd,Or.inl hb,hu d hd hb⟩
      · simp only [hb,if_false]
        exact h

theorem sound_advance {w : World} (h : w.Sound) (c : ℕ) (hu : Undisturbing w (.advance c)) :
    (threadStep w (.advance c)).Sound := by
  cases hd : w.connections[c]? with
  | none => simpa only [threadStep,hd] using h
  | some d =>
      simp only [threadStep,hd]
      refine h.set hd (fun i f hi hf => ?_) (h.agrees c d hd).next rfl (fun hs => ?_) w.sessions
      · cases hn : d.next.1 with
        | none => exact h.agrees i f hf
        | some u => exact (h.agrees i f hf).write (hu.accepts (by simp [World.write,hd,hn]) hi hf)
      · obtain hs | hs := hs <;> simp [Connection.Started,Connection.next,hs]

theorem sound_bind {w : World} (h : w.Sound) (c : ℕ) (time thread : UInt64)
    (anchor : CharArray 32) (relativeTo : CharArray 64) (id : Option Bytes)
    (hu : Undisturbing w (.bind c time thread anchor relativeTo id)) :
    (threadStep w (.bind c time thread anchor relativeTo id)).Sound := by
  cases hd : w.connections[c]? with
  | none => simpa only [threadStep,hd] using h
  | some d =>
      simp only [threadStep,hd]
      by_cases hp : d.phase = .negotiated
      · have hd' := h.agrees c d hd
        rw [if_pos hp]
        refine h.set hd ?_ ?_ ?_ ?_ _
        · intro i f hi hf
          exact (h.agrees i f hf).write (hu.accepts (by simp [World.write,hd,hp]) hi hf)
        · constructor
          · intro v hv
            apply hd'.encoding v
            simpa [Connection.encoding,hp] using hv
          · intro v hv
            apply hd'.streaming v
            simpa [Connection.streaming,hp] using hv
          · exact fun _ => rfl
        · rfl
        · intro hs
          simp [Connection.Started,hp] at hs
      · rw [if_neg hp]
        exact h

theorem sound_close {w : World} (h : w.Sound) (c : ℕ) : (threadStep w (.close c)).Sound := by
  cases hd : w.connections[c]? with
  | none => simpa only [threadStep,hd] using h
  | some d =>
      simp only [threadStep,hd]
      refine h.set hd (fun i f _ hf => h.agrees i f hf) ?_ ?_ ?_ w.sessions
      · exact ⟨nofun,nofun,nofun⟩
      · rfl
      · exact fun _ => ⟨Or.inr rfl,rfl⟩

theorem sound_threadStep (w : World) (e : ThreadEvent) (h : w.Sound) (hu : Undisturbing w e) :
    (threadStep w e).Sound := by
  cases e with
  | accept line => exact sound_accept h line
  | advance c => exact sound_advance h c hu
  | bind c time thread anchor relativeTo id => exact sound_bind h c time thread anchor relativeTo id hu
  | create time thread anchor relativeTo => exact ⟨h.agrees,h.used⟩
  | respond c =>
      apply h.use
      intro d hd hb
      apply (h.agrees c d hd).encoding
      simp [Connection.encoding,hb]
  | draw c =>
      apply h.use
      intro d hd hb
      apply (h.agrees c d hd).streaming
      simp [Connection.streaming,hb]
  | validate c => exact h.use fun d hd hb => (h.agrees c d hd).store hb
  | close c => exact sound_close h c

/-- Along a run whose assignments disturb no other thread, every response, draw
and validation is that of its own connection. -/
theorem isolated_of_undisturbing (sessions : List Session) (es : List ThreadEvent)
    (h : Guarded threadStep Undisturbing (threadStart sessions) es) :
    Always threadStep Isolated (threadStart sessions) es :=
  (h.always sound_threadStep (sound_threadStart sessions)).imp fun _ hw => hw.isolated

/-- The statements of a connection up to its session. -/
def opening (c : ℕ) (time : UInt64) : List ThreadEvent :=
  [.advance c,.advance c,.advance c,.advance c,
    .bind c time 140245718640320 (.zeros 32) (.zeros 64) none]

/-- `{"type":"handshake","encoding":"msgpack"}`. -/
def msgpackLine : Bytes :=
  bytes "\x7b\"type\":\"handshake\",\"encoding\":\"msgpack\"\x7d"

/-- `{"widget":"input"}`. -/
def inputLine : Bytes := bytes "\x7b\"widget\":\"input\"\x7d"

/-- Two connections, one after the other. -/
def inTurn : List ThreadEvent :=
  [.accept msgpackLine]++opening 0 1700000000++[.validate 0,.respond 0,.close 0,.accept inputLine]++
    opening 1 1700000001++[.draw 1,.respond 1]

theorem isolated_inTurn :
    Guarded threadStep Undisturbing (threadStart []) inTurn ∧
      Always threadStep Isolated (threadStart []) inTurn := by
  have h : Guarded threadStep Undisturbing (threadStart []) inTurn := by decide +kernel
  exact ⟨h,isolated_of_undisturbing [] inTurn h⟩

/-- The second connection starts while the first one runs its widget. -/
def overlapping : List ThreadEvent :=
  [.accept msgpackLine]++opening 0 1700000000++[.accept inputLine]++opening 1 1700000001++
    [.validate 0,.respond 0]

/-- The first connection reads the store of the second one and answers in its
encoding. -/
theorem overlapping_connections_disturb :
    ¬Always threadStep Isolated (threadStart []) overlapping ∧
      (run threadStep (threadStart []) overlapping).uses =
        [(0,.validate (some 1)),(0,.respond false)] ∧
      (run threadStep (threadStart []) overlapping).connections[0]? =
        some ⟨⟨true,false⟩,some 0,.bound⟩ := by
  have huses : (run threadStep (threadStart []) overlapping).uses =
      [(0,.validate (some 1)),(0,.respond false)] := by decide +kernel
  have hfirst : (run threadStep (threadStart []) overlapping).connections[0]? =
      some ⟨⟨true,false⟩,some 0,.bound⟩ := by decide +kernel
  refine ⟨fun h => ?_,huses,hfirst⟩
  have hown := h.finish 0 (.respond false) _ (by simp [huses]) hfirst
  simp [Use.Own] at hown

end Filly.Daemon

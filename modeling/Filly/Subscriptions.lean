import Filly.Runs
import Filly.SessionStore

/-!
# Subscriptions and descriptors

A subscription is the number of a descriptor inside an entry of a session's
store. Closing a connection leaves the number there, and the system gives the
lowest free number to the next connection.

`wanted` records what a connection has asked for. The daemon does not keep it;
it says who should be notified.
-/
namespace Filly.Daemon
open CJson SessionStore Runs

/-- The keys of a `subscribe` or `unsubscribe` message. -/
def messageKeys (json : Json) : List Bytes :=
  match json.getObjectItem (bytes "keys") with
  | some (.array items) => items.filterMap Json.valuestring
  | _ => []

/-- The lowest descriptor that is not in use. -/
def lowestFree (used : List ℕ) : ℕ :=
  ((List.range (used.length+1)).find? fun n => n ∉ used).getD 0

theorem lowestFree_notMem (used : List ℕ) : lowestFree used ∉ used := by
  unfold lowestFree
  cases h : (List.range (used.length+1)).find? fun n => n ∉ used with
  | some n => simpa using List.find?_some h
  | none =>
      have hsub : List.range (used.length+1) ⊆ used := by
        intro n hn
        simpa using List.find?_eq_none.mp h n hn
      have hle := (List.nodup_range.subperm hsub).length_le
      rw [List.length_range] at hle
      omega

/-- An open connection. -/
structure Subscriber where
  fd : ℕ
  session : ℕ
  wanted : List Bytes
  deriving DecidableEq, Repr

structure Hub where
  stores : List Store
  clients : List Subscriber

inductive HubEvent where
  /-- A connection while other descriptors are in use, with the session that was
  found for it, if any. -/
  | accept (others : List ℕ) (found : Option ℕ)
  | subscribe (fd : ℕ) (json : Json)
  | unsubscribe (fd : ℕ) (json : Json)
  | update (session : ℕ) (key value : Bytes)
  | close (fd : ℕ)

def subscribeAll (fd : ℕ) (keys : List Bytes) (s : Store) : Store :=
  keys.foldl (fun s k => storeSubscribe s k fd) s

def unsubscribeAll (fd : ℕ) (keys : List Bytes) (s : Store) : Store :=
  keys.foldl (fun s k => storeUnsubscribe s k fd) s

def Subscriber.ask (fd : ℕ) (wanted : List Bytes → List Bytes) (c : Subscriber) : Subscriber :=
  if c.fd = fd then { c with wanted := wanted c.wanted } else c

/-- A message of a connection changes the store of its session. -/
def Hub.message (w : Hub) (fd : ℕ) (store : Store → Store) (wanted : List Bytes → List Bytes) : Hub :=
  match w.clients.find? fun c => c.fd = fd with
  | none => w
  | some c =>
      { stores := w.stores.modify c.session store
        clients := w.clients.map (Subscriber.ask fd wanted) }

def hubStep (w : Hub) : HubEvent → Hub
  | .accept others found =>
      let fd := lowestFree (others++w.clients.map Subscriber.fd)
      match found.filter (· < w.stores.length) with
      | some i => { w with clients := ⟨fd,i,[]⟩::w.clients }
      | none => ⟨w.stores++[storeNew],⟨fd,w.stores.length,[]⟩::w.clients⟩
  | .subscribe fd json =>
      w.message fd (subscribeAll fd (messageKeys json)) (messageKeys json++·)
  | .unsubscribe fd json =>
      w.message fd (unsubscribeAll fd (messageKeys json)) (List.filter (· ∉ messageKeys json))
  | .update i key value =>
      { w with stores := w.stores.modify i fun s => (storeSet s key value).1 }
  | .close fd => { w with clients := w.clients.filter fun c => c.fd ≠ fd }

def hubStart : Hub := ⟨[],[]⟩

/-- Whatever is set, each notification goes to an open connection that asked for
it, and each connection that asked for it gets one. -/
def Delivered (w : Hub) : Prop :=
  ∀ i s k v, w.stores[i]? = some s →
    (∀ p ∈ (storeSet s k v).2, ∃ c ∈ w.clients, p.1 = c.fd ∧ c.session = i ∧ k ∈ c.wanted) ∧
    ∀ c ∈ w.clients, c.session = i → k ∈ c.wanted →
      (storeSet s k v).2.countP (fun p : ℤ × Bytes => p.1 = c.fd) = 1

/-- A connection subscribes only to what it has not asked for yet, once, and gives
everything up before it is closed. -/
def Orderly (w : Hub) : HubEvent → Prop
  | .subscribe fd json => ∀ c ∈ w.clients, c.fd = fd →
      (messageKeys json).Nodup ∧ ∀ k ∈ messageKeys json, k ∉ c.wanted
  | .close fd => ∀ c ∈ w.clients, c.fd = fd → c.wanted = []
  | _ => True

/-! ## Descriptors in a store -/

theorem count_subscribeAll (fd : ℕ) (keys : List Bytes) (s : Store) (k : Bytes) (d : ℤ) :
    (subscribers (subscribeAll fd keys s) k).count d =
      (subscribers s k).count d+if d = fd then keys.count k else 0 := by
  induction keys generalizing s with
  | nil => simp [subscribeAll]
  | cons j keys ih =>
      change (subscribers (subscribeAll fd keys (storeSubscribe s j fd)) k).count d = _
      rw [ih,subscribers_subscribe,List.count_cons]
      by_cases hk : k = j
      · subst hk
        by_cases hd : d = fd
        · simp [hd]
          omega
        · simp [hd,Ne.symm hd]
      · simp [hk,Ne.symm hk]

theorem count_unsubscribeAll (fd : ℕ) (keys : List Bytes) (s : Store) (k : Bytes) (d : ℤ) :
    (subscribers (unsubscribeAll fd keys s) k).count d =
      if k ∈ keys ∧ d = fd then 0 else (subscribers s k).count d := by
  induction keys generalizing s with
  | nil => simp [unsubscribeAll]
  | cons j keys ih =>
      change (subscribers (unsubscribeAll fd keys (storeUnsubscribe s j fd)) k).count d = _
      rw [ih,subscribers_unsubscribe]
      by_cases hk : k = j
      · subst hk
        by_cases hd : d = fd
        · subst hd
          have h0 : ((subscribers s k).filter (· ≠ (fd : ℤ))).count (fd : ℤ) = 0 := by
            simp [List.count_eq_zero]
          simpa using fun _ => h0
        · simp [hd,List.count_filter]
      · simp [hk]

/-! ## Who should be notified -/

/-- The descriptor belongs to an open connection that asked for the key. -/
def Wanting (w : Hub) (i : ℕ) (k : Bytes) (d : ℤ) : Prop :=
  ∃ c ∈ w.clients, d = c.fd ∧ c.session = i ∧ k ∈ c.wanted

instance (w : Hub) (i : ℕ) (k : Bytes) (d : ℤ) : Decidable (Wanting w i k d) := by
  unfold Wanting
  infer_instance

/-- The stores hold each such descriptor once, and no other. -/
def Exact (w : Hub) : Prop :=
  ∀ i s, w.stores[i]? = some s → ∀ k d,
    (subscribers s k).count d = if Wanting w i k d then 1 else 0

theorem countP_storeSet (s : Store) (k v : Bytes) (d : ℤ) :
    (storeSet s k v).2.countP (fun p : ℤ × Bytes => p.1 = d) = (subscribers s k).count d := by
  rw [storeSet,List.countP_map,List.count_eq_countP]
  apply List.countP_congr
  simp

theorem delivered_iff_exact (w : Hub) : Delivered w ↔ Exact w := by
  constructor
  · intro h i s hs k d
    obtain ⟨hopen,hone⟩ := h i s k [] hs
    split_ifs with hw
    · obtain ⟨c,hc,rfl,hi,hk⟩ := hw
      rw [← countP_storeSet s k [],hone c hc hi hk]
    · rw [List.count_eq_zero]
      intro hm
      exact hw (hopen (d,_) (List.mem_map_of_mem hm))
  · intro h i s k v hs
    constructor
    · intro p hp
      obtain ⟨d,hd,rfl⟩ := List.mem_map.mp hp
      have hcount := h i s hs k d
      split_ifs at hcount with hw
      · exact hw
      · exact absurd hd (List.count_eq_zero.mp hcount)
    · intro c hc hi hk
      rw [countP_storeSet,h i s hs k c.fd,if_pos ⟨c,hc,rfl,hi,hk⟩]

/-! ## Connections have their own descriptors -/

structure Hub.Formed (w : Hub) : Prop where
  fds : (w.clients.map Subscriber.fd).Nodup
  sessions : ∀ c ∈ w.clients, c.session < w.stores.length

theorem Hub.Formed.eq {w : Hub} (h : w.Formed) {c d : Subscriber} (hc : c ∈ w.clients)
    (hd : d ∈ w.clients) (hfd : c.fd = d.fd) : c = d :=
  List.inj_on_of_nodup_map h.fds hc hd hfd

theorem formed_hubStart : hubStart.Formed := ⟨List.nodup_nil,nofun⟩

theorem ask_fd (fd : ℕ) (g : List Bytes → List Bytes) (c : Subscriber) : (c.ask fd g).fd = c.fd := by
  unfold Subscriber.ask
  split_ifs <;> rfl

theorem ask_session (fd : ℕ) (g : List Bytes → List Bytes) (c : Subscriber) :
    (c.ask fd g).session = c.session := by
  unfold Subscriber.ask
  split_ifs <;> rfl

theorem formed_message {w : Hub} (h : w.Formed) (fd : ℕ) (f : Store → Store)
    (g : List Bytes → List Bytes) : (w.message fd f g).Formed := by
  unfold Hub.message
  cases w.clients.find? fun c => c.fd = fd with
  | none => exact h
  | some c =>
      constructor
      · have hfds : Subscriber.fd ∘ Subscriber.ask fd g = Subscriber.fd := funext (ask_fd fd g)
        rw [List.map_map,hfds]
        exact h.fds
      · intro d hd
        obtain ⟨e,he,rfl⟩ := List.mem_map.mp hd
        rw [ask_session,List.length_modify]
        exact h.sessions e he

theorem formed_hubStep (w : Hub) (e : HubEvent) (h : w.Formed) : (hubStep w e).Formed := by
  cases e with
  | accept others found =>
      have hfree := lowestFree_notMem (others++w.clients.map Subscriber.fd)
      have hnew : lowestFree (others++w.clients.map Subscriber.fd) ∉ w.clients.map Subscriber.fd :=
        fun hm => hfree (List.mem_append_right _ hm)
      cases hf : found.filter (· < w.stores.length) with
      | some i =>
          have hi : i < w.stores.length := by simpa using (Option.filter_eq_some_iff.mp hf).2
          simp only [hubStep,hf]
          exact ⟨List.nodup_cons.mpr ⟨hnew,h.fds⟩,List.forall_mem_cons.mpr ⟨hi,h.sessions⟩⟩
      | none =>
          simp only [hubStep,hf]
          refine ⟨List.nodup_cons.mpr ⟨hnew,h.fds⟩,List.forall_mem_cons.mpr ⟨?_,?_⟩⟩
          · simp
          · intro c hc
            have := h.sessions c hc
            simp only [List.length_append,List.length_singleton]
            omega
  | subscribe fd json => exact formed_message h fd _ _
  | unsubscribe fd json => exact formed_message h fd _ _
  | update i key value => exact ⟨h.fds,fun c hc => (h.sessions c hc).trans_eq (by simp [hubStep])⟩
  | close fd =>
      refine ⟨h.fds.sublist (List.filter_sublist.map _),fun c hc => ?_⟩
      exact h.sessions c (List.mem_filter.mp hc).1

/-! ## Steps -/

/-- The descriptor of an open connection stands for what that connection wants. -/
theorem wanting_fd {w : Hub} (h : w.Formed) {c : Subscriber} (hc : c ∈ w.clients) (i : ℕ)
    (k : Bytes) : Wanting w i k c.fd ↔ c.session = i ∧ k ∈ c.wanted := by
  constructor
  · rintro ⟨d,hd,hfd,hi,hk⟩
    obtain rfl := h.eq hc hd (Int.ofNat.inj hfd)
    exact ⟨hi,hk⟩
  · exact fun ⟨hi,hk⟩ => ⟨c,hc,rfl,hi,hk⟩

theorem wanting_message {w : Hub} (h : w.Formed) {c : Subscriber} {fd : ℕ}
    (hc : w.clients.find? (fun c => c.fd = fd) = some c) (f : Store → Store)
    (g : List Bytes → List Bytes) (i : ℕ) (k : Bytes) (d : ℤ) :
    Wanting (w.message fd f g) i k d ↔
      if d = fd then c.session = i ∧ k ∈ g c.wanted else Wanting w i k d := by
  have hm := List.mem_of_find?_eq_some hc
  have hfd : c.fd = fd := by simpa using List.find?_some hc
  simp only [Wanting,Hub.message,hc,List.mem_map,exists_exists_and_eq_and,ask_fd,ask_session]
  constructor
  · rintro ⟨e,he,rfl,hi,hk⟩
    split_ifs with hd
    · obtain rfl := h.eq he hm ((Int.ofNat.inj hd).trans hfd.symm)
      rw [Subscriber.ask,if_pos hfd] at hk
      exact ⟨hi,hk⟩
    · rw [Subscriber.ask,if_neg fun hn => hd (congrArg _ hn)] at hk
      exact ⟨e,he,rfl,hi,hk⟩
  · split_ifs with hd
    · intro ⟨hi,hk⟩
      refine ⟨c,hm,by rw [hd,hfd],hi,?_⟩
      rwa [Subscriber.ask,if_pos hfd]
    · rintro ⟨e,he,rfl,hi,hk⟩
      refine ⟨e,he,rfl,hi,?_⟩
      rwa [Subscriber.ask,if_neg fun hn => hd (congrArg _ hn)]

/-- A message changes nothing in the other sessions. -/
theorem wanting_message_elsewhere {w : Hub} (h : w.Formed) {c : Subscriber} {fd : ℕ}
    (hc : w.clients.find? (fun c => c.fd = fd) = some c) (f : Store → Store)
    (g : List Bytes → List Bytes) {i : ℕ} (hi : c.session ≠ i) (k : Bytes) (d : ℤ) :
    Wanting (w.message fd f g) i k d ↔ Wanting w i k d := by
  have hm := List.mem_of_find?_eq_some hc
  have hfd : c.fd = fd := by simpa using List.find?_some hc
  rw [wanting_message h hc]
  split_ifs with hd
  · rw [hd,← hfd,wanting_fd h hm]
    exact iff_of_false (fun hn => hi hn.1) (fun hn => hi hn.1)
  · rfl

theorem store_message {w : Hub} {c : Subscriber} {fd : ℕ}
    (hc : w.clients.find? (fun c => c.fd = fd) = some c) (f : Store → Store)
    (g : List Bytes → List Bytes) {i : ℕ} {s : Store}
    (hs : (w.message fd f g).stores[i]? = some s) :
    ∃ t, w.stores[i]? = some t ∧ s = if c.session = i then f t else t := by
  simp only [Hub.message,hc,List.getElem?_modify] at hs
  obtain ⟨t,ht,rfl⟩ := Option.map_eq_some_iff.mp hs
  refine ⟨t,ht,?_⟩
  split_ifs <;> rfl

theorem exact_accept {w : Hub} (h : w.Formed) (hx : Exact w) (others : List ℕ) (found : Option ℕ) :
    Exact (hubStep w (.accept others found)) := by
  have hwant : ∀ (stores : List Store) (fd j : ℕ) i k d,
      Wanting ⟨stores,⟨fd,j,[]⟩::w.clients⟩ i k d ↔ Wanting w i k d := by
    intro stores fd j i k d
    simp [Wanting]
  intro i s hs k d
  cases hf : found.filter (· < w.stores.length) with
  | some j =>
      simp only [hubStep,hf] at hs ⊢
      simp only [hwant]
      exact hx i s hs k d
  | none =>
      simp only [hubStep,hf] at hs ⊢
      simp only [hwant]
      rcases Nat.lt_or_ge i w.stores.length with hi | hi
      · rw [List.getElem?_append_left hi] at hs
        exact hx i s hs k d
      · rw [List.getElem?_append_right hi] at hs
        obtain rfl := List.mem_singleton.mp (List.mem_of_getElem? hs)
        have hnone : ¬Wanting w i k d := by
          rintro ⟨c,hc,-,rfl,-⟩
          exact absurd (h.sessions c hc) (Nat.not_lt_of_ge hi)
        rw [if_neg hnone]
        rfl

theorem exact_unsubscribe {w : Hub} (h : w.Formed) (hx : Exact w) (fd : ℕ) (json : Json) :
    Exact (hubStep w (.unsubscribe fd json)) := by
  cases hc : w.clients.find? fun c => c.fd = fd with
  | none =>
      simp only [hubStep,Hub.message,hc]
      exact hx
  | some c =>
      intro i s hs k d
      obtain ⟨t,ht,rfl⟩ := store_message hc _ _ hs
      have hcount := hx i t ht k d
      have hm := List.mem_of_find?_eq_some hc
      obtain rfl : c.fd = fd := by simpa using List.find?_some hc
      by_cases hi : c.session = i
      · simp only [hubStep,wanting_message h hc]
        rw [if_pos hi,count_unsubscribeAll,hcount]
        by_cases hd : d = c.fd
        · subst hd
          by_cases hk : k ∈ messageKeys json <;> simp [hk,hi,wanting_fd h hm]
        · simp [hd]
      · rw [if_neg hi,hcount]
        simp only [hubStep,wanting_message_elsewhere h hc _ _ hi]

theorem exact_update {w : Hub} (hx : Exact w) (i : ℕ) (key value : Bytes) :
    Exact (hubStep w (.update i key value)) := by
  intro j s hs k d
  simp only [hubStep,List.getElem?_modify] at hs
  obtain ⟨t,ht,rfl⟩ := Option.map_eq_some_iff.mp hs
  have hsubs : subscribers (if i = j then (storeSet t key value).1 else t) k = subscribers t k := by
    split_ifs
    · exact subscribers_set t key value k
    · rfl
  exact (congrArg (List.count d) hsubs).trans (hx j t ht k d)

theorem orderly_subscribe_iff {w : Hub} (h : w.Formed) {c : Subscriber} {fd : ℕ} (json : Json)
    (hc : w.clients.find? (fun c => c.fd = fd) = some c) :
    Orderly w (.subscribe fd json) ↔
      (messageKeys json).Nodup ∧ ∀ k ∈ messageKeys json, k ∉ c.wanted := by
  have hm := List.mem_of_find?_eq_some hc
  have hfd : c.fd = fd := by simpa using List.find?_some hc
  constructor
  · exact fun ho => ho c hm hfd
  · intro ho d hd hdf
    obtain rfl := h.eq hm hd (hfd.trans hdf.symm)
    exact ho

/-- A subscription keeps the descriptors apart exactly when it is a new one. -/
theorem exact_subscribe_iff {w : Hub} (h : w.Formed) (hx : Exact w) (fd : ℕ) (json : Json) :
    Exact (hubStep w (.subscribe fd json)) ↔ Orderly w (.subscribe fd json) := by
  cases hc : w.clients.find? fun c => c.fd = fd with
  | none =>
      have hnone : ∀ c ∈ w.clients, c.fd ≠ fd := by simpa using List.find?_eq_none.mp hc
      simp only [hubStep,Hub.message,hc]
      exact iff_of_true hx fun c hm hfd => absurd hfd (hnone c hm)
  | some c =>
      have hm := List.mem_of_find?_eq_some hc
      rw [orderly_subscribe_iff h json hc]
      obtain rfl : c.fd = fd := by simpa using List.find?_some hc
      constructor
      · intro hx'
        obtain ⟨t,ht⟩ : ∃ t, w.stores[c.session]? = some t :=
          ⟨_,List.getElem?_eq_getElem (h.sessions c hm)⟩
        have hs : (hubStep w (.subscribe c.fd json)).stores[c.session]? =
            some (subscribeAll c.fd (messageKeys json) t) := by
          simp [hubStep,Hub.message,hc,ht]
        have hcount : ∀ k, (if k ∈ c.wanted then 1 else 0)+(messageKeys json).count k =
            if k ∈ messageKeys json ∨ k ∈ c.wanted then 1 else 0 := by
          intro k
          have hk := hx' c.session _ hs k c.fd
          rw [count_subscribeAll,hx c.session t ht k c.fd] at hk
          simpa [hubStep,wanting_message h hc,wanting_fd h hm] using hk
        constructor
        · rw [List.nodup_iff_count_le_one]
          intro k
          have hk := hcount k
          split_ifs at hk <;> omega
        · intro k hk hw
          have hpos := List.count_pos_iff.mpr hk
          have := hcount k
          rw [if_pos hw,if_pos (Or.inl hk)] at this
          omega
      · intro ⟨hnodup,hnew⟩ i s hs k d
        obtain ⟨t,ht,rfl⟩ := store_message hc _ _ hs
        have hcount := hx i t ht k d
        by_cases hi : c.session = i
        · simp only [hubStep,wanting_message h hc]
          rw [if_pos hi,count_subscribeAll,hcount]
          by_cases hd : d = c.fd
          · subst hd
            by_cases hk : k ∈ messageKeys json
            · simp [hk,hi,wanting_fd h hm,hnew k hk,List.count_eq_one_of_mem hnodup hk]
            · simp [hk,hi,wanting_fd h hm,List.count_eq_zero.mpr hk]
          · simp [hd]
        · rw [if_neg hi,hcount]
          simp only [hubStep,wanting_message_elsewhere h hc _ _ hi]

theorem wanting_close (w : Hub) (fd i : ℕ) (k : Bytes) (d : ℤ) :
    Wanting (hubStep w (.close fd)) i k d ↔ d ≠ fd ∧ Wanting w i k d := by
  constructor
  · rintro ⟨c,hc,rfl,hi,hk⟩
    obtain ⟨hm,hne⟩ := List.mem_filter.mp hc
    exact ⟨fun hn => of_decide_eq_true hne (Int.ofNat.inj hn),c,hm,rfl,hi,hk⟩
  · rintro ⟨hne,c,hc,rfl,hi,hk⟩
    exact ⟨c,List.mem_filter.mpr ⟨hc,decide_eq_true fun hn => hne (congrArg _ hn)⟩,rfl,hi,hk⟩

/-- Closing a connection leaves no descriptor behind exactly when it wants nothing. -/
theorem exact_close_iff {w : Hub} (h : w.Formed) (hx : Exact w) (fd : ℕ) :
    Exact (hubStep w (.close fd)) ↔ Orderly w (.close fd) := by
  constructor
  · intro hx' c hm hfd
    apply List.eq_nil_iff_forall_not_mem.mpr
    intro k hk
    obtain ⟨t,ht⟩ : ∃ t, w.stores[c.session]? = some t :=
      ⟨_,List.getElem?_eq_getElem (h.sessions c hm)⟩
    have hbefore := hx c.session t ht k c.fd
    have hafter := hx' c.session t ht k c.fd
    rw [if_pos ((wanting_fd h hm _ k).mpr ⟨rfl,hk⟩)] at hbefore
    rw [if_neg fun hw => ((wanting_close w fd _ k _).mp hw).1 (congrArg _ hfd)] at hafter
    omega
  · intro ho i s hs k d
    have hcount := hx i s hs k d
    have hsame : Wanting (hubStep w (.close fd)) i k d ↔ Wanting w i k d := by
      rw [wanting_close]
      apply and_iff_right_of_imp
      rintro ⟨c,hc,rfl,-,hk⟩ hn
      rw [ho c hc (Int.ofNat.inj hn)] at hk
      cases hk
    simp only [hsame]
    exact hcount

/-! ## Runs -/

theorem exact_hubStep_iff {w : Hub} (h : w.Formed) (hx : Exact w) (e : HubEvent) :
    Exact (hubStep w e) ↔ Orderly w e := by
  cases e with
  | accept others found => exact iff_of_true (exact_accept h hx others found) trivial
  | subscribe fd json => exact exact_subscribe_iff h hx fd json
  | unsubscribe fd json => exact iff_of_true (exact_unsubscribe h hx fd json) trivial
  | update i key value => exact iff_of_true (exact_update hx i key value) trivial
  | close fd => exact exact_close_iff h hx fd

theorem exact_hubStart : Exact hubStart := nofun

/-- Notifications follow the subscriptions along a run exactly when no connection
subscribes twice or is closed with a subscription. -/
theorem delivered_iff_orderly (es : List HubEvent) :
    Always hubStep Delivered hubStart es ↔ Guarded hubStep Orderly hubStart es := by
  constructor
  · intro h
    have hformed := always_of_invariant formed_hubStep hubStart es formed_hubStart
    apply (h.and hformed).guarded
    intro w e hw hw'
    exact (exact_hubStep_iff hw.2 ((delivered_iff_exact w).mp hw.1) e).mp
      ((delivered_iff_exact _).mp hw'.1)
  · intro h
    have hkept := h.always (I := fun w => w.Formed ∧ Exact w)
      (fun w e hw ho => ⟨formed_hubStep w e hw.1,(exact_hubStep_iff hw.1 hw.2 e).mpr ho⟩)
      ⟨formed_hubStart,exact_hubStart⟩
    exact hkept.imp fun w hw => (delivered_iff_exact w).mpr hw.2

/-- `{"type":"subscribe","keys":["lang"]}`. -/
def subscribeLang : Json :=
  .object [(bytes "type",.string (bytes "subscribe")),
    (bytes "keys",.array [.string (bytes "lang")])]

/-- A connection subscribes and is closed, and the next one gets its descriptor. -/
def reusedDescriptor : List HubEvent :=
  [.accept [0,1,2,3] none,.subscribe 4 subscribeLang,.close 4,.accept [0,1,2,3] none]

/-- The new connection, which wants nothing and has another session, is notified. -/
theorem reused_descriptor_is_notified :
    ¬Always hubStep Delivered hubStart reusedDescriptor ∧
      (run hubStep hubStart reusedDescriptor).clients = [⟨4,1,[]⟩] ∧
      ((run hubStep hubStart reusedDescriptor).stores[0]?.map fun s =>
        (storeSet s (bytes "lang") (bytes "de")).2.map Prod.fst) = some [4] := by
  have hclients : (run hubStep hubStart reusedDescriptor).clients = [⟨4,1,[]⟩] := by decide +kernel
  have hwrites : ((run hubStep hubStart reusedDescriptor).stores[0]?.map fun s =>
      (storeSet s (bytes "lang") (bytes "de")).2.map Prod.fst) = some [4] := by decide +kernel
  refine ⟨fun h => ?_,hclients,hwrites⟩
  obtain ⟨s,hs,hfds⟩ := Option.map_eq_some_iff.mp hwrites
  have hmem : (4 : ℤ) ∈ (storeSet s (bytes "lang") (bytes "de")).2.map Prod.fst := by simp [hfds]
  obtain ⟨p,hp,-⟩ := List.mem_map.mp hmem
  obtain ⟨c,hc,-,-,hk⟩ := (h.finish 0 s (bytes "lang") (bytes "de") hs).1 p hp
  rw [hclients,List.mem_singleton] at hc
  subst hc
  cases hk

end Filly.Daemon

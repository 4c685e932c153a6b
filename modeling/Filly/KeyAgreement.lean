import Filly.TtyKeys

/-!
# Where the relay and the terminal agree

A message that the relay writes for a key is read as that key again, but only a
printable character comes along with it. `Common` is the grammar of the inputs on
which both sides see the same keys: sequences outside it are an escape key for the
relay and no key, or the mouse, for the terminal, and other characters lose their
value on the way through the socket.
-/
namespace Filly.Keys
open CJson StepReader

/-! ## Messages -/

/-- The event that a key becomes on the other side. -/
def received (key : KeyCode × UInt8) : Event :=
  .key key.1.code (if 32 ≤ key.2 ∧ key.2 ≤ 126 then key.2 else 0)

/-- The message is one line that is read as the event. -/
def Delivered (key : KeyCode × UInt8) : Prop :=
  10 ∉ keyLine key ∧ (keyLine key).length < 255 ∧ lineEvent (keyLine key) = received key

instance (key : KeyCode × UInt8) : Decidable (Delivered key) :=
  inferInstanceAs (Decidable (_ ∧ _ ∧ _))

theorem delivered_code (k : KeyCode) : Delivered (k,0) := by
  cases k <;> decide +kernel

theorem delivered_char (c : UInt8) : Delivered (.keyChar,c) := by
  have hprintable : ∀ n < 127, 32 ≤ n → Delivered (.keyChar,UInt8.ofNat n) := by decide +kernel
  by_cases hc : 32 ≤ c ∧ c ≤ 126
  · have hn := hprintable c.toNat (Nat.lt_succ_of_le (UInt8.le_iff_toNat_le.mp hc.2))
      (UInt8.le_iff_toNat_le.mp hc.1)
    rwa [UInt8.ofNat_toNat] at hn
  · -- Every other character is sent as if there were none.
    have hquote : c ≠ 34 ∧ c ≠ 92 := by
      constructor
      · rintro rfl
        exact hc (by decide)
      · rintro rfl
        exact hc (by decide)
    have hline : keyLine (.keyChar,c) = keyLine (.keyChar,0) := by
      have htext : charText c = charText 0 := by simp [charText,hquote.1,hquote.2,hc]
      rw [keyLine,keyLine,htext]
    have hevent : received (.keyChar,c) = received (.keyChar,0) := by simp [received,hc]
    have h := delivered_code .keyChar
    rwa [Delivered,hline,hevent]

theorem consumes_sockNextEvent : Consumes sockNextEvent := by
  intro s r h
  unfold sockNextEvent at h
  split_ifs at h with h₀ h₁ h₂
  · cases h
    have hsuff : (s.dropWhile (· ≠ 10)).tail <:+ s :=
      (List.tail_suffix _).trans (List.dropWhile_suffix _)
    have hne : s.dropWhile (· ≠ 10) ≠ [] := by
      intro hnil
      have := List.dropWhile_eq_nil_iff.mp hnil 10 (List.mem_of_mem_take h₁)
      simp at this
    have hle := (List.dropWhile_suffix (· ≠ (10 : UInt8)) (l := s)).length_le
    have hpos := List.length_pos_iff.mpr hne
    exact ⟨hsuff,by rw [List.length_tail]; omega⟩
  · cases h
    exact ⟨List.drop_suffix _ _,by rw [List.length_drop]; omega⟩
  · cases h
    exact ⟨List.nil_suffix,List.length_pos_iff.mpr h₀⟩

theorem sockNextEvent_message {key : KeyCode × UInt8} (h : Delivered key) (rest : Bytes) :
    sockNextEvent (fillyClientSendKey key++rest) = some (received key,rest) := by
  obtain ⟨hnl,hlen,hevent⟩ := h
  have hne : fillyClientSendKey key++rest ≠ [] := by simp [fillyClientSendKey]
  have hmem : (10 : UInt8) ∈ (fillyClientSendKey key++rest).take 255 := by
    rw [fillyClientSendKey,List.append_assoc,List.take_append]
    obtain ⟨n,hn⟩ : ∃ n, 255-(keyLine key).length = n+1 := ⟨254-(keyLine key).length,by omega⟩
    rw [hn]
    simp
  have htake : (fillyClientSendKey key++rest).takeWhile (· ≠ 10) = keyLine key := by
    rw [fillyClientSendKey,List.append_assoc]
    exact takeWhile_ne_append_cons hnl rest
  have hdrop : ((fillyClientSendKey key++rest).dropWhile (· ≠ 10)).tail = rest := by
    rw [fillyClientSendKey,List.append_assoc,List.dropWhile_append_of_pos (by
      intro b hb
      simpa using fun he : b = 10 => hnl (he ▸ hb))]
    simp
  rw [sockNextEvent,if_neg hne,if_pos hmem,htake,hdrop,hevent]

theorem log_messages {keys : List (KeyCode × UInt8)} (h : ∀ key ∈ keys, Delivered key) :
    (log sockNextEvent (keys.flatMap fillyClientSendKey)).map Prod.snd = keys.map received := by
  induction keys with
  | nil => rfl
  | cons key keys ih =>
      have hkey := sockNextEvent_message (h key List.mem_cons_self) (keys.flatMap fillyClientSendKey)
      rw [List.flatMap_cons,log_some consumes_sockNextEvent hkey,List.map_cons,List.map_cons,
        ih fun k hk => h k (List.mem_cons_of_mem key hk)]

/-! ## The relay's steps -/

theorem delivered_relayKey {s : Bytes} {r : (KeyCode × UInt8) × Bytes} (h : relayKey s = some r) :
    Delivered r.1 := by
  cases s with
  | nil => cases h
  | cons c s =>
      rw [relayKey] at h
      split_ifs at h
      · cases h
        exact delivered_code _
      · cases h
        rw [plainKey]
        split_ifs
        · exact delivered_code _
        · exact delivered_code _
        · exact delivered_code _
        · exact delivered_char c

theorem suffix_csiScan (params s : Bytes) : (csiScan params s).2 <:+ s := by
  induction s generalizing params with
  | nil => exact List.suffix_rfl
  | cons c s ih =>
      rw [csiScan]
      split_ifs
      · exact List.suffix_cons c s
      · exact (ih _).trans (List.suffix_cons c s)
      · exact List.suffix_cons c s
      · exact (ih _).trans (List.suffix_cons c s)

theorem suffix_parseCsi (s : Bytes) : (parseCsi s).2 <:+ s := by
  cases s with
  | nil => exact List.suffix_rfl
  | cons c s =>
      unfold parseCsi
      simp only
      split_ifs
      · exact (suffix_csiScan [] s).trans (List.suffix_cons c s)
      · cases s with
        | nil => exact List.nil_suffix
        | cons k s => exact (List.suffix_cons k s).trans (List.suffix_cons c _)
      · exact List.suffix_cons c s

theorem consumes_of_tail {ε : Type} {step : Bytes → Option (ε × Bytes)} (hnil : step [] = none)
    (hcons : ∀ c s r, step (c::s) = some r → r.2 <:+ s) : Consumes step := by
  intro s r h
  cases s with
  | nil =>
      rw [hnil] at h
      cases h
  | cons c s =>
      have hsuff := hcons c s r h
      exact ⟨hsuff.trans (List.suffix_cons c s),Nat.lt_succ_of_le hsuff.length_le⟩

theorem consumes_relayKey : Consumes relayKey := by
  refine consumes_of_tail rfl fun c s r h => ?_
  rw [relayKey] at h
  split_ifs at h
  · cases h
    exact suffix_parseCsi s
  · cases h
    exact List.suffix_rfl

theorem isSome_relayKey (s : Bytes) (h : s ≠ []) : (relayKey s).isSome := by
  cases s with
  | nil => exact absurd rfl h
  | cons c s =>
      rw [relayKey]
      split_ifs <;> rfl

/-! ## The terminal's steps -/

theorem suffix_readMouse (buf s : Bytes) : (readMouse buf s).2.2 <:+ s := by
  induction s generalizing buf with
  | nil => exact List.suffix_rfl
  | cons c s ih =>
      rw [readMouse]
      split_ifs
      · exact List.suffix_cons c s
      · exact List.suffix_cons c s
      · exact List.suffix_cons c s
      · exact (ih _).trans (List.suffix_cons c s)

theorem consumes_termNextEvent : Consumes termNextEvent := by
  refine consumes_of_tail rfl fun c s r h => ?_
  unfold termNextEvent at h
  simp only at h
  split_ifs at h with hc
  · cases h
    exact List.suffix_rfl
  · cases s with
    | nil => cases h; exact List.suffix_rfl
    | cons c s =>
        simp only at h
        split_ifs at h with hb ho
        · cases s with
          | nil => cases h; exact List.nil_suffix
          | cons c' s =>
              simp only at h
              split_ifs at h with hm
              · cases h
                exact ((suffix_readMouse [] s).trans (List.suffix_cons c' s)).trans
                  (List.suffix_cons c _)
              · cases h
                exact (suffix_csiScan [] (c'::s)).trans (List.suffix_cons c _)
        · cases s with
          | nil => cases h; exact List.nil_suffix
          | cons c' s =>
              cases h
              exact (List.suffix_cons c' s).trans (List.suffix_cons c _)
        · cases h
          exact List.suffix_cons c s

/-! ## Sequences -/

/-- A fact that is checked for each byte. -/
theorem forall_byte {P : UInt8 → Prop} (h : ∀ n < 256, P (UInt8.ofNat n)) (c : UInt8) : P c := by
  have hc := h c.toNat c.toNat_lt
  rwa [UInt8.ofNat_toNat] at hc

theorem strtolSpan_params {params : Bytes} (h : ∀ c ∈ params, isParam c = true) :
    Fil.strtolSpan params = (false,params.takeWhile Fil.isDigit,params.dropWhile Fil.isDigit) := by
  cases params with
  | nil => rfl
  | cons c params =>
      have hc := h c List.mem_cons_self
      have hstart : Fil.isBlank c = false ∧ c ≠ 45 ∧ c ≠ 43 :=
        forall_byte (P := fun c => isParam c = true → Fil.isBlank c = false ∧ c ≠ 45 ∧ c ≠ 43)
          (by decide +kernel) c hc
      exact Fil.strtolSpan_of_start hstart.1 hstart.2 params

/-- A number ends at the first semicolon. -/
theorem atoi_takeWhile {params : Bytes} (h : ∀ c ∈ params, isParam c = true) :
    Fil.atoi (params.takeWhile (· ≠ 59)) = Fil.atoi params := by
  have hdigits (s : Bytes) : (s.takeWhile (· ≠ 59)).takeWhile Fil.isDigit = s.takeWhile Fil.isDigit := by
    induction s with
    | nil => rfl
    | cons c s ih =>
        by_cases hc : c = 59
        · subst hc
          rfl
        · rw [List.takeWhile_cons_of_pos (by simpa using hc),List.takeWhile_cons,
            List.takeWhile_cons,ih]
  have htake : ∀ c ∈ params.takeWhile (· ≠ 59), isParam c = true :=
    fun c hc => h c (List.takeWhile_subset _ hc)
  rw [Fil.atoi,Fil.atoi,strtolSpan_params h,strtolSpan_params htake]
  simp only [hdigits]

theorem termCsiKey_eq {params : Bytes} (h : ∀ c ∈ params, isParam c = true) (final : UInt8) :
    termCsiKey params final = relayCsiKey params final := by
  rw [termCsiKey,relayCsiKey,atoi_takeWhile h]

theorem isFinal_of_isParam {c : UInt8} (h : isParam c = true) : isFinal c = false :=
  forall_byte (P := fun c => isParam c = true → isFinal c = false) (by decide +kernel) c h

/-- What the loop reads: a body without a final byte and with at most 14 parameter
bytes, and a final byte. -/
theorem csiScan_eq_some_iff {params s : Bytes} (hp : params.length < 15) {ps rest : Bytes}
    {final : UInt8} : csiScan params s = (some (ps,final),rest) ↔
      ∃ body, s = body++final::rest ∧ (∀ c ∈ body, isFinal c = false) ∧ isFinal final = true ∧
        ps = params++body.filter isParam ∧ ps.length < 15 := by
  have hfull (params s : Bytes) (h : 15 ≤ params.length) : (csiScan params s).1 = none := by
    cases s with
    | nil => rfl
    | cons c s => rw [csiScan,if_pos h]
  induction s generalizing params with
  | nil =>
      rw [csiScan]
      constructor
      · intro h
        cases h
      · rintro ⟨body,hs,-⟩
        cases body <;> cases hs
  | cons c s ih =>
      rw [csiScan,if_neg (by omega)]
      split_ifs with hc hfin
      · by_cases hroom : (params++[c]).length < 15
        · refine (ih hroom).trans ?_
          constructor
          · rintro ⟨body,rfl,hbody,hfinal,rfl,hlen⟩
            refine ⟨c::body,rfl,?_,hfinal,by simp [hc],hlen⟩
            exact List.forall_mem_cons.mpr ⟨isFinal_of_isParam hc,hbody⟩
          · rintro ⟨body,hs,hbody,hfinal,rfl,hlen⟩
            cases body with
            | nil =>
                cases hs
                rw [isFinal_of_isParam hc] at hfinal
                cases hfinal
            | cons b body =>
                cases hs
                exact ⟨body,rfl,fun x hx => hbody x (List.mem_cons_of_mem c hx),hfinal,
                  by simp [hc],hlen⟩
        · constructor
          · intro h
            have hnone := hfull (params++[c]) s (not_lt.mp hroom)
            rw [h] at hnone
            cases hnone
          · rintro ⟨body,hs,hbody,hfinal,rfl,hlen⟩
            cases body with
            | nil =>
                cases hs
                rw [isFinal_of_isParam hc] at hfinal
                cases hfinal
            | cons b body =>
                cases hs
                simp only [List.filter_cons,hc,if_true,List.length_append,List.length_cons,
                  List.length_nil] at hlen hroom
                omega
      · constructor
        · intro h
          cases h
          exact ⟨[],rfl,fun x hx => absurd hx List.not_mem_nil,hfin,by simp,hp⟩
        · rintro ⟨body,hs,hbody,hfinal,rfl,hlen⟩
          cases body with
          | nil => cases hs; simp
          | cons b body =>
              cases hs
              rw [hbody c List.mem_cons_self] at hfin
              cases hfin
      · have hnot : isFinal c = false := by simpa using hfin
        refine (ih hp).trans ?_
        constructor
        · rintro ⟨body,rfl,hbody,hfinal,rfl,hlen⟩
          refine ⟨c::body,rfl,List.forall_mem_cons.mpr ⟨hnot,hbody⟩,hfinal,by simp [hc],hlen⟩
        · rintro ⟨body,hs,hbody,hfinal,rfl,hlen⟩
          cases body with
          | nil =>
              cases hs
              rw [hnot] at hfinal
              cases hfinal
          | cons b body =>
              cases hs
              exact ⟨body,rfl,fun x hx => hbody x (List.mem_cons_of_mem c hx),hfinal,
                by simp [hc],hlen⟩

/-! ## The grammar of the common inputs -/

/-- A byte that arrives as it was typed. -/
def CommonByte (c : UInt8) : Prop :=
  c = 0 ∨ c = 9 ∨ c = 10 ∨ c = 13 ∨ c = 127 ∨ (32 ≤ c ∧ c ≤ 126)

instance (c : UInt8) : Decidable (CommonByte c) :=
  inferInstanceAs (Decidable (c = 0 ∨ c = 9 ∨ c = 10 ∨ c = 13 ∨ c = 127 ∨ (32 ≤ c ∧ c ≤ 126)))

/-- A sequence that is a key: no parameters and one of the letters `ABCDHFZ`, or a known
number and a tilde. It does not start like a mouse report. -/
def KeySequence (body : Bytes) (final : UInt8) : Prop :=
  body.head? ≠ some 60 ∧ (∀ c ∈ body, isFinal c = false) ∧ isFinal final = true ∧
    (body.filter isParam).length < 15 ∧ (relayCsiKey (body.filter isParam) final).isSome

inductive Common : Bytes → Prop
  | nil : Common []
  | byte {c : UInt8} {s : Bytes} : CommonByte c → Common s → Common (c::s)
  | escape : Common [27]
  | other {c : UInt8} {s : Bytes} : c ≠ 91 → c ≠ 79 → Common s → Common (27::c::s)
  | ss3End : Common [27,79]
  | ss3 {c : UInt8} {s : Bytes} : (ss3Key c).isSome → Common s → Common (27::79::c::s)
  | csiEnd : Common [27,91]
  | csi {body : Bytes} {final : UInt8} {s : Bytes} : KeySequence body final → Common s →
      Common (27::91::(body++final::s))

/-- The logs of both sides as one statement. -/
def SameLog (s : Bytes) : Prop :=
  (log relayKey s).map (fun e => (e.1,received e.2)) =
    (log termNextEvent s).filter (fun e => e.2.isKey)

theorem sameLog_iff {s : Bytes} {a : (KeyCode × UInt8) × Bytes} {b : Event × Bytes}
    (ha : relayKey s = some a) (hb : termNextEvent s = some b) :
    SameLog s ↔ b.1.isKey = true ∧ received a.1 = b.1 ∧ a.2 = b.2 ∧ SameLog a.2 :=
  log_eq_filter_iff consumes_relayKey consumes_termNextEvent isSome_relayKey received Event.isKey
    ha hb

theorem sameLog_nil : SameLog [] := rfl

theorem received_code (k : KeyCode) : received (k,0) = k.event := rfl

/-- Where both sides see the same key, the rest decides. -/
theorem sameLog_key {s rest : Bytes} {k : KeyCode} (ha : relayKey s = some ((k,0),rest))
    (hb : termNextEvent s = some (k.event,rest)) : SameLog s ↔ SameLog rest := by
  rw [sameLog_iff ha hb]
  exact ⟨fun h => h.2.2.2,fun h => ⟨rfl,received_code k,rfl,h⟩⟩

/-- Where only the relay sees a key, the logs differ. -/
theorem not_sameLog {s : Bytes} {a : (KeyCode × UInt8) × Bytes} {b : Event × Bytes}
    (ha : relayKey s = some a) (hb : termNextEvent s = some b) (hkey : b.1.isKey = false) :
    ¬SameLog s := by
  rw [sameLog_iff ha hb,hkey]
  exact fun h => absurd h.1 (by decide)

theorem sameLog_byte {c : UInt8} (hc : c ≠ 27) (s : Bytes) :
    SameLog (c::s) ↔ CommonByte c ∧ SameLog s := by
  have ha : relayKey (c::s) = some (plainKey c,s) := by rw [relayKey,if_neg hc]
  have hb : termNextEvent (c::s) = some (.key (plainKey c).1.code (plainKey c).2,s) := by
    simp [termNextEvent,hc]
  have hreceived : received (plainKey c) = .key (plainKey c).1.code (plainKey c).2 ↔
      CommonByte c :=
    forall_byte (P := fun c => c ≠ 27 →
      (received (plainKey c) = .key (plainKey c).1.code (plainKey c).2 ↔ CommonByte c))
      (by decide +kernel) c hc
  rw [sameLog_iff ha hb]
  exact ⟨fun h => ⟨hreceived.mp h.2.1,h.2.2.2⟩,fun h => ⟨rfl,hreceived.mpr h.1,rfl,h.2⟩⟩

/-- A key sequence is what the loop reads. -/
theorem csiScan_of_keySequence {body rest : Bytes} {final : UInt8} (h : KeySequence body final) :
    csiScan [] (body++final::rest) = (some (body.filter isParam,final),rest) :=
  (csiScan_eq_some_iff (by simp)).mpr ⟨body,rfl,h.2.1,h.2.2.1,rfl,h.2.2.2.1⟩

theorem sameLog_mouse (s : Bytes) : ¬SameLog (27::91::60::s) :=
  not_sameLog (a := (_,_)) rfl (b := (_,_)) rfl rfl

/-- A sequence agrees when it is a key and what follows agrees. -/
theorem sameLog_csi (c : UInt8) (s : Bytes) :
    SameLog (27::91::c::s) ↔ ∃ body final rest, c::s = body++final::rest ∧
      KeySequence body final ∧ SameLog rest := by
  by_cases hc : c = 60
  · subst hc
    refine ⟨fun h => absurd h (sameLog_mouse s),?_⟩
    rintro ⟨body,final,rest,hs,⟨hhead,-,hfinal,-⟩,-⟩
    cases body with
    | nil =>
        cases hs
        exact absurd hfinal (by decide)
    | cons b body =>
        cases hs
        exact absurd rfl hhead
  have ha : relayKey (27::91::c::s) = some ((((csiScan [] (c::s)).1.bind fun q =>
      relayCsiKey q.1 q.2).getD .keyEsc,0),(csiScan [] (c::s)).2) := rfl
  have hb : termNextEvent (27::91::c::s) = some (keyEvent ((csiScan [] (c::s)).1.bind fun q =>
      termCsiKey q.1 q.2),(csiScan [] (c::s)).2) := by
    simp [termNextEvent,hc]
  have hunique {body rest : Bytes} {final : UInt8} (hs : c::s = body++final::rest)
      (hkey : KeySequence body final) :
      csiScan [] (c::s) = (some (body.filter isParam,final),rest) := by
    rw [hs,csiScan_of_keySequence hkey]
  obtain ⟨read,rest,hscan⟩ : ∃ read rest, csiScan [] (c::s) = (read,rest) := ⟨_,_,rfl⟩
  rw [hscan] at ha hb
  cases read with
  | none =>
      refine ⟨fun h => absurd h (not_sameLog ha hb rfl),?_⟩
      rintro ⟨body,final,rest',hs,hkey,-⟩
      rw [hunique hs hkey] at hscan
      cases hscan
  | some q =>
      obtain ⟨ps,final⟩ := q
      obtain ⟨body,hs,hbody,hfinal,rfl,hlen⟩ := (csiScan_eq_some_iff (by simp)).mp hscan
      rw [List.nil_append] at ha hb hlen hscan
      have hparams : ∀ c ∈ body.filter isParam, isParam c = true :=
        fun c hc => (List.mem_filter.mp hc).2
      rw [Option.bind_some] at ha hb
      simp only [termCsiKey_eq hparams] at hb
      cases hk : relayCsiKey (body.filter isParam) final with
      | none =>
          rw [hk] at ha hb
          refine ⟨fun h => absurd h (not_sameLog ha hb rfl),?_⟩
          rintro ⟨body',final',rest',hs',hkey,-⟩
          have hsame := (hunique hs' hkey).symm.trans hscan
          simp only [Prod.mk.injEq,Option.some.injEq] at hsame
          have hsome := hkey.2.2.2.2
          rw [hsame.1.1,hsame.1.2,hk] at hsome
          cases hsome
      | some k =>
          rw [hk] at ha hb
          rw [sameLog_key ha hb]
          constructor
          · intro h
            refine ⟨body,final,rest,hs,⟨?_,hbody,hfinal,hlen,by rw [hk]; rfl⟩,h⟩
            cases body with
            | nil =>
                intro h
                cases h
            | cons b body =>
                cases hs
                exact fun h => hc (Option.some.inj h)
          · rintro ⟨body',final',rest',hs',hkey,h⟩
            have hsame := (hunique hs' hkey).symm.trans hscan
            rw [Prod.mk.injEq] at hsame
            exact hsame.2 ▸ h

theorem sameLog_ss3 (c : UInt8) (s : Bytes) :
    SameLog (27::79::c::s) ↔ (ss3Key c).isSome ∧ SameLog s := by
  have ha : relayKey (27::79::c::s) = some (((ss3Key c).getD .keyEsc,0),s) := rfl
  have hb : termNextEvent (27::79::c::s) = some (keyEvent (ss3Key c),s) := rfl
  cases hk : ss3Key c with
  | none =>
      rw [hk] at ha hb
      exact ⟨fun h => absurd h (not_sameLog ha hb rfl),fun h => nomatch h.1⟩
  | some k =>
      rw [hk] at ha hb
      rw [sameLog_key ha hb]
      exact ⟨fun h => ⟨rfl,h⟩,fun h => h.2⟩

theorem sameLog_other {c : UInt8} (h₁ : c ≠ 91) (h₂ : c ≠ 79) (s : Bytes) :
    SameLog (27::c::s) ↔ SameLog s := by
  have ha : relayKey (27::c::s) = some ((.keyEsc,0),s) := by simp [relayKey,parseCsi,h₁,h₂]
  have hb : termNextEvent (27::c::s) = some (KeyCode.event .keyEsc,s) := by
    simp [termNextEvent,h₁,h₂]
  exact sameLog_key ha hb

theorem common_iff_sameLog (s : Bytes) : Common s ↔ SameLog s := by
  constructor
  · intro h
    induction h with
    | nil => exact sameLog_nil
    | byte hc _ ih =>
        refine (sameLog_byte ?_ _).mpr ⟨hc,ih⟩
        rintro rfl
        exact absurd hc (by decide)
    | escape => exact (sameLog_key (k := .keyEsc) rfl rfl).mpr sameLog_nil
    | other h₁ h₂ _ ih => exact (sameLog_other h₁ h₂ _).mpr ih
    | ss3End => exact (sameLog_key (k := .keyEsc) rfl rfl).mpr sameLog_nil
    | ss3 hk _ ih => exact (sameLog_ss3 _ _).mpr ⟨hk,ih⟩
    | csiEnd => exact (sameLog_key (k := .keyEsc) rfl rfl).mpr sameLog_nil
    | @csi body final s hkey _ ih =>
        obtain ⟨c,t,hs⟩ : ∃ c t, body++final::s = c::t := by
          cases body with
          | nil => exact ⟨final,s,rfl⟩
          | cons c body => exact ⟨c,_,rfl⟩
        rw [hs]
        exact (sameLog_csi c t).mpr ⟨body,final,s,hs.symm,hkey,ih⟩
  · -- What follows the first key is shorter.
    induction hn : s.length using Nat.strong_induction_on generalizing s with
    | _ n ih =>
        intro h
        match s with
        | [] => exact .nil
        | c::s =>
            rw [List.length_cons] at hn
            by_cases hc : c = 27
            · subst hc
              match s with
              | [] => exact .escape
              | c::s =>
                  rw [List.length_cons] at hn
                  by_cases h₁ : c = 91
                  · subst h₁
                    match s with
                    | [] => exact .csiEnd
                    | c::s =>
                        obtain ⟨body,final,rest,hs,hkey,h⟩ := (sameLog_csi c s).mp h
                        have hlen := congrArg List.length hs
                        rw [hs]
                        simp only [List.length_cons,List.length_append] at hlen hn
                        exact .csi hkey (ih rest.length (by omega) rest rfl h)
                  · by_cases h₂ : c = 79
                    · subst h₂
                      match s with
                      | [] => exact .ss3End
                      | c::s =>
                          obtain ⟨hk,h⟩ := (sameLog_ss3 c s).mp h
                          rw [List.length_cons] at hn
                          exact .ss3 hk (ih s.length (by omega) s rfl h)
                    · exact .other h₁ h₂ (ih s.length (by omega) s rfl ((sameLog_other h₁ h₂ s).mp h))
            · obtain ⟨hbyte,h⟩ := (sameLog_byte hc s).mp h
              exact .byte hbyte (ih s.length (by omega) s rfl h)

/-! ## Both sides -/

theorem sameKeys_iff_sameLog (input : Bytes) : SameKeys input ↔ SameLog input := by
  have hdelivered : ∀ key ∈ (log relayKey input).map Prod.snd, Delivered key := by
    intro key hkey
    obtain ⟨e,he,rfl⟩ := List.mem_map.mp hkey
    obtain ⟨t,r,hr,hevent⟩ := exists_step_of_mem_log he
    rw [hevent]
    exact delivered_relayKey hr
  have hkeys : relayKeys input = (log relayKey input).map fun e => received e.2 := by
    have hmessages := log_messages hdelivered
    rw [List.flatMap_map,List.map_map] at hmessages
    exact hmessages
  have hzip (l : List (Bytes × Event)) : (l.map Prod.fst).zip (l.map Prod.snd) = l := by
    induction l with
    | nil => rfl
    | cons e l ih => rw [List.map_cons,List.map_cons,List.zip_cons_cons,ih]
  unfold SameKeys SameLog termKeys relayTaken
  rw [hkeys]
  constructor
  · rintro ⟨hsnd,hfst⟩
    rw [← hzip ((log relayKey input).map _),← hzip ((log termNextEvent input).filter _),← hsnd,
      ← hfst]
    simp only [List.map_map,Function.comp_def]
  · intro h
    rw [← h]
    simp

/-- The relay and the terminal give the same keys for the same bytes exactly on the
inputs of the common grammar. -/
theorem sameKeys_iff_common (input : Bytes) : SameKeys input ↔ Common input :=
  (sameKeys_iff_sameLog input).trans (common_iff_sameLog input).symm

/-- The arrow key with a modifier, `ESC [ 1 ; 5 A`. -/
theorem modified_arrow_differs :
    ¬SameKeys [27,91,49,59,53,65] ∧ relayKeys [27,91,49,59,53,65] = [KeyCode.event .keyEsc] ∧
      termKeys [27,91,49,59,53,65] = [] := by
  have hrelay : relayKeys [27,91,49,59,53,65] = [KeyCode.event .keyEsc] := by decide +kernel
  have hterm : termKeys [27,91,49,59,53,65] = [] := by decide +kernel
  refine ⟨fun h => ?_,hrelay,hterm⟩
  have hkeys := h.1
  rw [hrelay,hterm] at hkeys
  cases hkeys

end Filly.Keys

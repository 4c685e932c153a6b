import Filly.SessionStore
import Filly.CJsonRoundTrip
import Filly.ClientStream

/-!
# The line a subscriber receives

`store_set` puts key and value between quotes as they are, into a buffer of 512
bytes. The reader undoes escapes that nobody wrote: what it returns is never
longer than the raw text between the quotes, and shorter when there is a
backslash in it. So key and value come back only where they contain nothing the
reader would change and where the whole line fits.
-/
namespace Filly.SessionStore
open CJson

/-! ## The text around key and value -/

def stateHead : Bytes := bytes "\x7b\"type\":\"state\",\"key\":\""
def stateMiddle : Bytes := bytes "\",\"value\":\""
def stateTail : Bytes := bytes "\"\x7d"

theorem stateLine_eq (key value : Bytes) : stateLine key value =
    (stateHead++(key++(stateMiddle++(value++(stateTail++[10]))))).take 511 := by
  simp [stateLine,stateHead,stateMiddle,stateTail,bytes]

theorem length_stateHead : stateHead.length = 23 := rfl

theorem stateHead_eq : stateHead = 123::(stringText (bytes "type")++58::
    (stringText (bytes "state")++44::(stringText (bytes "key")++[58,34]))) := by decide

theorem stateMiddle_eq : stateMiddle = 34::44::(stringText (bytes "value")++[58,34]) := by decide

/-- The reader gets through the fixed beginning. -/
theorem cJSONParse_stateHead (s : Bytes) : ∃ n, s.length ≤ n ∧ cJSONParse (stateHead++s) =
    ((parseString (34::(s++[0]))).bind fun k => afterMember (n+2) 1 (bytes "key")
      (.string k.1,k.2)).map fun r => .object ((bytes "type",.string (bytes "state"))::r.1) := by
  have h₁ : readString (bytes "type") = some (bytes "type") := readString_clean (by decide)
  have h₂ : readString (bytes "state") = some (bytes "state") := readString_clean (by decide)
  have h₃ : readString (bytes "key") = some (bytes "key") := readString_clean (by decide)
  obtain ⟨n,hn⟩ : ∃ n, 2*(stateHead++s).length+2 = n+5 :=
    ⟨2*(stateHead++s).length-3,by rw [List.length_append]; simp [stateHead,bytes]; omega⟩
  refine ⟨n,?_,?_⟩
  · rw [List.length_append,length_stateHead] at hn
    omega
  unfold cJSONParse
  rw [hn,stateHead_eq]
  simp only [List.cons_append,List.append_assoc,List.nil_append]
  rw [skipWhitespace_cons (by decide),parseValue_object,skipWhitespace_stringText]
  have hhead : (stringText (bytes "type")++(58::(stringText (bytes "state")++44::
      (stringText (bytes "key")++58::34::(s++[0]))))).head? ≠ some 125 := by
    simp [stringText]
  rw [if_neg (by norm_num),if_neg hhead,parseMembers_key,h₁,Option.bind_some,
    skipWhitespace_stringText,parseValue_stringText,h₂,Option.map_some,Option.bind_some,
    afterMember_comma,parseMembers_key,h₃,Option.bind_some,skipWhitespace_cons (by decide),
    parseValue_string]
  cases parseString (34::(s++[0])) with
  | none => rfl
  | some k => cases h : afterMember (n+2) 1 (bytes "key") (.string k.1,k.2) <;> simp [h]

/-- One line, and the client's parse of it has exactly
the key and the value that were set. -/
def NotificationRoundTrips (key value : Bytes) : Prop :=
  ∃ text msg, stateLine key value = text++[10] ∧ 10 ∉ text ∧ cJSONParse text = some msg ∧
    (msg.getObjectItem (bytes "type")).bind Json.valuestring = some (bytes "state") ∧
    (msg.getObjectItem (bytes "key")).bind Json.valuestring = some key ∧
    (msg.getObjectItem (bytes "value")).bind Json.valuestring = some value

/-- Nothing that ends a string, starts an escape or ends a line. -/
def Plain (s : Bytes) : Prop := ∀ b ∈ s, b ≠ 34 ∧ b ≠ 92 ∧ b ≠ 10

instance (s : Bytes) : Decidable (Plain s) :=
  List.decidableBAll (fun b => b ≠ 34 ∧ b ≠ 92 ∧ b ≠ 10) s

theorem Plain.notMem {s : Bytes} (h : Plain s) : 34 ∉ s ∧ 92 ∉ s ∧ 10 ∉ s :=
  ⟨fun hm => (h _ hm).1 rfl,fun hm => (h _ hm).2.1 rfl,fun hm => (h _ hm).2.2 rfl⟩

theorem plain_of_notMem {s : Bytes} (h₁ : 34 ∉ s) (h₂ : 92 ∉ s) (h₃ : 10 ∉ s) : Plain s := by
  intro b hb
  refine ⟨?_,?_,?_⟩ <;> rintro rfl
  · exact h₁ hb
  · exact h₂ hb
  · exact h₃ hb

theorem parse_key {s : Bytes} {msg : Json} {key : Bytes} (h : cJSONParse (stateHead++s) = some msg)
    (hk : (msg.getObjectItem (bytes "key")).bind Json.valuestring = some key) :
    ∃ n rest members, parseString (34::(s++[0])) = some (key,rest) ∧
      afterMember (n+2) 1 (bytes "key") (.string key,rest) = some members ∧
      msg = .object ((bytes "type",.string (bytes "state"))::members.1) := by
  obtain ⟨n,-,hn⟩ := cJSONParse_stateHead s
  rw [hn] at h
  obtain ⟨m,hm,rfl⟩ := Option.map_eq_some_iff.mp h
  obtain ⟨k,hp,hm⟩ := Option.bind_eq_some_iff.mp hm
  have hkey : k.1 = key := by
    rcases afterMember_cases hm with ⟨r,-,-,rfl⟩ | ⟨-,rfl⟩ <;> exact Option.some.inj hk
  subst hkey
  exact ⟨n,k.2,m,hp,hm,rfl⟩

/-- A key that came back had no quote and no backslash, so its closing quote is
the one in the middle of the line. -/
theorem key_unchanged {key t rest : Bytes} {n : ℕ} {m : List (Bytes × Json) × Bytes}
    (h : parseString (34::(key++(stateMiddle++t))) = some (key,rest))
    (hm : afterMember n 1 (bytes "key") (.string key,rest) = some m) :
    34 ∉ key ∧ 92 ∉ key ∧ rest = 44::(stringText (bytes "value")++58::34::t) := by
  obtain ⟨raw,hraw,hle,hne⟩ := parseString_split h
  rw [stateMiddle_eq] at hraw
  simp only [List.cons_append,List.append_assoc,List.nil_append] at hraw
  obtain ⟨hsplit,-⟩ := scanString_split hraw
  rcases scanString_quote_cases hraw with hlt | rfl | ⟨u,hu,-⟩
  · omega
  · have := List.append_cancel_left hsplit
    exact ⟨(hne rfl).2,(hne rfl).1,(List.cons.inj this).2.symm⟩
  · rw [scanString_plain (by decide) (by decide)] at hu
    simp only [stringText,List.cons_append] at hu
    rw [scanString_quote,Option.map_some,Option.some.injEq,Prod.mk.injEq] at hu
    have hrest : skipWhitespace rest = rest ∧ rest.head? = some 118 := by
      rw [← hu.2]
      exact ⟨skipWhitespace_cons (by decide) _,rfl⟩
    rcases afterMember_cases hm with ⟨r,h₄₄,-⟩ | ⟨h₁₂₅,-⟩
    · rw [hrest.1,hrest.2] at h₄₄
      cases h₄₄
    · rw [hrest.1,hrest.2] at h₁₂₅
      cases h₁₂₅

/-- The value is parsed right behind the middle. -/
theorem parse_value {n : ℕ} {key t value : Bytes} {m : List (Bytes × Json) × Bytes}
    (hm : afterMember (n+2) 1 (bytes "key")
      (.string key,44::(stringText (bytes "value")++58::34::t)) = some m)
    (hv : ((Json.object ((bytes "type",.string (bytes "state"))::m.1)).getObjectItem
      (bytes "value")).bind Json.valuestring = some value) :
    ∃ rest, parseString (34::t) = some (value,rest) := by
  have hname : readString (bytes "value") = some (bytes "value") := readString_clean (by decide)
  rw [afterMember_comma,parseMembers_key,hname,Option.bind_some,skipWhitespace_cons (by decide),
    parseValue_string] at hm
  obtain ⟨r,hr,rfl⟩ := Option.map_eq_some_iff.mp hm
  obtain ⟨v,hv',hr⟩ := Option.bind_eq_some_iff.mp hr
  obtain ⟨w,hw,rfl⟩ := Option.map_eq_some_iff.mp hv'
  refine ⟨w.2,?_⟩
  have hval : w.1 = value := by
    rcases afterMember_cases hr with ⟨r',-,-,rfl⟩ | ⟨-,rfl⟩ <;> exact Option.some.inj hv
  rw [hw,← hval]

/-- A raw string that ends inside a text is not longer than the text. -/
theorem length_of_parseString {t k rest : Bytes} (h : parseString (34::(t++[0])) = some (k,rest)) :
    k.length ≤ t.length := by
  obtain ⟨raw,hraw,hle,-⟩ := parseString_split h
  have := congrArg List.length (scanString_split hraw).1
  simp only [List.length_append,List.length_cons,List.length_nil] at this
  omega

theorem value_unchanged {value rest : Bytes}
    (h : parseString (34::(value++(stateTail++[0]))) = some (value,rest)) :
    34 ∉ value ∧ 92 ∉ value := by
  obtain ⟨raw,hraw,hle,hne⟩ := parseString_split h
  rcases scanString_quote_cases (show scanString (value++34::[125,0]) = some (raw,rest) from hraw)
    with hlt | rfl | ⟨u,hu,-⟩
  · omega
  · exact ⟨(hne rfl).2,(hne rfl).1⟩
  · simp [scanString] at hu

/-! ## Which notifications come back -/

def stateText (key value : Bytes) : Bytes :=
  stateHead++(key++(stateMiddle++(value++stateTail)))

theorem length_stateText (key value : Bytes) :
    (stateText key value).length = key.length+value.length+36 := by
  have h₁ : stateMiddle.length = 11 := rfl
  have h₂ : stateTail.length = 2 := rfl
  simp only [stateText,List.length_append,length_stateHead,h₁,h₂]
  omega

theorem stateLine_take (key value : Bytes) :
    stateLine key value = (stateText key value++[10]).take 511 := by
  rw [stateLine_eq]
  simp [stateText]

theorem cJSONParse_stateText {key value : Bytes} (hk : Plain key) (hv : Plain value)
    (hk₀ : 0 ∉ key) (hv₀ : 0 ∉ value) :
    cJSONParse (stateText key value) = some (.object [(bytes "type",.string (bytes "state")),
      (bytes "key",.string key),(bytes "value",.string value)]) := by
  have hname : readString (bytes "value") = some (bytes "value") := readString_clean (by decide)
  obtain ⟨n,-,hn⟩ := cJSONParse_stateHead (key++(stateMiddle++(value++stateTail)))
  have htail : stateTail++[0] = 34::[125,0] := rfl
  rw [stateText,hn,stateMiddle_eq]
  simp only [List.append_assoc,List.cons_append,List.nil_append,htail]
  rw [parseString_raw hk.notMem.1 hk.notMem.2.1 hk₀,Option.bind_some,afterMember_comma,
    parseMembers_key,hname,Option.bind_some,skipWhitespace_cons (by decide),parseValue_string,
    parseString_raw hv.notMem.1 hv.notMem.2.1 hv₀,Option.map_some,Option.bind_some,
    afterMember_brace]
  rfl

theorem plain_roundTrips {key value : Bytes} (hk : Plain key) (hv : Plain value) (hk₀ : 0 ∉ key)
    (hv₀ : 0 ∉ value) (hlen : key.length+value.length ≤ 474) :
    NotificationRoundTrips key value := by
  refine ⟨stateText key value,_,?_,?_,cJSONParse_stateText hk hv hk₀ hv₀,rfl,rfl,rfl⟩
  · rw [stateLine_take,List.take_of_length_le]
    rw [List.length_append,length_stateText]
    simp only [List.length_singleton]
    omega
  · have h₁ : 10 ∉ stateHead := by decide
    have h₂ : 10 ∉ stateMiddle := by decide
    have h₃ : 10 ∉ stateTail := by decide
    simp only [stateText,List.mem_append,not_or]
    exact ⟨h₁,hk.notMem.2.2,h₂,hv.notMem.2.2,h₃⟩

/-- The line ends at the first newline there is. -/
theorem eq_of_first_newline {s t u v : Bytes} (h : s++10::t = u++10::v) (hs : 10 ∉ s)
    (hu : 10 ∉ u) : s = u := by
  have := congrArg Client.splitLine h
  rw [Client.splitLine_append hs,Client.splitLine_append hu] at this
  exact (Prod.mk.inj (Option.some.inj this)).1

theorem NotificationRoundTrips.plain {key value : Bytes} (h : NotificationRoundTrips key value) :
    Plain key ∧ Plain value ∧ key.length+value.length ≤ 474 := by
  obtain ⟨text,msg,hline,hnl,hparse,-,hk,hv⟩ := h
  have hhead : 10 ∉ stateHead := by decide
  have hmid : 10 ∉ stateMiddle := by decide
  have htail : 10 ∉ stateTail := by decide
  rw [stateLine_take] at hline
  obtain ⟨more,hwhole⟩ : ∃ more, stateText key value++[10] = text++10::more := by
    refine ⟨(stateText key value++[10]).drop 511,?_⟩
    have := List.take_append_drop 511 (stateText key value++[10])
    rw [hline] at this
    simpa using this.symm
  have hlen : text.length+1 ≤ 511 := by
    have := congrArg List.length hline
    rw [List.length_take,List.length_append,List.length_append,List.length_singleton] at this
    omega
  by_cases hk10 : 10 ∈ key
  · -- The line was cut inside the key.
    obtain ⟨k₁,k₂,rfl,hk₁⟩ := List.eq_append_cons_of_mem hk10
    have htext : text = stateHead++k₁ := by
      refine eq_of_first_newline (t := more) (v := k₂++(stateMiddle++(value++(stateTail++[10]))))
        ?_ hnl (by simp [hhead,hk₁])
      rw [← hwhole]
      simp [stateText]
    rw [htext] at hparse
    obtain ⟨n,rest,m,hkey,-,-⟩ := parse_key hparse hk
    have := length_of_parseString hkey
    simp at this
  by_cases hv10 : 10 ∈ value
  · -- The line was cut inside the value.
    obtain ⟨v₁,v₂,rfl,hv₁⟩ := List.eq_append_cons_of_mem hv10
    have htext : text = stateHead++(key++(stateMiddle++v₁)) := by
      refine eq_of_first_newline (t := more) (v := v₂++(stateTail++[10])) ?_ hnl
        (by simp [hhead,hk10,hmid,hv₁])
      rw [← hwhole]
      simp [stateText]
    rw [htext] at hparse
    obtain ⟨n,rest,m,hkey,hm,rfl⟩ := parse_key hparse hk
    simp only [List.append_assoc] at hkey
    obtain ⟨-,-,rfl⟩ := key_unchanged hkey hm
    obtain ⟨rest',hvalue⟩ := parse_value hm hv
    have := length_of_parseString hvalue
    simp at this
  · have htext : text = stateText key value := by
      refine eq_of_first_newline (t := more) (v := []) hwhole.symm hnl ?_
      simp [stateText,hhead,hk10,hmid,hv10,htail]
    rw [htext,stateText] at hparse
    obtain ⟨n,rest,m,hkey,hm,rfl⟩ := parse_key hparse hk
    simp only [List.append_assoc] at hkey
    obtain ⟨hk₁,hk₂,rfl⟩ := key_unchanged hkey hm
    obtain ⟨rest',hvalue⟩ := parse_value hm hv
    obtain ⟨hv₁,hv₂⟩ := value_unchanged hvalue
    refine ⟨plain_of_notMem hk₁ hk₂ hk10,plain_of_notMem hv₁ hv₂ hv10,?_⟩
    rw [htext,length_stateText] at hlen
    omega

/-- Notifications come back exactly for plain keys and values that together have
at most 474 bytes. -/
theorem notificationRoundTrips_iff (key value : Bytes) (hk : 0 ∉ key) (hv : 0 ∉ value) :
    NotificationRoundTrips key value ↔
      Plain key ∧ Plain value ∧ key.length+value.length ≤ 474 :=
  ⟨NotificationRoundTrips.plain,fun h => plain_roundTrips h.1 h.2.1 hk hv h.2.2⟩

theorem notificationRoundTrips_language :
    (0 ∉ bytes "lang" ∧ 0 ∉ bytes "de") ∧ NotificationRoundTrips (bytes "lang") (bytes "de") :=
  ⟨by decide,(notificationRoundTrips_iff (bytes "lang") (bytes "de") (by decide) (by decide)).mpr
    ⟨by decide,by decide,by decide⟩⟩

/-- A quote in the value ends the string early, and the client has no message. -/
theorem quote_spoils_notification :
    ¬NotificationRoundTrips (bytes "title") (bytes "say \"hi\"") ∧
      (cJSONParse (stateLine (bytes "title") (bytes "say \"hi\"")).dropLast).isNone = true := by
  refine ⟨fun h => ?_,by decide +kernel⟩
  have := h.plain.2.1
  revert this
  decide

end Filly.SessionStore

import Filly.CJsonRoundTrip
import Filly.ClientStream

/-!
# Widget responses as JSON lines

`widget_response_to_json` wraps a result tree into an object of three or four
members. The client finds it again by parsing one line. The error text, which
the client does not look at, travels in the same line and can make it
unreadable.
-/
namespace Filly.Protocol
open CJson Client

structure WidgetResponse where
  result : Option Json
  cancelled : Bool
  error : Option Bytes

/-- `cJSON_AddNullToObject` where there is no result. -/
def WidgetResponse.tree (r : WidgetResponse) : Json := r.result.getD .null

def responseMembers (r : WidgetResponse) : List (Bytes × Json) :=
  [(bytes "type",.string (bytes "response")),(bytes "result",r.tree),
    (bytes "cancelled",.bool r.cancelled)]

def errorMembers (r : WidgetResponse) : List (Bytes × Json) :=
  match r.error with
  | none => []
  | some e => [(bytes "error",.string e)]

def responseObject (r : WidgetResponse) : Json := .object (responseMembers r++errorMembers r)

def widgetResponseToJson (r : WidgetResponse) : Option Bytes :=
  cJSONPrintUnformatted (responseObject r)

/-! ## The line at the client -/

theorem clientProcessBuffer_line (c : FillyClient) {t : Bytes} (h : 10 ∉ t) :
    clientProcessBuffer { c with buf := t++[10] } =
      match classify t with
      | .draw _ => (0,{ c with buf := t++[10] })
      | .response result cancelled =>
          (1,{ c with responseReceived := true, responseResult := result,
                      responseCancelled := cancelled, buf := [] })
      | .other => (0,{ c with buf := [] }) := by
  unfold clientProcessBuffer
  rw [processLoop,splitLine_append h]
  cases hc : classify t <;> simp [hc]

/-- Members read back one by one; names and texts of the code are clean. -/
theorem readBack_response (r : WidgetResponse) :
    readBack 0 (responseObject r) =
      (readBack 1 r.tree).bind fun w => (readMembers 1 (errorMembers r)).map fun es =>
        .object ((bytes "type",.string (bytes "response"))::(bytes "result",w)::
          (bytes "cancelled",.bool r.cancelled)::es) := by
  have hclean : ∀ s ∈ [bytes "type",bytes "response",bytes "result",bytes "cancelled"],
      readString s = some s := by
    intro s hs
    apply readString_clean
    fin_cases hs <;> decide
  have h₁ := hclean (bytes "type") (by simp)
  have h₂ := hclean (bytes "response") (by simp)
  have h₃ := hclean (bytes "result") (by simp)
  have h₄ := hclean (bytes "cancelled") (by simp)
  simp only [responseObject,responseMembers,List.cons_append,List.nil_append,readBack,readMembers,
    h₁,h₂,h₃,h₄,Option.map_some,Option.bind_some]
  cases readBack 1 r.tree with
  | none => rfl
  | some w => cases readMembers 1 (errorMembers r) <;> rfl

/-- What the client makes of a response line. -/
theorem classify_response (r : WidgetResponse) :
    classify (responseObject r).text =
      match (readBack 1 r.tree).bind fun w => (readMembers 1 (errorMembers r)).map fun _ => w with
      | none => .other
      | some w => .response (some w) r.cancelled := by
  have hnul : (responseObject r).text.takeWhile (· ≠ 0) = (responseObject r).text :=
    takeWhile_nul ((printable_text _).notMem (by decide))
  unfold classify
  rw [hnul,cJSONParse_text_nil,readBack_response]
  cases readBack 1 r.tree with
  | none => rfl
  | some w =>
      cases readMembers 1 (errorMembers r) with
      | none => rfl
      | some es => rfl

/-! ## The error text -/

/-- Members that are not the last ones. -/
def printFollowed : List (Bytes × Json) → PrintBuffer → Option PrintBuffer
  | [], p => some p
  | (k,v)::ms, p => do
      let p ← printStringPtr k p
      let p ← emit 1 [58] p
      let p ← printValue v p
      let p ← printComma false p
      printFollowed ms p

theorem printMembers_append (ms : List (Bytes × Json)) (n : Bytes × Json)
    (ns : List (Bytes × Json)) (p : PrintBuffer) :
    printMembers (ms++n::ns) p = (printFollowed ms p).bind (printMembers (n::ns)) := by
  induction ms generalizing p with
  | nil => rfl
  | cons m ms ih =>
      obtain ⟨k,v⟩ := m
      have hlast : (ms++n::ns).isEmpty = false := by cases ms <;> rfl
      simp only [List.cons_append,printMembers,printFollowed,hlast,ih]
      simp only [Option.bind_eq_bind,Option.bind_assoc]

theorem printFollowed_roomy {ms : List (Bytes × Json)}
    (h : ∀ s ∈ membersStrings ms, Clean s ∧ Fits s) {p : PrintBuffer} (hp : p.Roomy) :
    ∃ q, printFollowed ms p = some q ∧ q.Roomy := by
  induction ms generalizing p with
  | nil => exact ⟨p,rfl,hp⟩
  | cons m ms ih =>
      obtain ⟨k,v⟩ := m
      rw [membersStrings] at h
      obtain ⟨p₁,h₁,hp₁⟩ := printStringPtr_roomy hp (h k (by simp))
      obtain ⟨p₂,h₂,hp₂⟩ := emit_roomy (n := 1) (c := [58]) hp₁ (by decide) (by decide)
      obtain ⟨p₃,h₃,hp₃⟩ := printValue_roomy v (fun s hs => h s (by simp [hs])) hp₂
      obtain ⟨p₄,h₄,hp₄⟩ := printComma_roomy false hp₃
      obtain ⟨p₅,h₅,hp₅⟩ := ih (fun s hs => h s (by simp [hs])) hp₄
      refine ⟨p₅,?_,hp₅⟩
      rw [printFollowed]
      simp [h₁,h₂,h₃,h₄,h₅]

theorem roomy_errorMember {k e : Bytes} {p q : PrintBuffer}
    (h : printMembers [(k,.string e)] p = some q) : q.Roomy := by
  simp only [printMembers,printValue,printComma,List.isEmpty_nil,if_true] at h
  obtain ⟨p₁,-,h⟩ := Option.bind_eq_some_iff.mp h
  obtain ⟨p₂,-,h⟩ := Option.bind_eq_some_iff.mp h
  obtain ⟨p₃,h₃,h⟩ := Option.bind_eq_some_iff.mp h
  cases h
  exact roomy_of_emit h₃

/-- The buffer when the error member is about to be printed. -/
def beforeError (r : WidgetResponse) : Option PrintBuffer :=
  (emit 1 [123] ⟨256,[]⟩).bind (printFollowed (responseMembers r))

/-- The error text is printed inside the allocation and its escapes are readable. -/
def ErrorTravels (r : WidgetResponse) : Prop :=
  ∀ e, r.error = some e → (readString e).isSome ∧
    ∀ p, beforeError r = some p → (printMembers [(bytes "error",.string e)] p).isSome

/-- The result tree can be printed and comes back equal. -/
def ResultTravels (r : WidgetResponse) : Prop :=
  (∀ s ∈ r.tree.strings, Clean s ∧ Fits s) ∧ (∀ d ∈ r.tree.numbers, Survives d) ∧
    r.tree.nesting ≤ 999

theorem strings_members {r : WidgetResponse} (h : ∀ s ∈ r.tree.strings, Clean s ∧ Fits s) :
    ∀ s ∈ membersStrings (responseMembers r), Clean s ∧ Fits s := by
  intro s hs
  simp only [responseMembers,membersStrings,Json.strings,List.append_nil,List.mem_cons,
    List.mem_append,List.not_mem_nil,or_false,List.singleton_append] at hs
  obtain rfl | rfl | rfl | hs | rfl := hs
  · exact ⟨by decide,by decide⟩
  · exact ⟨by decide,by decide⟩
  · exact ⟨by decide,by decide⟩
  · exact h s hs
  · exact ⟨by decide,by decide⟩

theorem widgetResponseToJson_eq {r : WidgetResponse}
    (h : ∀ s ∈ r.tree.strings, Clean s ∧ Fits s) (he : ErrorTravels r) :
    widgetResponseToJson r = some (responseObject r).text := by
  have hsome : ∃ t, widgetResponseToJson r = some t := by
    unfold widgetResponseToJson responseObject errorMembers
    cases herr : r.error with
    | none =>
        refine ⟨_,cJSONPrintUnformatted_eq ?_⟩
        simpa [Json.strings] using strings_members h
    | some e =>
        obtain ⟨p₁,h₁,hp₁⟩ := emit_roomy (n := 1) (c := [123]) roomy_initial (by decide) (by decide)
        obtain ⟨p₂,h₂,hp₂⟩ := printFollowed_roomy (strings_members h) hp₁
        have hb : beforeError r = some p₂ := by rw [beforeError,h₁]; exact h₂
        obtain ⟨p₃,h₃⟩ := Option.isSome_iff_exists.mp ((he e herr).2 p₂ hb)
        obtain ⟨p₄,h₄,-⟩ := emit_roomy (n := 2) (c := [125]) (roomy_errorMember h₃) (by decide)
          (by decide)
        refine ⟨p₄.text,?_⟩
        simp [cJSONPrintUnformatted,printValue,printMembers_append,h₁,h₂,h₃,h₄]
  obtain ⟨t,ht⟩ := hsome
  rw [ht,cJSONPrintUnformatted_text ht]

/-! ## Responses come back -/

/-- The text is one line, and a client that reads the line has an equal result
tree and the same flag. -/
def ResponseRoundTrips (r : WidgetResponse) : Prop :=
  ∃ text, widgetResponseToJson r = some text ∧ 10 ∉ text ∧ ∀ c : FillyClient, ∃ c' w,
    clientProcessBuffer { c with buf := text++[10] } = (1,c') ∧
      c'.responseResult = some w ∧ w.Same r.tree ∧ c'.responseCancelled = r.cancelled

theorem readMembers_error_isSome_iff (r : WidgetResponse) :
    (readMembers 1 (errorMembers r)).isSome ↔ ∀ e, r.error = some e → (readString e).isSome := by
  have hname : readString (bytes "error") = some (bytes "error") := readString_clean (by decide)
  unfold errorMembers
  cases r.error with
  | none => simp [readMembers]
  | some e => cases h : readString e <;> simp [readMembers,readBack,hname,h]

theorem printed_parts {r : WidgetResponse} {text : Bytes}
    (h : widgetResponseToJson r = some text) :
    (∀ s ∈ r.tree.strings, Fits s) ∧
      ∀ e p, r.error = some e → beforeError r = some p →
        (printMembers [(bytes "error",.string e)] p).isSome := by
  obtain ⟨q,hq,-⟩ := Option.map_eq_some_iff.mp h
  refine ⟨fun s hs => printValue_fits _ hq s ?_,fun e p he hb => ?_⟩
  · simp [responseObject,responseMembers,Json.strings,membersStrings,hs]
  · unfold responseObject errorMembers at hq
    rw [he,printValue] at hq
    obtain ⟨p₁,h₁,hq⟩ := Option.bind_eq_some_iff.mp hq
    obtain ⟨p₂,h₂,hq⟩ := Option.bind_eq_some_iff.mp hq
    rw [printMembers_append] at h₂
    have hp : printFollowed (responseMembers r) p₁ = some p := by
      rwa [beforeError,h₁,Option.bind_some] at hb
    rw [hp,Option.bind_some] at h₂
    rw [h₂]
    rfl

theorem ResponseRoundTrips.travels {r : WidgetResponse} (h : ResponseRoundTrips r) :
    ResultTravels r ∧ ErrorTravels r := by
  obtain ⟨text,ht,hnl,hc⟩ := h
  obtain ⟨c',w,hproc,hres,hsame,-⟩ := hc {}
  obtain ⟨hfits,hroom⟩ := printed_parts ht
  rw [clientProcessBuffer_line _ hnl,cJSONPrintUnformatted_text ht,classify_response] at hproc
  cases hw : readBack 1 r.tree with
  | none =>
      rw [hw] at hproc
      simp at hproc
  | some v =>
      cases hes : readMembers 1 (errorMembers r) with
      | none =>
          rw [hw,hes] at hproc
          simp at hproc
      | some es =>
          rw [hw,hes] at hproc
          simp only [Option.bind_some,Option.map_some,Prod.mk.injEq,true_and] at hproc
          subst hproc
          cases hres
          obtain ⟨hclean,hnum,hnest⟩ :=
            (readBack_same_iff r.tree (d := 1) (by norm_num)).mp ⟨w,hw,hsame⟩
          refine ⟨⟨fun s hs => ⟨hclean s hs,hfits s hs⟩,hnum,by omega⟩,fun e he => ⟨?_,?_⟩⟩
          · exact (readMembers_error_isSome_iff r).mp (by rw [hes]; rfl) e he
          · exact fun p hp => hroom e p he hp

theorem ResultTravels.roundTrips {r : WidgetResponse} (h : ResultTravels r)
    (herr : ErrorTravels r) : ResponseRoundTrips r := by
  obtain ⟨hstr,hnum,hnest⟩ := h
  refine ⟨_,widgetResponseToJson_eq hstr herr,(printable_text _).notMem (by decide),fun c => ?_⟩
  obtain ⟨w,hw,hsame⟩ := (readBack_same_iff r.tree (d := 1) (by norm_num)).mpr
    ⟨fun s hs => (hstr s hs).1,hnum,by omega⟩
  obtain ⟨es,hes⟩ := Option.isSome_iff_exists.mp
    ((readMembers_error_isSome_iff r).mpr fun e he => (herr e he).1)
  rw [clientProcessBuffer_line c ((printable_text _).notMem (by decide)),classify_response,hw,hes]
  exact ⟨_,w,rfl,rfl,hsame,rfl⟩

/-- A response line carries its result exactly when the tree survives the
printer and the error text does not spoil the line. -/
theorem responseRoundTrips_iff (r : WidgetResponse) :
    ResponseRoundTrips r ↔ ResultTravels r ∧ ErrorTravels r :=
  ⟨ResponseRoundTrips.travels,fun h => h.1.roundTrips h.2⟩

/-- A menu entry that ends in an escape character: its code is cut off by the
closing quote, and the client passes over the line. -/
theorem escape_character_loses_response :
    ¬ResponseRoundTrips ⟨some (.string (bytes "ok"++[27])),false,none⟩ ∧
      (clientProcessBuffer
        { buf := bytes "\x7b\"type\":\"response\",\"result\":\"ok\\u001\",\"cancelled\":false\x7d\n" }).1
        = 0 ∧
      widgetResponseToJson ⟨some (.string (bytes "ok"++[27])),false,none⟩ =
        some (bytes "\x7b\"type\":\"response\",\"result\":\"ok\\u001\",\"cancelled\":false\x7d") := by
  refine ⟨fun h => ?_,by decide +kernel,by decide +kernel⟩
  have hclean := (h.travels.1.1 (bytes "ok"++[27]) (by
    simp [WidgetResponse.tree,Json.strings])).1
  revert hclean
  decide

end Filly.Protocol

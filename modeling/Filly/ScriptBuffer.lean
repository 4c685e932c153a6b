import Filly.Codegen
import Filly.GrowingBuffers

/-!
# The buffer of the generated script

`codegen_fil_script` again, with the block of memory in which the script is put together. Edges
and scripts grow the block with formulas of their own, and behind a script the last byte is
looked at. A script is the first thing in the buffer when no edge has a block; an empty one
then has no last byte.
-/
namespace Filly.ScriptBuffer
open CJson Builder GrowingBuffers

def intMax : ℤ := 2^31-1

/-- `int n = strlen(script)` -/
def lengthInt (text : Bytes) : ℤ := (Int32.ofInt text.length).toInt

/-- `snprintf` has written the block, and returned its length. -/
def appendEdgeBlock (fresh : UInt8) (o : Buffer) (block : Bytes) : Option Buffer := do
  let o ← o.ensure intMax fresh block.length 1
  o.append block block.length

def appendScript (fresh : UInt8) (o : Buffer) (script : Bytes) : Option Buffer := do
  let n := lengthInt script
  let o ← o.ensure intMax fresh n 3
  let o ← o.append (script++[0]) n
  let last ← o.last
  let o ← if last ≠ 10 then o.put 10 else some o
  o.put 10

def scripts (p : BuilderProject) : List Bytes := p.nodes.filterMap GraphNode.checkedScript

/-- Memory that has just been allocated holds any bytes. -/
def codegenFilScript (fresh : UInt8) (p : BuilderProject) : Option Buffer := do
  let o ← Buffer.terminate { block := List.replicate 4096 fresh, cap := 4096, len := 0 }
  let o ← (edgeBlocks p).foldlM (appendEdgeBlock fresh) o
  (scripts p).foldlM (appendScript fresh) o

/-! ## What the script is to be -/

/-- A text that is empty or ends with a newline. -/
def EndsLine (text : Bytes) : Prop := ∀ c ∈ text.getLast?, c = 10

instance (text : Bytes) : Decidable (EndsLine text) :=
  inferInstanceAs (Decidable (∀ c ∈ text.getLast?, c = 10))

/-- The script up to the end of its last line, and a blank line. -/
def terminated (script : Bytes) : Bytes :=
  (if EndsLine script then script else script++[10])++[10]

def scriptText (p : BuilderProject) : Bytes :=
  (edgeBlocks p).flatten++((scripts p).map terminated).flatten

/-- All reads and writes stay inside of the buffer, and it has the whole script in the end. -/
def Assembled (fresh : UInt8) (p : BuilderProject) : Prop :=
  ∃ o, codegenFilScript fresh p = some o ∧ o.Holds (scriptText p)

/-! ## The parts -/

inductive Part where
  | edge (block : Bytes)
  | script (text : Bytes)

def Part.append (fresh : UInt8) (o : Buffer) : Part → Option Buffer
  | .edge block => appendEdgeBlock fresh o block
  | .script text => appendScript fresh o text

def Part.size : Part → ℤ
  | .edge block => block.length
  | .script text => text.length

def Part.spare : Part → ℤ
  | .edge _ => 1
  | .script _ => 3

def Part.text : Part → Bytes
  | .edge block => block
  | .script text => terminated text

def parts (p : BuilderProject) : List Part :=
  (edgeBlocks p).map .edge++(scripts p).map .script

/-- The sums that grow the buffer for the parts stay in `int`. -/
def Sized : ℤ → ℤ → List Part → Prop
  | _, _, [] => True
  | cap, len, part::parts =>
      Grows intMax cap len part.size part.spare ∧
        Sized (grown cap len part.size part.spare) (len+part.text.length) parts

/-- There is something in front of the first script, or in it. -/
def StartsLine (p : BuilderProject) : Prop :=
  edgeBlocks p = [] → ∀ script ∈ (scripts p).head?, script ≠ []

theorem codegenFilScript_eq (fresh : UInt8) (p : BuilderProject) :
    ∃ o, o.Holds [] ∧ o.cap = 4096 ∧
      codegenFilScript fresh p = (parts p).foldlM (Part.append fresh) o := by
  obtain ⟨o,ho,hholds,hcap⟩ := terminate_holds
    (o := { block := List.replicate 4096 fresh, cap := 4096, len := 0 }) [] fresh
    (List.replicate_succ : List.replicate 4096 fresh = fresh::List.replicate 4095 fresh) rfl
    (by rw [List.length_replicate]; rfl)
  refine ⟨o,hholds,hcap,?_⟩
  simp only [codegenFilScript,ho,parts,List.foldlM_append,List.foldlM_map]
  rfl

theorem flatten_parts (p : BuilderProject) : ((parts p).map Part.text).flatten = scriptText p := by
  rw [parts,scriptText,List.map_append,List.flatten_append,List.map_map,List.map_map]
  rw [show Part.text ∘ Part.edge = id from rfl,List.map_id]
  rfl

/-! ## A script -/

theorem lengthInt_eq {text : Bytes} (h : text.length < 2^31) : lengthInt text = text.length := by
  rw [lengthInt,Int32.toInt_ofInt,Int.bmod_def,show ((Int32.size:ℕ):ℤ) = 2^32 from rfl]
  split_ifs <;> omega

/-- A length that is no `int` loses all multiples of 2^32. -/
theorem lengthInt_le {text : Bytes} (h : 2^31 ≤ text.length) :
    lengthInt text+2^32 ≤ text.length := by
  rw [lengthInt,Int32.toInt_ofInt,Int.bmod_def,show ((Int32.size:ℕ):ℤ) = 2^32 from rfl]
  split_ifs <;> omega

theorem terminated_append {text : Bytes} (h : EndsLine text) (script : Bytes) :
    terminated (text++script) = text++terminated script := by
  rcases eq_or_ne script [] with rfl | hne
  · have hnil : EndsLine [] := fun c hc => absurd hc (by simp)
    rw [List.append_nil,terminated,terminated,if_pos h,if_pos hnil,List.nil_append]
  · have hlast : EndsLine (text++script) ↔ EndsLine script := by
      rw [EndsLine,EndsLine,List.getLast?_append_of_ne_nil _ hne]
    by_cases hline : EndsLine script
    · rw [terminated,terminated,if_pos hline,if_pos (hlast.2 hline),List.append_assoc]
    · rw [terminated,terminated,if_neg hline,if_neg (mt hlast.1 hline)]
      simp only [List.append_assoc]

theorem length_terminated (text : Bytes) :
    text.length+1 ≤ (terminated text).length ∧ (terminated text).length ≤ text.length+2 := by
  rw [terminated]
  split_ifs <;> simp

theorem getLast?_terminated (text : Bytes) : (terminated text).getLast? = some 10 :=
  List.getLast?_concat

theorem endsLine_of_getLast? {text : Bytes} (h : text.getLast? = some 10) : EndsLine text := by
  intro c hc
  rw [h] at hc
  exact (Option.some_inj.1 hc).symm

theorem getLast?_append {text more : Bytes} (h : more.getLast? = some 10) :
    (text++more).getLast? = some 10 := by
  rw [List.getLast?_append,h]
  rfl

section
variable {o o' : Buffer} {text script : Bytes} {n : ℕ}

/-- The script is in the buffer. -/
theorem script_copied (fresh : UInt8) (h : o.Holds text) (hcap : 4096 ≤ o.cap)
    (hn : n ≤ script.length) (hgrows : Grows intMax o.cap o.len n 3) :
    ∃ o₁ o₂, o.ensure intMax fresh n 3 = some o₁ ∧ o₁.append (script++[0]) n = some o₂ ∧
      o₂.Holds (text++script.take n) ∧ o₂.cap = grown o.cap o.len n 3 ∧
      (text++script.take n).length+3 ≤ o₂.cap := by
  obtain ⟨o₁,hensure,h₁,hcap₁,hroom⟩ := h.ensure fresh (by omega) (by omega) hgrows
  obtain ⟨o₂,happend,h₂,hcap₂⟩ := h₁.append (script++[0]) (n := n)
    (by rw [List.length_append]; omega) (by omega)
  rw [List.take_append_of_le_length hn] at h₂
  refine ⟨o₁,o₂,hensure,happend,h₂,hcap₂.trans hcap₁,?_⟩
  rw [List.length_append,List.length_take_of_le hn,hcap₂]
  push_cast
  exact hroom

/-- The script is ended, if there is a last byte. -/
theorem appendScript_holds (fresh : UInt8) (h : o.Holds text) (hcap : 4096 ≤ o.cap)
    (hlength : lengthInt script = n) (hn : n ≤ script.length)
    (hgrows : Grows intMax o.cap o.len n 3) (hne : text++script.take n ≠ []) :
    ∃ o', appendScript fresh o script = some o' ∧ o'.Holds (terminated (text++script.take n)) ∧
      o'.cap = grown o.cap o.len n 3 := by
  obtain ⟨o₁,o₂,hensure,happend,h₂,hcap₂,hroom⟩ := script_copied fresh h hcap hn hgrows
  obtain ⟨front,c,ht⟩ : ∃ front c, text++script.take n = front++[c] :=
    (List.eq_nil_or_concat' _).resolve_left hne
  have hlast : o₂.last = some c := by rw [h₂.last,ht,List.getLast?_concat]
  have hline : EndsLine (text++script.take n) ↔ c = 10 := by
    rw [EndsLine,ht,List.getLast?_concat]
    simp
  simp only [appendScript,hlength,hensure,happend,hlast,Option.bind_eq_bind,Option.bind_some,
    terminated,hline]
  by_cases hc : c = 10
  · obtain ⟨o',hput,h',hcap'⟩ := h₂.put 10 (by omega)
    rw [if_neg (not_not.2 hc),if_pos hc]
    exact ⟨o',hput,h',hcap'.trans hcap₂⟩
  · obtain ⟨o₃,hput₃,h₃,hcap₃⟩ := h₂.put 10 (by omega)
    obtain ⟨o',hput,h',hcap'⟩ := h₃.put 10 (by
      rw [hcap₃,List.length_append]
      push_cast
      simp only [List.length_singleton]
      omega)
    rw [if_pos hc,hput₃,Option.bind_some,if_neg hc]
    exact ⟨o',hput,h',(hcap'.trans hcap₃).trans hcap₂⟩

theorem of_appendScript_eq_some {fresh : UInt8} (h : o.Holds text) (hcap : 4096 ≤ o.cap)
    (hscript : appendScript fresh o script = some o') :
    ∃ n : ℕ, lengthInt script = n ∧ n ≤ script.length ∧ Grows intMax o.cap o.len n 3 ∧
      text++script.take n ≠ [] := by
  obtain ⟨o₁,hensure,hscript⟩ := Option.bind_eq_some_iff.1 hscript
  obtain ⟨o₂,happend,hscript⟩ := Option.bind_eq_some_iff.1 hscript
  obtain ⟨last,hlast,-⟩ := Option.bind_eq_some_iff.1 hscript
  have hnonneg : 0 ≤ lengthInt script := by
    by_contra hneg
    obtain ⟨block,hcopy,-⟩ := Option.bind_eq_some_iff.1 happend
    obtain ⟨bs,hread,-⟩ := Option.bind_eq_some_iff.1 hcopy
    rw [CBuffers.readAt,if_neg fun hbounds => hneg hbounds.2.1] at hread
    cases hread
  obtain ⟨n,hn⟩ := Int.eq_ofNat_of_zero_le hnonneg
  have hle : n ≤ script.length := by
    rcases lt_or_ge script.length (2^31) with hlt | hge
    · have heq := lengthInt_eq hlt
      omega
    · have hcut := lengthInt_le hge
      omega
  have hgrows : Grows intMax o.cap o.len n 3 := by
    by_contra hgrows
    rw [hn,ensure_eq_none fresh hgrows] at hensure
    cases hensure
  refine ⟨n,hn,hle,hgrows,fun hnil => ?_⟩
  obtain ⟨o₁',o₂',hensure',happend',h₂,-⟩ := script_copied fresh h hcap hle hgrows
  rw [hn,hensure'] at hensure
  cases hensure
  rw [hn,happend'] at happend
  cases happend
  rw [h₂.last,hnil] at hlast
  cases hlast

/-! ## A run over the parts -/

/-- A block ends with a newline. -/
def Part.Proper : Part → Prop
  | .edge block => block.getLast? = some 10
  | .script _ => True

variable {fresh : UInt8} {part : Part}

theorem Part.Proper.getLast?_text (h : part.Proper) : part.text.getLast? = some 10 := by
  cases part with
  | edge block => exact h
  | script text => exact getLast?_terminated text

theorem Part.size_nonneg (part : Part) : 0 ≤ part.size := by
  cases part <;> exact Int.natCast_nonneg _

theorem le_grown {cap len m spare : ℤ} (hcap : 4096 ≤ cap) (hm : 0 ≤ m) :
    4096 ≤ grown cap len m spare := by
  rw [grown]
  split_ifs <;> omega

theorem append_edge (fresh : UInt8) (h : o.Holds text) (hcap : 4096 ≤ o.cap) (block : Bytes)
    (hgrows : Grows intMax o.cap o.len block.length 1) :
    ∃ o', appendEdgeBlock fresh o block = some o' ∧ o'.Holds (text++block) ∧
      o'.cap = grown o.cap o.len block.length 1 := by
  obtain ⟨o₁,hensure,h₁,hcap₁,hroom⟩ := h.ensure fresh (by omega) (by omega) hgrows
  obtain ⟨o',happend,h',hcap'⟩ := h₁.append block le_rfl hroom
  rw [List.take_length] at h'
  exact ⟨o',by rw [appendEdgeBlock,hensure]; exact happend,h',hcap'.trans hcap₁⟩

/-- A part is added when its sums stay in `int` and there is a last byte. -/
theorem Part.append_holds (fresh : UInt8) (h : o.Holds text) (hcap : 4096 ≤ o.cap) (hline : EndsLine text)
    (hgrows : Grows intMax o.cap o.len part.size part.spare)
    (hstart : text = [] → part ≠ .script []) :
    ∃ o', part.append fresh o = some o' ∧ o'.Holds (text++part.text) ∧
      o'.cap = grown o.cap o.len part.size part.spare := by
  cases part with
  | edge block => exact append_edge fresh h hcap block hgrows
  | script script =>
      have hlt : script.length < 2^31 := by
        have hsum : o.len+script.length+3 ≤ intMax := hgrows.1
        obtain ⟨-,-,hlen,-⟩ := h
        rw [hlen,intMax] at hsum
        omega
      have hne : text++script.take script.length ≠ [] := by
        rw [List.take_length,Ne,List.append_eq_nil_iff]
        rintro ⟨htext,rfl⟩
        exact hstart htext rfl
      obtain ⟨o',happend,h',hcap'⟩ :=
        appendScript_holds fresh h hcap (lengthInt_eq hlt) le_rfl hgrows hne
      rw [List.take_length,terminated_append hline] at h'
      exact ⟨o',happend,h',hcap'⟩

/-- What is added is never longer than the part, and is the part when it is as long. -/
theorem Part.of_append_eq_some (h : o.Holds text) (hcap : 4096 ≤ o.cap) (hline : EndsLine text)
    (hproper : part.Proper) (happend : part.append fresh o = some o') :
    ∃ text', o'.Holds text' ∧ text'.getLast? = some 10 ∧ 4096 ≤ o'.cap ∧
      text'.length ≤ (text++part.text).length ∧
      ((text++part.text).length ≤ text'.length → text' = text++part.text ∧
        Grows intMax o.cap o.len part.size part.spare ∧ (text = [] → part ≠ .script []) ∧
        o'.cap = grown o.cap o.len part.size part.spare) := by
  cases part with
  | edge block =>
      have hgrows : Grows intMax o.cap o.len block.length 1 := by
        by_contra hgrows
        have hnone := ensure_eq_none fresh hgrows
        obtain ⟨_,hensure,-⟩ := Option.bind_eq_some_iff.1 happend
        rw [hnone] at hensure
        cases hensure
      obtain ⟨o₁,happend₁,h₁,hcap₁⟩ := append_edge fresh h hcap block hgrows
      rw [Part.append,happend₁] at happend
      cases happend
      refine ⟨text++block,h₁,getLast?_append hproper,?_,le_rfl,fun _ =>
        ⟨rfl,hgrows,fun _ => Part.noConfusion,hcap₁⟩⟩
      rw [hcap₁]
      exact le_grown hcap (Int.natCast_nonneg _)
  | script script =>
      obtain ⟨n,hlength,hle,hgrows,hne⟩ := of_appendScript_eq_some h hcap happend
      obtain ⟨o₁,happend₁,h₁,hcap₁⟩ := appendScript_holds fresh h hcap hlength hle hgrows hne
      rw [Part.append,happend₁] at happend
      cases happend
      rw [terminated_append hline] at h₁
      have hcap' : 4096 ≤ o'.cap := by
        rw [hcap₁]
        exact le_grown hcap (Int.natCast_nonneg _)
      refine ⟨_,h₁,getLast?_append (getLast?_terminated _),hcap',?_,?_⟩
      all_goals rw [List.length_append,List.length_append,Part.text]
      all_goals have hshort := length_terminated (script.take n)
      all_goals have hlong := length_terminated script
      all_goals rw [List.length_take_of_le hle] at hshort
      all_goals rcases lt_or_ge script.length (2^31) with hlt | hge
      · have hfull := lengthInt_eq hlt
        have heq : n = script.length := by omega
        rw [heq,List.take_length]
      · have hcut := lengthInt_le hge
        omega
      · have hfull := lengthInt_eq hlt
        have heq : n = script.length := by omega
        subst heq
        rw [List.take_length] at hne ⊢
        refine fun _ => ⟨rfl,hgrows,fun htext hempty => ?_,hcap₁⟩
        cases hempty
        exact hne (by rw [htext]; rfl)
      · have hcut := lengthInt_le hge
        intro hlen
        omega

/-- All parts are added. -/
theorem parts_append_holds (fresh : UInt8) {parts : List Part} (h : o.Holds text) (hcap : 4096 ≤ o.cap)
    (hline : EndsLine text) (hproper : ∀ part ∈ parts, part.Proper)
    (hsized : Sized o.cap o.len parts) (hstart : text = [] → parts.head? ≠ some (.script [])) :
    ∃ o', parts.foldlM (Part.append fresh) o = some o' ∧
      o'.Holds (text++(parts.map Part.text).flatten) := by
  induction parts generalizing o text with
  | nil => exact ⟨o,rfl,by simpa using h⟩
  | cons part parts ih =>
      rw [List.forall_mem_cons] at hproper
      obtain ⟨o₁,happend,h₁,hcap₁⟩ := Part.append_holds fresh h hcap hline hsized.1
        fun htext hpart => hstart htext (by rw [hpart]; rfl)
      have hlast : (text++part.text).getLast? = some 10 := getLast?_append hproper.1.getLast?_text
      have hlen : o₁.len = o.len+part.text.length := by
        rw [h₁.len_eq,h.len_eq,List.length_append]
        push_cast
        rfl
      have hrest : Sized o₁.cap o₁.len parts := by
        rw [hcap₁,hlen]
        exact hsized.2
      obtain ⟨o',hrun,h'⟩ := ih h₁ (by rw [hcap₁]; exact le_grown hcap part.size_nonneg)
        (endsLine_of_getLast? hlast) hproper.2 hrest fun hnil => by rw [hnil] at hlast; cases hlast
      refine ⟨o',by rw [List.foldlM_cons,happend]; exact hrun,?_⟩
      rwa [List.map_cons,List.flatten_cons,← List.append_assoc]

/-- A run never has more than the texts of the parts, and fits when it has as much. -/
theorem of_parts_append_eq_some {parts : List Part} (h : o.Holds text) (hcap : 4096 ≤ o.cap)
    (hline : EndsLine text) (hproper : ∀ part ∈ parts, part.Proper)
    (hrun : parts.foldlM (Part.append fresh) o = some o') :
    ∃ text', o'.Holds text' ∧ text'.length ≤ (text++(parts.map Part.text).flatten).length ∧
      ((text++(parts.map Part.text).flatten).length ≤ text'.length →
        Sized o.cap o.len parts ∧ (text = [] → parts.head? ≠ some (.script []))) := by
  induction parts generalizing o text with
  | nil =>
      cases hrun
      exact ⟨text,h,by simp,fun _ => ⟨trivial,fun _ => by simp⟩⟩
  | cons part parts ih =>
      rw [List.forall_mem_cons] at hproper
      obtain ⟨o₁,happend,hrest⟩ := Option.bind_eq_some_iff.1 hrun
      obtain ⟨text₁,h₁,hlast,hcap₁,hle,hfull⟩ :=
        Part.of_append_eq_some h hcap hline hproper.1 happend
      obtain ⟨text',h',hle',hfull'⟩ :=
        ih h₁ hcap₁ (endsLine_of_getLast? hlast) hproper.2 hrest
      simp only [List.length_append] at hle hfull hle' hfull'
      simp only [List.map_cons,List.flatten_cons,List.length_append,List.head?_cons]
      refine ⟨text',h',by omega,fun hlen => ?_⟩
      obtain ⟨rfl,hgrows,hstart,hcap'⟩ := hfull (by omega)
      obtain ⟨hsized,-⟩ := hfull' (by rw [List.length_append] at hle' ⊢; omega)
      refine ⟨⟨hgrows,?_⟩,fun htext hpart => hstart htext (Option.some_inj.1 hpart)⟩
      have hlen₁ : o₁.len = o.len+part.text.length := by
        rw [h₁.len_eq,h.len_eq,List.length_append]
        push_cast
        rfl
      rwa [hcap',hlen₁] at hsized

end

/-! ## The script of a project -/

theorem getLast?_template (t : Template) : t.text.getLast? = some 10 := by
  cases t with
  | when guard action => exact getLast?_append (by decide)
  | note => exact getLast?_append (by decide)

theorem getLast?_edgeBlock {p : BuilderProject} {block : Bytes} (hblock : block ∈ edgeBlocks p) :
    block.getLast? = some 10 := by
  obtain ⟨e,-,he⟩ := List.mem_filterMap.1 hblock
  obtain ⟨w,-,hw⟩ := Option.bind_eq_some_iff.1 he
  split_ifs at hw
  cases hw
  exact getLast?_template _

theorem parts_proper (p : BuilderProject) : ∀ part ∈ parts p, part.Proper := by
  rw [parts,List.forall_mem_append,List.forall_mem_map,List.forall_mem_map]
  exact ⟨fun _ hblock => getLast?_edgeBlock hblock,fun _ _ => trivial⟩

theorem startsLine_iff (p : BuilderProject) :
    StartsLine p ↔ (parts p).head? ≠ some (.script []) := by
  rw [StartsLine,parts]
  cases edgeBlocks p with
  | nil => cases scripts p <;> simp
  | cons => simp

theorem endsLine_nil : EndsLine [] := fun _ hc => by cases hc

theorem Assembled.fits {fresh : UInt8} {p : BuilderProject} (h : Assembled fresh p) :
    StartsLine p ∧ Sized 4096 0 (parts p) := by
  obtain ⟨o,ho,hcap,hrun⟩ := codegenFilScript_eq fresh p
  obtain ⟨o',ho',h'⟩ := h
  rw [hrun] at ho'
  obtain ⟨text',htext',-,hfull⟩ :=
    of_parts_append_eq_some ho hcap.ge endsLine_nil (parts_proper p) ho'
  obtain ⟨hsized,hstart⟩ := hfull (by rw [← h'.unique htext',← flatten_parts]; rfl)
  rw [hcap,ho.len_eq] at hsized
  exact ⟨(startsLine_iff p).2 (hstart rfl),hsized⟩

theorem assembled_of_fits {p : BuilderProject} (fresh : UInt8) (hstart : StartsLine p)
    (hsized : Sized 4096 0 (parts p)) : Assembled fresh p := by
  obtain ⟨o,h,hcap,hrun⟩ := codegenFilScript_eq fresh p
  have hlen : o.len = 0 := h.len_eq
  rw [← hcap,← hlen] at hsized
  obtain ⟨o',ho',h'⟩ := parts_append_holds fresh h hcap.ge endsLine_nil
    (parts_proper p) hsized fun _ => (startsLine_iff p).1 hstart
  rw [flatten_parts] at h'
  exact ⟨o',hrun.trans ho',h'⟩

/-- The script is put together within its buffer exactly when something stands before an empty
first script and the sizes are sizes of type `int`. -/
theorem script_assembled_iff (fresh : UInt8) (p : BuilderProject) :
    Assembled fresh p ↔ StartsLine p ∧ Sized 4096 0 (parts p) :=
  ⟨Assembled.fits,fun h => assembled_of_fits fresh h.1 h.2⟩

/-- One node, with an empty script. -/
def emptyScript : BuilderProject :=
  { projectNew none 80 24 with
    nodes := [{ id := 1, type := .filBlock, label := [97], widgetId := 0, storeKey := none,
                filScript := some [], ports := [] }] }

theorem empty_script_is_not_assembled : ¬Assembled 0 emptyScript := by
  intro h
  exact h.fits.1 rfl [] rfl rfl

/-! ## Sizes that are sure to fit -/

theorem Part.size_le (part : Part) : part.size ≤ part.text.length := by
  cases part with
  | edge block => exact le_rfl
  | script text =>
      have h := length_terminated text
      rw [Part.size,Part.text]
      omega

theorem Part.spare_le (part : Part) : part.spare ≤ 3 := by
  cases part
  · exact (by decide : (1:ℤ) ≤ 3)
  · exact le_rfl

theorem sized_of_small {cap len : ℤ} {parts : List Part} (hlen : 0 ≤ len)
    (h : 3*(len+(parts.map Part.text).flatten.length)+4 ≤ intMax) : Sized cap len parts := by
  induction parts generalizing cap len with
  | nil => trivial
  | cons part parts ih =>
      have hsize := part.size_le
      have hspare := part.spare_le
      have hnonneg := part.size_nonneg
      rw [List.map_cons,List.flatten_cons,List.length_append,Nat.cast_add] at h
      have hrest : 3*(len+part.text.length+(parts.map Part.text).flatten.length)+4 ≤ intMax := by
        rwa [add_assoc len]
      refine ⟨⟨by omega,fun _ => by omega⟩,ih (by omega) hrest⟩

/-- A script of less than 700 million bytes fits. -/
theorem assembled_of_small {p : BuilderProject} (fresh : UInt8) (hstart : StartsLine p)
    (h : (scriptText p).length < 700000000) : Assembled fresh p := by
  refine assembled_of_fits fresh hstart (sized_of_small le_rfl ?_)
  rw [flatten_parts,intMax]
  omega

/-! ## The script without its buffer -/

theorem appendScripts_eq (before : UInt8) {out : Bytes} (nodes : List GraphNode)
    (hline : EndsLine out)
    (hstart : out = [] → ∀ script ∈ (nodes.filterMap GraphNode.checkedScript).head?, script ≠ []) :
    appendScripts before out nodes =
      out++((nodes.filterMap GraphNode.checkedScript).map terminated).flatten := by
  induction nodes generalizing out with
  | nil => simp [appendScripts]
  | cons node nodes ih =>
      cases hscript : node.checkedScript with
      | none =>
          rw [List.filterMap_cons_none hscript] at hstart ⊢
          rw [appendScripts,hscript]
          exact ih hline hstart
      | some script =>
          rw [List.filterMap_cons_some hscript] at hstart ⊢
          have hne : out++script ≠ [] := by
            rw [Ne,List.append_eq_nil_iff]
            rintro ⟨hout,rfl⟩
            exact hstart hout _ rfl rfl
          have hended : (if (out++script).getLastD before ≠ 10 then out++script++[10]
              else out++script)++[10] = terminated (out++script) := by
            obtain ⟨front,c,hc⟩ := (List.eq_nil_or_concat' _).resolve_left hne
            have hends : EndsLine (front++[c]) ↔ c = 10 := by
              rw [EndsLine,List.getLast?_concat]
              simp
            rw [hc,terminated,List.getLastD_concat]
            simp only [hends,ne_eq,ite_not]
          rw [appendScripts,hscript]
          simp only [hended]
          rw [ih (endsLine_of_getLast? (getLast?_terminated _)) fun h =>
            absurd h (List.concat_ne_nil _ _),terminated_append hline,List.map_cons,
            List.flatten_cons,List.append_assoc]

theorem edgeBlocks_ends (p : BuilderProject) :
    edgeBlocks p = [] ∨ (edgeBlocks p).flatten.getLast? = some 10 := by
  rcases List.eq_nil_or_concat' (edgeBlocks p) with hnil | ⟨front,block,hblocks⟩
  · exact Or.inl hnil
  · have hlast : block.getLast? = some 10 := getLast?_edgeBlock (p := p) (by rw [hblocks]; simp)
    rw [hblocks,List.flatten_append,List.flatten_singleton]
    exact Or.inr (getLast?_append hlast)

/-- The script is the one that the lists give. -/
theorem codegenFilScript_eq_scriptText {p : BuilderProject} (h : StartsLine p) (before : UInt8) :
    Builder.codegenFilScript before p = scriptText p := by
  rw [Builder.codegenFilScript,scriptText]
  rcases edgeBlocks_ends p with hnil | hlast
  · rw [hnil]
    exact appendScripts_eq before p.nodes endsLine_nil fun _ => h hnil
  · exact appendScripts_eq before p.nodes (endsLine_of_getLast? hlast)
      fun hnil => by rw [hnil] at hlast; cases hlast

end Filly.ScriptBuffer

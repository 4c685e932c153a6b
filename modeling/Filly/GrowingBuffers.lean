import Filly.CBuffers

/-!
# Buffers that grow

A text is collected in an allocated block, with a count of its bytes and a null byte behind
them. Before something is added the block is made larger when it has no room: it doubles, and
a bit more. The sizes are numbers of a bounded type, and a sum beyond the bound is undefined.
-/
namespace Filly.GrowingBuffers
open CBuffers

structure Buffer where
  block : List UInt8
  cap : ℤ
  len : ℤ

/-- The buffer has a text, and the capacity that it says. -/
def Buffer.Holds (o : Buffer) (text : List UInt8) : Prop :=
  ∃ rest, o.block = text++0::rest ∧ o.len = text.length ∧ o.cap = o.block.length

/-- A sum in a type that ends at a limit. -/
def upTo (limit n : ℤ) : Option ℤ := if n ≤ limit then some n else none

/-- `out[len] = '\0'` -/
def Buffer.terminate (o : Buffer) : Option Buffer :=
  (writeAt o.block o.len [0]).map fun block => { o with block }

/-- Room for so many bytes, and some to spare. -/
def Buffer.ensure (limit : ℤ) (fresh : UInt8) (n spare : ℤ) (o : Buffer) : Option Buffer := do
  let needed ← upTo limit (o.len+n+spare)
  if o.cap < needed then
    let doubled ← upTo limit (o.cap*2)
    let cap ← upTo limit (doubled+n)
    some { o with block := realloc fresh o.block cap, cap }
  else some o

/-- `memcpy(out+len,src,n)`, and the null byte behind it. -/
def Buffer.append (src : List UInt8) (n : ℤ) (o : Buffer) : Option Buffer := do
  let block ← memcpy o.block o.len src 0 n
  Buffer.terminate { o with block, len := o.len+n }

/-- `out[len++] = c` -/
def Buffer.put (c : UInt8) (o : Buffer) : Option Buffer := do
  let block ← writeAt o.block o.len [c]
  Buffer.terminate { o with block, len := o.len+1 }

/-- `out[len-1]` -/
def Buffer.last (o : Buffer) : Option UInt8 := (readAt o.block (o.len-1) 1).bind List.head?

/-- The sums of a growth stay below the limit. -/
def Grows (limit cap len n spare : ℤ) : Prop :=
  len+n+spare ≤ limit ∧ (cap < len+n+spare → cap*2+n ≤ limit)

def grown (cap len n spare : ℤ) : ℤ := if cap < len+n+spare then cap*2+n else cap

section
variable {o : Buffer} {text : List UInt8}

theorem Buffer.Holds.len_lt (h : o.Holds text) : (text.length:ℤ) < o.cap := by
  obtain ⟨rest,hblock,-,hcap⟩ := h
  rw [hcap,hblock,List.length_append,List.length_cons]
  omega

theorem Buffer.Holds.len_eq (h : o.Holds text) : o.len = text.length := by
  obtain ⟨_,-,hlen,-⟩ := h
  exact hlen

theorem Buffer.Holds.read (h : o.Holds text) : readAt o.block 0 o.len = some text := by
  obtain ⟨rest,hblock,hlen,-⟩ := h
  rw [hblock,hlen]
  exact readAt_append [] text (0::rest)

theorem Buffer.Holds.unique (h : o.Holds text) {text' : List UInt8} (h' : o.Holds text') :
    text = text' := by
  have hread := h.read
  rw [h'.read] at hread
  exact (Option.some_inj.1 hread).symm

/-- A null byte is put behind the text. -/
theorem terminate_holds (text : List UInt8) {rest : List UInt8} (c : UInt8)
    (hblock : o.block = text++c::rest) (hlen : o.len = text.length) (hcap : o.cap = o.block.length) :
    ∃ o', o.terminate = some o' ∧ o'.Holds text ∧ o'.cap = o.cap := by
  have hwrite : writeAt o.block o.len [0] = some (text++0::rest) := by
    rw [hblock,hlen]
    have h := writeAt_append (b := [c]) text rest (m := [0]) rfl
    simpa using h
  refine ⟨{ o with block := text++0::rest },by rw [Buffer.terminate,hwrite]; rfl,
    ⟨rest,rfl,hlen,?_⟩,rfl⟩
  rw [hcap,hblock,List.length_append,List.length_append]
  rfl

theorem Buffer.Holds.ensure (h : o.Holds text) {limit n spare : ℤ} (fresh : UInt8) (hn : 0 ≤ n)
    (hspare : spare ≤ o.cap+1) (hgrows : Grows limit o.cap o.len n spare) :
    ∃ o', o.ensure limit fresh n spare = some o' ∧ o'.Holds text ∧
      o'.cap = grown o.cap o.len n spare ∧ text.length+n+spare ≤ o'.cap := by
  have hlt := h.len_lt
  obtain ⟨rest,hblock,hlen,hcap⟩ := h
  have hneeded : upTo limit (o.len+n+spare) = some (o.len+n+spare) := if_pos hgrows.1
  rw [Buffer.ensure,hneeded,grown]
  simp only [Option.bind_eq_bind,Option.bind_some]
  by_cases hfull : o.cap < o.len+n+spare
  · have hlimit := hgrows.2 hfull
    have hdoubled : upTo limit (o.cap*2) = some (o.cap*2) := if_pos (by omega)
    have hsum : upTo limit (o.cap*2+n) = some (o.cap*2+n) := if_pos hlimit
    obtain ⟨c,hc,hclen⟩ := realloc_text fresh text rest (n := o.cap*2+n) (by omega)
    rw [if_pos hfull,if_pos hfull,hdoubled,Option.bind_some,hsum,Option.bind_some,hblock,hc]
    have hlength : o.cap*2+n = ((text++0::c).length:ℕ) := by
      rw [List.length_append,List.length_cons]
      push_cast
      omega
    have hroom : text.length+n+spare ≤ o.cap*2+n := by omega
    exact ⟨_,rfl,⟨c,rfl,hlen,hlength⟩,rfl,hroom⟩
  · rw [if_neg hfull,if_neg hfull]
    exact ⟨o,rfl,⟨rest,hblock,hlen,hcap⟩,rfl,by omega⟩

theorem ensure_eq_none {limit n spare : ℤ} (fresh : UInt8)
    (h : ¬Grows limit o.cap o.len n spare) : o.ensure limit fresh n spare = none := by
  rw [Grows,not_and] at h
  rw [Buffer.ensure]
  by_cases hneeded : o.len+n+spare ≤ limit
  · obtain ⟨hfull,hlimit⟩ := Classical.not_imp.1 (h hneeded)
    simp only [upTo,if_pos hneeded,Option.bind_eq_bind,Option.bind_some,if_pos hfull]
    by_cases hdoubled : o.cap*2 ≤ limit
    · rw [if_pos hdoubled,Option.bind_some,if_neg hlimit,Option.bind_none]
    · rw [if_neg hdoubled,Option.bind_none]
  · rw [upTo,if_neg hneeded]
    rfl

/-- Bytes are added where there is room for them and the null byte. -/
theorem Buffer.Holds.append (h : o.Holds text) (src : List UInt8) {n : ℕ} (hn : n ≤ src.length)
    (hroom : text.length+n+1 ≤ o.cap) :
    ∃ o', o.append src n = some o' ∧ o'.Holds (text++src.take n) ∧ o'.cap = o.cap := by
  obtain ⟨rest,hblock,hlen,hcap⟩ := h
  rw [hcap,hblock,List.length_append,List.length_cons] at hroom
  have hread : readAt src 0 n = some (src.take n) := by
    rw [readAt,if_pos (by omega)]
    simp
  have htake : (src.take n).length = n := List.length_take_of_le hn
  have hsplit : o.block = text++(0::rest).take n++(0::rest).drop n := by
    rw [List.append_assoc,List.take_append_drop,hblock]
  have hwrite : memcpy o.block o.len src 0 n = some (text++src.take n++(0::rest).drop n) := by
    rw [memcpy,hread,Option.bind_some,hsplit,hlen]
    apply writeAt_append
    rw [htake,List.length_take_of_le]
    rw [List.length_cons]
    omega
  obtain ⟨c,left,hleft⟩ : ∃ c left, (0::rest).drop n = c::left := by
    apply List.exists_cons_of_length_pos
    rw [List.length_drop,List.length_cons]
    omega
  rw [hleft] at hwrite
  obtain ⟨o',hterminate,hholds,hcap'⟩ := terminate_holds (o := { o with
    block := text++src.take n++c::left, len := o.len+n }) (text++src.take n) c rfl
    (by simp only [List.length_append,htake,hlen]; push_cast; rfl) (by
      have hlength := congrArg List.length hsplit
      rw [hleft] at hlength
      simp only [List.length_append,htake,List.length_take,List.length_cons] at hlength ⊢
      omega)
  exact ⟨o',by rw [Buffer.append,hwrite]; exact hterminate,hholds,hcap'⟩

theorem Buffer.Holds.put (h : o.Holds text) (c : UInt8) (hroom : text.length+2 ≤ o.cap) :
    ∃ o', o.put c = some o' ∧ o'.Holds (text++[c]) ∧ o'.cap = o.cap := by
  obtain ⟨rest,hblock,hlen,hcap⟩ := h
  obtain ⟨d,rest,rfl⟩ : ∃ d rest', rest = d::rest' := by
    apply List.exists_cons_of_length_pos
    rw [hcap,hblock,List.length_append,List.length_cons] at hroom
    omega
  have hwrite : writeAt o.block o.len [c] = some (text++[c]++d::rest) := by
    rw [hblock,hlen]
    have h := writeAt_append (b := [0]) text (d::rest) (m := [c]) rfl
    simpa using h
  obtain ⟨o',hterminate,hholds,hcap'⟩ := terminate_holds (o := { o with
    block := text++[c]++d::rest, len := o.len+1 }) (text++[c]) d rfl
    (by simp [hlen]) (by rw [hcap,hblock]; simp)
  exact ⟨o',by rw [Buffer.put,hwrite]; exact hterminate,hholds,hcap'⟩

/-- There is a last byte if there is any. -/
theorem Buffer.Holds.last (h : o.Holds text) : o.last = text.getLast? := by
  obtain ⟨rest,hblock,hlen,-⟩ := h
  rw [Buffer.last,hblock,hlen]
  rcases List.eq_nil_or_concat' text with rfl | ⟨front,c,rfl⟩
  · rfl
  · have hread : readAt (front++[c]++0::rest) front.length 1 = some [c] :=
      readAt_append front [c] (0::rest)
    have hsub : ((front++[c]).length:ℤ)-1 = front.length := by simp
    rw [hsub,hread]
    simp

end

end Filly.GrowingBuffers

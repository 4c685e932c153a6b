import Mathlib.Tactic

/-!
# Blocks of allocated memory

A block is a list of bytes, or of other elements of one size. Reading and writing name an
offset and a length as a program gives them, which may be negative; what leaves the block
is undefined. A text ends before the first null byte.
-/
namespace Filly.CBuffers

variable {α : Type*}

/-- The elements from an offset on. -/
def readAt (block : List α) (i n : ℤ) : Option (List α) :=
  if 0 ≤ i ∧ 0 ≤ n ∧ i+n ≤ block.length then some ((block.drop i.toNat).take n.toNat) else none

/-- The block with other elements from an offset on. -/
def writeAt (block : List α) (i : ℤ) (bs : List α) : Option (List α) :=
  if 0 ≤ i ∧ i+bs.length ≤ block.length then
    some (block.take i.toNat++bs++block.drop (i.toNat+bs.length))
  else none

/-- `memcpy` and, within one block, `memmove`. -/
def memcpy (dest : List α) (i : ℤ) (src : List α) (j n : ℤ) : Option (List α) :=
  (readAt src j n).bind (writeAt dest i)

/-- `realloc`: what there is of the first elements, and fresh ones. -/
def realloc (fresh : α) (block : List α) (n : ℤ) : List α :=
  block.take n.toNat++List.replicate (n.toNat-block.length) fresh

/-- The text that begins at an offset. -/
def textAt (block : List UInt8) (i : ℤ) : Option (List UInt8) :=
  if 0 ≤ i ∧ 0 ∈ block.drop i.toNat then some ((block.drop i.toNat).takeWhile (· ≠ 0)) else none

def strlen (block : List UInt8) (i : ℤ) : Option ℤ :=
  (textAt block i).map fun text => (text.length : ℤ)

def strcat (dest src : List UInt8) : Option (List UInt8) := do
  let n ← strlen dest 0
  let text ← textAt src 0
  writeAt dest n (text++[0])

theorem readAt_append (a b c : List α) :
    readAt (a++b++c) a.length b.length = some b := by
  have hbound : (0:ℤ) ≤ a.length ∧ (0:ℤ) ≤ b.length ∧
      (a.length:ℤ)+b.length ≤ ((a++b++c).length:ℕ) := by
    simp only [List.length_append]
    omega
  rw [readAt,if_pos hbound,Int.toNat_natCast,Int.toNat_natCast,List.append_assoc,List.drop_left,
    List.take_left]

theorem writeAt_append (a c : List α) {b m : List α} (h : m.length = b.length) :
    writeAt (a++b++c) a.length m = some (a++m++c) := by
  have hbound : (0:ℤ) ≤ a.length ∧ (a.length:ℤ)+m.length ≤ ((a++b++c).length:ℕ) := by
    simp only [List.length_append]
    omega
  have htake : (a++b++c).take a.length = a := by rw [List.append_assoc,List.take_left]
  have hdrop : (a++b++c).drop (a.length+b.length) = c := by
    rw [← List.length_append,List.drop_left]
  rw [writeAt,if_pos hbound,Int.toNat_natCast,h,htake,hdrop]

/-- What is written is put over as much of what was there. -/
theorem writeAt_room (a b m : List α) (h : m.length ≤ b.length) :
    writeAt (a++b) a.length m = some (a++m++b.drop m.length) := by
  have hsplit : a++b = a++b.take m.length++b.drop m.length := by
    rw [List.append_assoc,List.take_append_drop]
  rw [hsplit]
  exact writeAt_append a _ (List.length_take_of_le h).symm

theorem writeAt_isSome_iff {block bs : List α} {i : ℕ} :
    (writeAt block i bs).isSome ↔ i+bs.length ≤ block.length := by
  unfold writeAt
  split_ifs with h
  · exact iff_of_true rfl (by omega)
  · exact iff_of_false Bool.false_ne_true (by omega)

theorem length_of_writeAt {block bs block' : List α} {i : ℕ}
    (h : writeAt block i bs = some block') : block'.length = block.length := by
  have hroom : i+bs.length ≤ block.length := writeAt_isSome_iff.1 (by rw [h]; rfl)
  unfold writeAt at h
  split_ifs at h
  cases h
  simp only [List.length_append,List.length_take,List.length_drop,Int.toNat_natCast]
  omega

theorem length_realloc (fresh : α) (block : List α) (n : ℕ) :
    (realloc fresh block n).length = n := by
  simp only [realloc,List.length_append,List.length_take,List.length_replicate,Int.toNat_natCast]
  omega

theorem takeWhile_nonzero {t : List UInt8} (h : 0 ∉ t) (s : List UInt8) :
    (t++0::s).takeWhile (· ≠ 0) = t := by
  induction t with
  | nil => rfl
  | cons c t ih =>
      have hc : c ≠ 0 := fun hc => h (hc ▸ List.mem_cons_self)
      rw [List.cons_append,List.takeWhile_cons_of_pos (by simpa using hc),
        ih fun ht => h (List.mem_cons_of_mem _ ht)]

theorem textAt_append (a : List UInt8) {t : List UInt8} (h : 0 ∉ t) (s : List UInt8) :
    textAt (a++t++0::s) a.length = some t := by
  have hmem : (0:ℤ) ≤ a.length ∧ 0 ∈ (a++t++0::s).drop a.length := by
    rw [List.append_assoc,List.drop_left]
    exact ⟨Int.natCast_nonneg _,List.mem_append_right _ List.mem_cons_self⟩
  rw [textAt,Int.toNat_natCast,if_pos hmem,List.append_assoc,List.drop_left,takeWhile_nonzero h]

theorem textAt_start {t : List UInt8} (h : 0 ∉ t) (s : List UInt8) :
    textAt (t++0::s) 0 = some t := textAt_append [] h s

theorem strlen_append (a : List UInt8) {t : List UInt8} (h : 0 ∉ t) (s : List UInt8) :
    strlen (a++t++0::s) a.length = some (t.length:ℤ) := by
  rw [strlen,textAt_append a h]
  rfl

theorem strlen_start {t : List UInt8} (h : 0 ∉ t) (s : List UInt8) :
    strlen (t++0::s) 0 = some (t.length:ℤ) := strlen_append [] h s

/-- A text is put behind another one where the block has room for both. -/
theorem strcat_append {a t : List UInt8} (ha : 0 ∉ a) (ht : 0 ∉ t) (s : List UInt8)
    {c : List UInt8} (hc : t.length ≤ c.length) :
    strcat (a++0::c) (t++0::s) = some (a++t++0::c.drop t.length) := by
  have hsplit : a++0::c = a++(0::c.take t.length)++c.drop t.length := by simp
  have hlength : (t++[0]).length = (0::c.take t.length).length := by simp [hc]
  rw [strcat,strlen_start ha,textAt_start ht]
  simp only [Option.bind_eq_bind,Option.bind_some]
  rw [hsplit,writeAt_append a _ hlength]
  simp

theorem strcat_eq {a t : List UInt8} (ha : 0 ∉ a) (ht : 0 ∉ t) (s : List UInt8)
    {c : List UInt8} (hc : t.length ≤ c.length) :
    ∃ slack, strcat (a++0::c) (t++0::s) = some (a++t++0::slack) :=
  ⟨_,strcat_append ha ht s hc⟩

/-- Nothing is put where there is no room. -/
theorem strcat_of_lt {a t : List UInt8} (ha : 0 ∉ a) (ht : 0 ∉ t) (s : List UInt8)
    {c : List UInt8} (hc : c.length < t.length) : strcat (a++0::c) (t++0::s) = none := by
  rw [strcat,strlen_start ha,textAt_start ht]
  simp only [Option.bind_eq_bind,Option.bind_some]
  rw [writeAt,if_neg]
  simp only [List.length_append,List.length_cons,List.length_nil]
  omega

/-- Texts are put one behind the other. -/
def strcatAll (block : List UInt8) (texts : List (List UInt8)) : Option (List UInt8) :=
  texts.foldlM (fun block text => strcat block (text++[0])) block

/-- The block has room for all texts together or there is no outcome. -/
theorem strcatAll_eq {texts : List (List UInt8)} (htexts : ∀ t ∈ texts, 0 ∉ t) {a : List UInt8}
    (ha : 0 ∉ a) (c : List UInt8) :
    strcatAll (a++0::c) texts =
      if texts.flatten.length ≤ c.length then
        some (a++texts.flatten++0::c.drop texts.flatten.length)
      else none := by
  induction texts generalizing a c with
  | nil => simp [strcatAll]
  | cons t texts ih =>
      rw [List.forall_mem_cons] at htexts
      rw [strcatAll,List.foldlM_cons,List.flatten_cons,List.length_append]
      rcases le_or_gt t.length c.length with hle | hlt
      · have hat : 0 ∉ a++t := by simp [ha,htexts.1]
        rw [strcat_append ha htexts.1 [] hle,Option.bind_eq_bind,Option.bind_some,← strcatAll,
          ih htexts.2 hat,List.length_drop,List.drop_drop]
        have hroom : texts.flatten.length ≤ c.length-t.length ↔
            t.length+texts.flatten.length ≤ c.length := by omega
        simp only [hroom,List.append_assoc]
      · rw [strcat_of_lt ha htexts.1 [] hlt,if_neg (by omega)]
        rfl

/-- A block of another size still has the text. -/
theorem realloc_text (x : UInt8) (t s : List UInt8) {n : ℤ} (hn : t.length+1 ≤ n) :
    ∃ c, realloc x (t++0::s) n = t++0::c ∧ (c.length:ℤ) = n-t.length-1 := by
  obtain ⟨k,rfl⟩ : ∃ k : ℕ, n = t.length+1+k := ⟨(n-t.length-1).toNat,by omega⟩
  have hsize : ((t.length:ℤ)+1+k).toNat = (t++[0]).length+k := by simp; omega
  refine ⟨s.take k++List.replicate (k-s.length) x,?_,?_⟩
  · have hblock : t++0::s = (t++[0])++s := by simp
    have hmore : (t++[0]).length+k-((t++[0])++s).length = k-s.length := by
      simp only [List.length_append]
      omega
    rw [realloc,hsize,hblock,List.take_length_add_append,hmore]
    simp
  · simp only [List.length_append,List.length_take,List.length_replicate]
    omega

end Filly.CBuffers

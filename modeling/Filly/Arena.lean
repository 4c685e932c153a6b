import Filly.BumpAllocation
import Filly.CBuffers
import Filly.Runs
import Filly.WhileLoops

/-!
# The arena of the render trees

`core/arena.c` hands out blocks of one buffer until it is reset. Sizes are rounded up to a
multiple of 8, and the buffer is doubled until it has room. All sums and products are those of
`size_t`. Memory is always there when it is asked for.
-/
namespace Filly.Arenas
open BumpAllocation CBuffers Runs WhileLoops

structure Arena where
  buffer : List UInt8
  capacity : UInt64
  offset : UInt64
  deriving DecidableEq, Repr

def arenaNew (fresh : UInt8) (initialCapacity : UInt64) : Arena where
  buffer := List.replicate initialCapacity.toNat fresh
  capacity := initialCapacity
  offset := 0

def arenaReset (a : Arena) : Arena := { a with offset := 0 }

/-- `while (new_cap < needed) new_cap *= 2;` -/
def growTurn (needed newCap : UInt64) : Turn UInt64 UInt64 :=
  if newCap < needed then .next (newCap*2) else .returned newCap

/-- Where the loop ends, if it ends within 65 turns. It does not end later. -/
def growTo (needed newCap : UInt64) : Option UInt64 :=
  match runFor (growTurn needed) newCap 65 with
  | .returned newCap => some newCap
  | .next _ => none

/-- The room that `arena_alloc` makes. There is none when the loop goes on forever. -/
def makeRoom (fresh : UInt8) (a : Arena) (needed : UInt64) : Option Arena :=
  if a.capacity < needed then
    (growTo needed (a.capacity*2)).map fun newCap =>
      { a with buffer := realloc fresh a.buffer newCap.toNat, capacity := newCap }
  else some a

/-- The block begins at the offset that is returned. There is none when `memset` leaves the
buffer. -/
def arenaAlloc (fresh : UInt8) (a : Arena) (size : UInt64) : Option (UInt64 × Arena) := do
  let aligned := (size+7) &&& ~~~7
  let a ← makeRoom fresh a (a.offset+aligned)
  let buffer ← writeAt a.buffer a.offset.toNat (List.replicate aligned.toNat 0)
  some (a.offset,{ a with buffer, offset := a.offset+aligned })

/-- The text of `src` is what stands before its null byte. -/
def arenaStrdup (fresh : UInt8) (a : Arena) (src : List UInt8) : Option (UInt64 × Arena) := do
  let len := UInt64.ofNat src.length+1
  let (dst,a) ← arenaAlloc fresh a len
  let buffer ← memcpy a.buffer dst.toNat (src++[0]) 0 len.toNat
  some (dst,{ a with buffer })

def arenaMaybeShrink (fresh : UInt8) (a : Arena) : Arena :=
  let used := a.offset
  let cap := a.capacity
  if 4*1024*1024 < cap ∧ used < cap/4 then
    let newCap := if used*2 < 1024*1024 then 1024*1024 else used*2
    { a with buffer := realloc fresh a.buffer newCap.toNat, capacity := newCap }
  else a

/-! ## Calls and the blocks handed out -/

inductive Call where
  | alloc (size : UInt64)
  | strdup (src : List UInt8)
  | maybeShrink
  | reset
  deriving DecidableEq, Repr

/-- A block, and what was asked for. It is as large as the offset moved. -/
structure Block where
  region : Region
  requested : ℕ
  deriving DecidableEq, Repr

/-- The arena, and the blocks handed out since it was reset, the newest first. -/
structure Served where
  arena : Arena
  blocks : List Block
  deriving DecidableEq, Repr

def Served.handOut (s : Served) (requested : ℕ) (r : UInt64 × Arena) : Served where
  arena := r.2
  blocks := ⟨⟨r.1.toNat,(r.2.offset-s.arena.offset).toNat⟩,requested⟩::s.blocks

/-- The bytes that a call asks for: those of a text include the null byte. -/
def Call.requested : Call → Option ℕ
  | .alloc size => some size.toNat
  | .strdup src => some (src.length+1)
  | .maybeShrink | .reset => none

/-- Nothing is there after a call that does not come back. -/
def serve (fresh : UInt8) : Option Served → Call → Option Served
  | none, _ => none
  | some s, .alloc size => (arenaAlloc fresh s.arena size).map (s.handOut size.toNat)
  | some s, .strdup src => (arenaStrdup fresh s.arena src).map (s.handOut (src.length+1))
  | some s, .maybeShrink => some { s with arena := arenaMaybeShrink fresh s.arena }
  | some s, .reset => some ⟨arenaReset s.arena,[]⟩

def served (fresh : UInt8) (initialCapacity : UInt64) : Option Served :=
  some ⟨arenaNew fresh initialCapacity,[]⟩

/-- What is promised of the blocks. -/
structure WellServed (s : Served) : Prop where
  allocated : s.arena.buffer.length = s.arena.capacity.toNat
  aligned : ∀ b ∈ s.blocks, 8 ∣ b.region.start
  enough : ∀ b ∈ s.blocks, b.requested ≤ b.region.size
  inside : ∀ b ∈ s.blocks, b.region.start+b.region.size ≤ s.arena.capacity.toNat
  apart : (s.blocks.map Block.region).Pairwise fun r r' => Disjoint r.cells r'.cells

/-- All calls came back, and the promise is kept. -/
def Kept (s : Option Served) : Prop := ∃ s', s = some s' ∧ WellServed s'

/-- The offset behind a block that was asked for, as a number without bounds. -/
def Served.needed (s : Served) (requested : ℕ) : ℕ := s.arena.offset.toNat+roundUp 8 requested

/-- The capacity is large enough or can be doubled until it is. -/
def Roomy (s : Option Served) (c : Call) : Prop :=
  ∀ s' ∈ s, ∀ requested ∈ c.requested, Fits 64 (s'.needed requested) s'.arena.capacity.toNat

/-! ## The loop that doubles -/

section
variable {needed c : UInt64}

def doubled (c : UInt64) (k : ℕ) : UInt64 := (· * 2)^[k] c

theorem doubled_succ (c : UInt64) (k : ℕ) : doubled c (k+1) = doubled (c*2) k := rfl

theorem toNat_doubled (c : UInt64) (k : ℕ) : (doubled c k).toNat = c.toNat*2^k % 2^64 := by
  induction k generalizing c with
  | zero => rw [pow_zero,mul_one,Nat.mod_eq_of_lt c.toNat_lt]; rfl
  | succ k ih =>
      rw [doubled_succ,ih,UInt64.toNat_mul,show (2:UInt64).toNat = 2 from rfl,Nat.mod_mul_mod,
        mul_assoc,← pow_succ']

theorem fits_iff (needed c : UInt64) :
    Fits 64 needed.toNat c.toNat ↔ ∃ k, needed ≤ doubled c k := by
  simp only [UInt64.le_iff_toNat_le,toNat_doubled]
  constructor
  · rintro ⟨k,-,hk⟩
    exact ⟨k,hk⟩
  · rintro ⟨k,hk⟩
    by_cases hlt : k < 64
    · exact ⟨k,hlt,hk⟩
    · have hzero : c.toNat*2^k % 2^64 = 0 :=
        Nat.mod_eq_zero_of_dvd (Dvd.dvd.mul_left (Nat.pow_dvd_pow 2 (not_lt.1 hlt)) _)
      rw [hzero] at hk
      exact ⟨0,by decide,hk.trans (Nat.zero_le _)⟩

/-- The loop goes on as long as there is not enough. -/
theorem runFor_growTurn_next {n : ℕ} (h : ∀ k < n, doubled c k < needed) :
    runFor (growTurn needed) c n = .next (doubled c n) := by
  induction n generalizing c with
  | zero => rfl
  | succ n ih =>
      have hturn : growTurn needed c = .next (c*2) := if_pos (h 0 n.succ_pos)
      rw [runFor_of_next hturn,ih fun k hk => h (k+1) (Nat.succ_lt_succ hk)]
      rfl

/-- The loop ends as soon as there is enough. -/
theorem runFor_growTurn_returned {k : ℕ} (hk : needed ≤ doubled c k)
    (h : ∀ j < k, doubled c j < needed) (n : ℕ) :
    runFor (growTurn needed) c (k+n+1) = .returned (doubled c k) := by
  induction k generalizing c with
  | zero =>
      have hturn : growTurn needed c = .returned c := if_neg (UInt64.not_lt.2 hk)
      exact runFor_of_returned hturn _
  | succ k ih =>
      have hturn : growTurn needed c = .next (c*2) := if_pos (h 0 k.succ_pos)
      rw [runFor_of_next hturn,show k+1+n = k+n+1 by omega]
      exact ih hk fun j hj => h (j+1) (Nat.succ_lt_succ hj)

theorem growTo_eq_some_iff {newCap : UInt64} :
    growTo needed c = some newCap ↔ runFor (growTurn needed) c 65 = .returned newCap := by
  unfold growTo
  generalize runFor (growTurn needed) c 65 = t
  cases t <;> simp

theorem growTo_of_fits (h : Fits 64 needed.toNat c.toNat) :
    ∃ newCap, growTo needed c = some newCap ∧ needed ≤ newCap := by
  obtain ⟨k,hlt,hk⟩ := h
  have hex : ∃ k, needed ≤ doubled c k := ⟨k,by rwa [UInt64.le_iff_toNat_le,toNat_doubled]⟩
  have hbefore : ∀ j < Nat.find hex, doubled c j < needed :=
    fun j hj => UInt64.not_le.1 (Nat.find_min hex hj)
  have hfew : Nat.find hex ≤ k :=
    Nat.find_le (by rwa [UInt64.le_iff_toNat_le,toNat_doubled])
  have hrun := runFor_growTurn_returned (Nat.find_spec hex) hbefore (64-Nat.find hex)
  rw [show Nat.find hex+(64-Nat.find hex)+1 = 65 by omega] at hrun
  exact ⟨_,growTo_eq_some_iff.2 hrun,Nat.find_spec hex⟩

theorem runFor_growTurn_of_not_fits (h : ¬Fits 64 needed.toNat c.toNat) (n : ℕ) :
    runFor (growTurn needed) c n = .next (doubled c n) := by
  rw [fits_iff,not_exists] at h
  exact runFor_growTurn_next fun k _ => UInt64.not_le.1 (h k)

theorem fits_of_growTo {newCap : UInt64} (h : growTo needed c = some newCap) :
    Fits 64 needed.toNat c.toNat := by
  by_contra hnone
  rw [growTo_eq_some_iff,runFor_growTurn_of_not_fits hnone] at h
  cases h

/-- The loop that does not end within 65 turns never ends. -/
theorem growTo_eq_none_iff : growTo needed c = none ↔
    ∀ n, ∃ newCap, runFor (growTurn needed) c n = .next newCap := by
  constructor
  · intro hnone n
    refine ⟨_,runFor_growTurn_of_not_fits (fun hfits => ?_) n⟩
    obtain ⟨newCap,hgrow,-⟩ := growTo_of_fits hfits
    rw [hnone] at hgrow
    cases hgrow
  · intro hruns
    obtain ⟨c',hrun⟩ := hruns 65
    rw [Option.eq_none_iff_forall_ne_some]
    intro newCap hgrow
    rw [growTo_eq_some_iff,hrun] at hgrow
    cases hgrow

end

/-! ## One block -/

section
variable {fresh : UInt8} {a : Arena} {size : UInt64}

theorem toNat_aligned (size : UInt64) :
    ((size+7) &&& ~~~7).toNat = (size.toNat+7) % 2^64/8*8 := by
  have hmask : (~~~7:UInt64).toNat = 2^64-2^3 := rfl
  rw [UInt64.toNat_and,hmask,and_mask (UInt64.toNat_lt _) (by decide),UInt64.toNat_add]
  rfl

theorem toNat_aligned_of_lt (h : roundUp 8 size.toNat < 2^64) :
    ((size+7) &&& ~~~7).toNat = roundUp 8 size.toNat := by
  have hle : size.toNat+7 < 2^64 := by
    unfold roundUp at h
    omega
  rw [toNat_aligned,Nat.mod_eq_of_lt hle]
  rfl

theorem toNat_needed (h : a.offset.toNat+roundUp 8 size.toNat < 2^64) :
    (a.offset+((size+7) &&& ~~~7)).toNat = a.offset.toNat+roundUp 8 size.toNat := by
  rw [UInt64.toNat_add,toNat_aligned_of_lt (by omega),Nat.mod_eq_of_lt h]

/-- More capacity than there is comes from the loop. -/
theorem fits_double_iff {needed c : UInt64} (h : c < needed) :
    Fits 64 needed.toNat (c*2).toNat ↔ Fits 64 needed.toNat c.toNat := by
  rw [fits_iff,fits_iff]
  constructor
  · rintro ⟨k,hk⟩
    exact ⟨k+1,hk⟩
  · rintro ⟨k,hk⟩
    cases k with
    | zero => exact absurd hk (UInt64.not_le.2 h)
    | succ k => exact ⟨k,hk⟩

theorem makeRoom_of_fits (fresh : UInt8) {needed : UInt64} (hbuffer : a.buffer.length = a.capacity.toNat)
    (h : Fits 64 needed.toNat a.capacity.toNat) :
    ∃ a', makeRoom fresh a needed = some a' ∧ a'.buffer.length = a'.capacity.toNat ∧
      a'.offset = a.offset ∧ needed ≤ a'.capacity := by
  unfold makeRoom
  split_ifs with hfull
  · obtain ⟨newCap,hgrow,hle⟩ := growTo_of_fits ((fits_double_iff hfull).2 h)
    rw [hgrow]
    exact ⟨_,rfl,length_realloc _ _ _,rfl,hle⟩
  · exact ⟨a,rfl,hbuffer,rfl,UInt64.not_lt.1 hfull⟩

theorem of_makeRoom {needed : UInt64} {a' : Arena} (h : makeRoom fresh a needed = some a')
    (hbuffer : a.buffer.length = a.capacity.toNat) :
    a'.buffer.length = a'.capacity.toNat ∧ a'.offset = a.offset ∧
      Fits 64 needed.toNat a.capacity.toNat := by
  unfold makeRoom at h
  split_ifs at h with hfull
  · obtain ⟨newCap,hgrow,rfl⟩ := Option.map_eq_some_iff.1 h
    exact ⟨length_realloc _ _ _,rfl,(fits_double_iff hfull).1 (fits_of_growTo hgrow)⟩
  · cases h
    exact ⟨hbuffer,rfl,(fits_iff _ _).2 ⟨0,UInt64.not_lt.1 hfull⟩⟩

/-- Where there is room or can be made, a block is cut off at the offset. -/
theorem arenaAlloc_eq (fresh : UInt8) (hbuffer : a.buffer.length = a.capacity.toNat)
    (hfits : Fits 64 (a.offset.toNat+roundUp 8 size.toNat) a.capacity.toNat) :
    ∃ a', arenaAlloc fresh a size = some (a.offset,a') ∧
      a'.buffer.length = a'.capacity.toNat ∧
      a'.offset.toNat = a.offset.toNat+roundUp 8 size.toNat ∧
      a'.offset.toNat ≤ a'.capacity.toNat := by
  have hlt := hfits.lt
  have hneeded := toNat_needed hlt
  rw [← hneeded] at hfits
  obtain ⟨a',hmade,hlength,hoffset,hle⟩ := makeRoom_of_fits fresh hbuffer hfits
  rw [UInt64.le_iff_toNat_le,hneeded] at hle
  have hroom : (writeAt a'.buffer a.offset.toNat
      (List.replicate ((size+7) &&& ~~~7).toNat 0)).isSome := by
    rw [writeAt_isSome_iff,List.length_replicate,hlength,toNat_aligned_of_lt (by omega)]
    exact hle
  obtain ⟨b,hb⟩ := Option.isSome_iff_exists.1 hroom
  refine ⟨⟨b,a'.capacity,a.offset+((size+7) &&& ~~~7)⟩,?_,(length_of_writeAt hb).trans hlength,
    hneeded,hneeded.trans_le hle⟩
  simp only [arenaAlloc,hmade,Option.bind_eq_bind,Option.bind_some,hoffset,hb]

/-- A block that is not too short was cut off where there was room. -/
theorem fits_of_arenaAlloc {r : UInt64 × Arena} (hbuffer : a.buffer.length = a.capacity.toNat)
    (h : arenaAlloc fresh a size = some r) (henough : size.toNat ≤ (r.2.offset-a.offset).toNat) :
    Fits 64 (a.offset.toNat+roundUp 8 size.toNat) a.capacity.toNat := by
  obtain ⟨a',hmade,h⟩ := Option.bind_eq_some_iff.1 h
  obtain ⟨b,hb,h⟩ := Option.bind_eq_some_iff.1 h
  cases h
  obtain ⟨hlength,hoffset,hfits⟩ := of_makeRoom hmade hbuffer
  dsimp only at henough
  rw [hoffset,UInt64.add_comm,UInt64.add_sub_cancel,toNat_aligned] at henough
  have hup : roundUp 8 size.toNat < 2^64 := by
    have hlt := size.toNat_lt
    unfold roundUp
    omega
  have hroom := writeAt_isSome_iff.1 (Option.isSome_of_eq_some hb)
  rw [List.length_replicate,toNat_aligned_of_lt hup,hoffset,hlength] at hroom
  rwa [toNat_needed (hroom.trans_lt a'.capacity.toNat_lt)] at hfits

end

/-! ## Every call -/

/-- The blocks lie one above the other, up to the offset. -/
structure Standing (s : Served) : Prop where
  allocated : s.arena.buffer.length = s.arena.capacity.toNat
  room : s.arena.offset.toNat ≤ s.arena.capacity.toNat
  offset : 8 ∣ s.arena.offset.toNat
  stacked : Stacked s.arena.offset.toNat (s.blocks.map Block.region)
  aligned : ∀ b ∈ s.blocks, 8 ∣ b.region.start
  enough : ∀ b ∈ s.blocks, b.requested ≤ b.region.size

section
variable {fresh : UInt8} {s : Served}

theorem Standing.wellServed (h : Standing s) : WellServed s := by
  refine ⟨h.allocated,h.aligned,h.enough,fun b hb => ?_,h.stacked.pairwise_disjoint⟩
  exact (h.stacked.end_le _ (List.mem_map_of_mem hb)).trans h.room

/-- A block is cut off at the offset. -/
theorem Standing.handOut (h : Standing s) {a' : Arena} {requested : ℕ}
    (hbuffer : a'.buffer.length = a'.capacity.toNat)
    (hoffset : a'.offset.toNat = s.needed requested)
    (hroom : a'.offset.toNat ≤ a'.capacity.toNat) :
    Standing (s.handOut requested (s.arena.offset,a')) := by
  have hmoved : (a'.offset-s.arena.offset).toNat = roundUp 8 requested := by
    have hle : s.arena.offset ≤ a'.offset := by
      rw [UInt64.le_iff_toNat_le,hoffset]
      exact Nat.le_add_right _ _
    rw [UInt64.toNat_sub_of_le _ _ hle,hoffset]
    exact Nat.add_sub_cancel_left ..
  refine ⟨hbuffer,hroom,?_,?_,?_,?_⟩
  · rw [Served.handOut,hoffset]
    exact Nat.dvd_add h.offset (dvd_roundUp _ _)
  · rw [Served.handOut,List.map_cons,hmoved,hoffset]
    exact h.stacked.cut _
  · exact List.forall_mem_cons.2 ⟨h.offset,h.aligned⟩
  · refine List.forall_mem_cons.2 ⟨?_,h.enough⟩
    rw [hmoved]
    exact le_roundUp (by decide) _

theorem Standing.maybeShrink (h : Standing s) :
    Standing { s with arena := arenaMaybeShrink fresh s.arena } := by
  unfold arenaMaybeShrink
  dsimp only
  by_cases hshrink : 4*1024*1024 < s.arena.capacity ∧ s.arena.offset < s.arena.capacity/4
  · have hquarter := UInt64.lt_iff_toNat_lt.1 hshrink.2
    rw [UInt64.toNat_div,show (4:UInt64).toNat = 4 from rfl] at hquarter
    have htwice : (s.arena.offset*2).toNat = s.arena.offset.toNat*2 := by
      have hlt := s.arena.capacity.toNat_lt
      rw [UInt64.toNat_mul,show (2:UInt64).toNat = 2 from rfl,Nat.mod_eq_of_lt (by omega)]
    rw [if_pos hshrink]
    refine ⟨length_realloc _ _ _,?_,h.offset,h.stacked,h.aligned,h.enough⟩
    dsimp only
    split_ifs with hsmall
    · rw [UInt64.lt_iff_toNat_lt,htwice] at hsmall
      omega
    · rw [htwice]
      omega
  · rw [if_neg hshrink]
    exact h

theorem Standing.reset (h : Standing s) : Standing ⟨arenaReset s.arena,[]⟩ :=
  ⟨h.allocated,Nat.zero_le _,dvd_zero 8,trivial,fun _ hb => absurd hb List.not_mem_nil,
    fun _ hb => absurd hb List.not_mem_nil⟩

theorem standing_new (fresh : UInt8) (initialCapacity : UInt64) :
    Standing ⟨arenaNew fresh initialCapacity,[]⟩ :=
  ⟨List.length_replicate,Nat.zero_le _,dvd_zero 8,trivial,fun _ hb => absurd hb List.not_mem_nil,
    fun _ hb => absurd hb List.not_mem_nil⟩

theorem toNat_textSize {n : ℕ} (h : n+1 < 2^64) : (UInt64.ofNat n+1).toNat = n+1 := by
  rw [UInt64.toNat_add,UInt64.toNat_ofNat',Nat.mod_eq_of_lt (by omega : n < 2^64)]
  exact Nat.mod_eq_of_lt h

/-- The text is copied into its block. -/
theorem arenaStrdup_eq (fresh : UInt8) {src : List UInt8} (h : Standing s)
    (hfits : Fits 64 (s.needed (src.length+1)) s.arena.capacity.toNat) :
    ∃ a', arenaStrdup fresh s.arena src = some (s.arena.offset,a') ∧
      Standing (s.handOut (src.length+1) (s.arena.offset,a')) := by
  have hle := le_roundUp (by decide : 0 < 8) (src.length+1)
  have hlt := hfits.lt
  unfold Served.needed at hfits hlt
  have hsize : (UInt64.ofNat src.length+1).toNat = src.length+1 := toNat_textSize (by omega)
  rw [← hsize] at hfits
  obtain ⟨a',halloc,hbuffer,hoffset,hroom⟩ := arenaAlloc_eq fresh h.allocated hfits
  rw [hsize] at hoffset
  have hread : readAt (src++[0]) 0 (UInt64.ofNat src.length+1).toNat = some (src++[0]) := by
    have hall := readAt_append [] (src++[0]) []
    rw [List.nil_append,List.append_nil,List.length_append] at hall
    rw [hsize]
    exact hall
  have hwrite : (writeAt a'.buffer s.arena.offset.toNat (src++[0])).isSome := by
    rw [writeAt_isSome_iff,hbuffer,List.length_append]
    exact (Nat.add_le_add_left hle _).trans (hoffset.symm.trans_le hroom)
  obtain ⟨b,hb⟩ := Option.isSome_iff_exists.1 hwrite
  refine ⟨{ a' with buffer := b },?_,
    h.handOut ((length_of_writeAt hb).trans hbuffer) hoffset hroom⟩
  simp only [arenaStrdup,halloc,memcpy,hread,hb,Option.bind_eq_bind,Option.bind_some]

theorem fits_of_arenaStrdup {src : List UInt8} {r : UInt64 × Arena} (h : Standing s)
    (hdup : arenaStrdup fresh s.arena src = some r)
    (henough : src.length+1 ≤ (r.2.offset-s.arena.offset).toNat) :
    Fits 64 (s.needed (src.length+1)) s.arena.capacity.toNat := by
  obtain ⟨⟨dst,a'⟩,halloc,hdup⟩ := Option.bind_eq_some_iff.1 hdup
  obtain ⟨b,-,hdup⟩ := Option.bind_eq_some_iff.1 hdup
  cases hdup
  have hsize : (UInt64.ofNat src.length+1).toNat = src.length+1 :=
    toNat_textSize (henough.trans_lt (UInt64.toNat_lt _))
  have hfits := fits_of_arenaAlloc h.allocated halloc (hsize.trans_le henough)
  rwa [hsize] at hfits

theorem roomy_some_iff {c : Call} : Roomy (some s) c ↔
    ∀ requested ∈ c.requested, Fits 64 (s.needed requested) s.arena.capacity.toNat :=
  ⟨fun h => h s rfl,fun h _ hs => Option.some.inj hs ▸ h⟩

/-- An arena that has some capacity gets any up to half the range. -/
theorem roomy_of_le {c : Call} (hpos : 0 < s.arena.capacity.toNat)
    (h : ∀ requested ∈ c.requested, 2*s.needed requested ≤ 2^64) : Roomy (some s) c := by
  rw [roomy_some_iff]
  exact fun requested hr => fits_of_le hpos (UInt64.toNat_lt _) (h requested hr)

/-- A call for which there is room keeps the blocks in order. -/
theorem Standing.serve {c : Call} (h : Standing s) (hroomy : Roomy (some s) c) :
    ∃ s', Arenas.serve fresh (some s) c = some s' ∧ Standing s' := by
  rw [roomy_some_iff] at hroomy
  cases c with
  | alloc size =>
      obtain ⟨a',halloc,hbuffer,hoffset,hroom⟩ := arenaAlloc_eq fresh h.allocated
        (hroomy size.toNat rfl)
      exact ⟨_,by rw [Arenas.serve,halloc]; rfl,h.handOut hbuffer hoffset hroom⟩
  | strdup src =>
      obtain ⟨a',hdup,hstanding⟩ := arenaStrdup_eq fresh h (hroomy _ rfl)
      exact ⟨_,by rw [Arenas.serve,hdup]; rfl,hstanding⟩
  | maybeShrink => exact ⟨_,rfl,h.maybeShrink⟩
  | reset => exact ⟨_,rfl,h.reset⟩

/-- A call that keeps the promise found room. -/
theorem roomy_of_kept {c : Call} (h : Standing s) (hkept : Kept (serve fresh (some s) c)) :
    Roomy (some s) c := by
  obtain ⟨s',hserve,hwell⟩ := hkept
  rw [roomy_some_iff]
  cases c with
  | alloc size =>
      obtain ⟨r,halloc,rfl⟩ := Option.map_eq_some_iff.1 hserve
      rintro _ ⟨⟩
      exact fits_of_arenaAlloc h.allocated halloc (hwell.enough _ List.mem_cons_self)
  | strdup src =>
      obtain ⟨r,hdup,rfl⟩ := Option.map_eq_some_iff.1 hserve
      rintro _ ⟨⟩
      exact fits_of_arenaStrdup h hdup (hwell.enough _ List.mem_cons_self)
  | maybeShrink => exact fun _ hr => by cases hr
  | reset => exact fun _ hr => by cases hr

end

/-- In every run the calls come back with blocks as promised exactly when each of them finds
room, or room that doubling the capacity leads to. -/
theorem arena_serves_iff (fresh : UInt8) (initialCapacity : UInt64) (calls : List Call) :
    Always (serve fresh) Kept (served fresh initialCapacity) calls ↔
      Guarded (serve fresh) Roomy (served fresh initialCapacity) calls := by
  refine always_iff_guarded (I := fun s => ∃ s', s = some s' ∧ Standing s') ?_ ?_ ?_
    ⟨_,rfl,standing_new fresh initialCapacity⟩ calls
  · rintro _ ⟨s,rfl,hs⟩
    exact ⟨s,rfl,hs.wellServed⟩
  · rintro _ c ⟨s,rfl,hs⟩ hroomy
    exact hs.serve hroomy
  · rintro _ c ⟨s,rfl,hs⟩ hroomy hkept
    exact hroomy (roomy_of_kept hs hkept)

/-! ## Calls that fail -/

/-- An arena without capacity never gets any, and the block for a size at the end of the range
has no bytes. -/
theorem blocks_are_missing :
    ¬Always (serve 0) Kept (served 0 0) [.alloc 1] ∧
      ¬Always (serve 0) Kept (served 0 16) [.alloc 18446744073709551615] := by
  constructor
  · rintro ⟨-,s,hserve,-⟩
    have hnone : serve 0 (served 0 0) (.alloc 1) = none := by decide +kernel
    rw [hnone] at hserve
    cases hserve
  · rintro ⟨-,s,hserve,hwell⟩
    have hempty : serve 0 (served 0 16) (.alloc 18446744073709551615) =
        some ⟨arenaNew 0 16,[⟨⟨0,0⟩,18446744073709551615⟩]⟩ := by decide +kernel
    rw [hempty] at hserve
    cases hserve
    have henough := hwell.enough _ List.mem_cons_self
    exact absurd henough (by decide)

end Filly.Arenas

import Mathlib.Tactic

/-!
# Forests as lists of numbered lines

An outline lists the labels of a forest in preorder, each with its depth. `forest` reads an
outline back: a line of the expected depth opens a tree, the deeper lines behind it are its
children, and the first line that is less deep ends the forest. So the depths alone hold the
shape of the forest.
-/
namespace Filly.Outlines

variable {α : Type*}

inductive Rose (α : Type*) where
  | node (label : α) (children : List (Rose α))

mutual
def outlineOf (depth : ℕ) : Rose α → List (ℕ × α)
  | .node a children => (depth,a)::outline (depth+1) children

/-- The lines of a forest. -/
def outline (depth : ℕ) : List (Rose α) → List (ℕ × α)
  | [] => []
  | t::ts => outlineOf depth t++outline depth ts
end

/-- The forest at the front of some lines, and the lines behind it. Every turn takes a line,
so their number bounds the turns. -/
def forestUpTo : ℕ → ℕ → List (ℕ × α) → List (Rose α) × List (ℕ × α)
  | 0, _, lines => ([],lines)
  | _+1, _, [] => ([],[])
  | n+1, depth, (d,a)::lines =>
      if d = depth then
        let below := forestUpTo n (depth+1) lines
        let beside := forestUpTo n depth below.2
        (.node a below.1::beside.1,beside.2)
      else ([],(d,a)::lines)

def forest (lines : List (ℕ × α)) : List (Rose α) := (forestUpTo lines.length 0 lines).1

/-- The lines do not go on with the forest at this depth. -/
def Ends (depth : ℕ) (lines : List (ℕ × α)) : Prop := ∀ l ∈ lines.head?, l.1 < depth

theorem outline_cons (depth : ℕ) (a : α) (children ts : List (Rose α)) :
    outline depth (.node a children::ts) =
      (depth,a)::(outline (depth+1) children++outline depth ts) := by
  rw [outline,outlineOf,List.cons_append]

theorem outline_append (depth : ℕ) (ts us : List (Rose α)) :
    outline depth (ts++us) = outline depth ts++outline depth us := by
  induction ts with
  | nil => rfl
  | cons t ts ih =>
      rw [List.cons_append,outline,ih,outline,List.append_assoc]

theorem forestUpTo_ends {depth : ℕ} {rest : List (ℕ × α)} (h : Ends depth rest) (n : ℕ) :
    forestUpTo n depth rest = ([],rest) := by
  cases n with
  | zero => rfl
  | succ n =>
      cases rest with
      | nil => rfl
      | cons l rest =>
          obtain ⟨d,a⟩ := l
          have hd : d < depth := h (d,a) rfl
          rw [forestUpTo,if_neg hd.ne]

theorem Ends.outline_append {depth : ℕ} {rest : List (ℕ × α)} (h : Ends depth rest)
    (ts : List (Rose α)) : Ends (depth+1) (outline depth ts++rest) := by
  cases ts with
  | nil => exact fun l hl => Nat.lt_succ_of_lt (h l hl)
  | cons t ts =>
      obtain ⟨a,children⟩ := t
      rw [outline_cons]
      intro l hl
      cases hl
      exact Nat.lt_succ_self depth

/-- A forest is read back from its lines, whatever less deep lines follow. -/
theorem forestUpTo_outline {n : ℕ} : ∀ (depth : ℕ) (ts : List (Rose α)) (rest : List (ℕ × α)),
    Ends depth rest → (outline depth ts).length ≤ n →
      forestUpTo n depth (outline depth ts++rest) = (ts,rest) := by
  induction n with
  | zero =>
      intro depth ts rest hrest hn
      cases ts with
      | nil => rfl
      | cons t ts =>
          obtain ⟨a,children⟩ := t
          rw [outline_cons] at hn
          exact absurd hn (by simp)
  | succ n ih =>
      intro depth ts rest hrest hn
      cases ts with
      | nil => exact forestUpTo_ends hrest _
      | cons t ts =>
          obtain ⟨a,children⟩ := t
          rw [outline_cons,List.length_cons,List.length_append] at hn
          have hbelow := ih (depth+1) children (outline depth ts++rest) (hrest.outline_append ts)
            (by omega)
          have hbeside := ih depth ts rest hrest (by omega)
          rw [outline_cons,List.cons_append,List.append_assoc,forestUpTo,if_pos rfl]
          simp only [hbelow,hbeside]

theorem forest_outline (ts : List (Rose α)) : forest (outline 0 ts) = ts := by
  have h := forestUpTo_outline 0 ts [] (fun l hl => by cases hl) le_rfl
  rw [List.append_nil] at h
  rw [forest,h]

end Filly.Outlines

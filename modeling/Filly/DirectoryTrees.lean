import Mathlib.Tactic

/-!
# Directory trees

A place in a tree is the list of the names that lead to it from the root. A walk follows the
components of a path, each from a directory: it stays, goes to the parent, or enters what has
the name. The parent of the root is the root.
-/
namespace Filly.DirectoryTrees

inductive FileKind where
  | file | directory
  deriving DecidableEq, Repr

/-- What is in a directory is found under a name there. -/
structure DirectoryTree (ν : Type) where
  kind : List ν → Option FileKind
  root : kind [] = some .directory
  inside : ∀ place name, (kind (place++[name])).isSome → kind place = some .directory

inductive Component (ν : Type) where
  | here | parent
  | name (n : ν)
  deriving DecidableEq, Repr

namespace DirectoryTree

variable {ν : Type} (t : DirectoryTree ν)

def step (place : List ν) (c : Component ν) : Option (List ν) :=
  if t.kind place = some .directory then
    match c with
    | .here => some place
    | .parent => some place.dropLast
    | .name n => if (t.kind (place++[n])).isSome then some (place++[n]) else none
  else none

def walk (place : List ν) (cs : List (Component ν)) : Option (List ν) := cs.foldlM t.step place

variable {t} {place place' : List ν} {c : Component ν}

theorem walk_concat (place : List ν) (cs : List (Component ν)) (c : Component ν) :
    t.walk place (cs++[c]) = (t.walk place cs).bind (t.step · c) := by
  rw [walk,List.foldlM_append]
  simp only [List.foldlM_cons,List.foldlM_nil,bind_pure]
  rfl

theorem directory_of_step (h : t.step place c = some place') : t.kind place = some .directory := by
  by_contra hkind
  unfold step at h
  rw [if_neg hkind] at h
  cases h

theorem step_of_directory (h : t.kind place = some .directory) (c : Component ν) :
    t.step place c =
      match c with
      | .here => some place
      | .parent => some place.dropLast
      | .name n => if (t.kind (place++[n])).isSome then some (place++[n]) else none :=
  if_pos h

/-- Each place on the way to another one is a directory. -/
theorem directory_dropLast (h : (t.kind place).isSome) :
    t.kind place.dropLast = some .directory := by
  cases place using List.reverseRecOn with
  | nil => exact t.root
  | append_singleton place name =>
      rw [List.dropLast_concat]
      exact t.inside place name h

theorem dropLast_eq_self_iff (place : List ν) : place.dropLast = place ↔ place = [] := by
  refine ⟨fun h => ?_,fun h => by rw [h]; rfl⟩
  have hlength := congrArg List.length h
  rw [List.length_dropLast] at hlength
  exact List.length_eq_zero_iff.1 (by omega)

/-- Cutting off the last component goes to the parent when that was a name, and else at the
root alone. -/
theorem dropLast_eq_iff (h : t.step place c = some place') :
    place'.dropLast = place ↔ (∃ n, c = .name n) ∨ place = [] := by
  rw [step_of_directory (directory_of_step h)] at h
  cases c with
  | here =>
      cases h
      rw [dropLast_eq_self_iff]
      simp
  | parent =>
      cases h
      refine ⟨fun hup => Or.inr ?_,fun hroot => ?_⟩
      · have hlength := congrArg List.length hup
        rw [List.length_dropLast,List.length_dropLast] at hlength
        exact List.length_eq_zero_iff.1 (by omega)
      · rcases hroot with ⟨n,hn⟩ | rfl
        · cases hn
        · rfl
  | name n =>
      dsimp only at h
      split_ifs at h
      cases h
      rw [List.dropLast_concat]
      exact iff_of_true rfl (Or.inl ⟨n,rfl⟩)

/-- From the root, only a name leads elsewhere. -/
theorem eq_root_iff (h : t.step [] c = some place') : place' = [] ↔ ¬∃ n, c = .name n := by
  rw [step_of_directory t.root] at h
  cases c with
  | here =>
      cases h
      simp
  | parent =>
      cases h
      simp
  | name n =>
      dsimp only at h
      split_ifs at h
      cases h
      simp

end DirectoryTree

end Filly.DirectoryTrees

import Mathlib.Data.List.Basic
import Mathlib.Tactic

/-!
# Messages laid end to end in a byte stream

Messages of any type are written one after the other by a wire format in which
no message is empty. What has arrived of such a stream always splits, in one
way, into complete messages and an incomplete rest: that is all a receiver can
rely on, wherever the stream was cut.
-/
namespace Filly.Framing

variable {μ β : Type} (wire : μ → List β)

def wires (ms : List μ) : List β := ms.flatMap wire

@[simp] theorem wires_nil : wires wire [] = [] := rfl

@[simp] theorem wires_cons (m : μ) (ms : List μ) : wires wire (m::ms) = wire m++wires wire ms :=
  List.flatMap_cons

@[simp] theorem wires_append (ms ns : List μ) :
    wires wire (ms++ns) = wires wire ms++wires wire ns := List.flatMap_append

/-- `part` is less than one message of what is still to come. -/
def Incomplete (part : List β) : List μ → Prop
  | [] => part = []
  | m::_ => part.length < (wire m).length

variable {wire}

/-- Cut what has arrived behind its last complete message. -/
theorem exists_cut {ms : List μ} {avail later : List β}
    (h : avail++later = wires wire ms) : ∃ done todo part, ms = done++todo ∧
      avail = wires wire done++part ∧ part++later = wires wire todo ∧
      Incomplete wire part todo := by
  induction ms generalizing avail with
  | nil =>
      obtain ⟨rfl,rfl⟩ := List.append_eq_nil_iff.mp h
      exact ⟨[],[],[],rfl,rfl,rfl,rfl⟩
  | cons m ms ih =>
      by_cases hlt : avail.length < (wire m).length
      · exact ⟨[],m::ms,avail,rfl,rfl,h,hlt⟩
      · rw [wires_cons] at h
        have ha : avail <+: wire m++wires wire ms := ⟨later,h⟩
        obtain ⟨rest,rfl⟩ : wire m <+: avail :=
          List.prefix_of_prefix_length_le (List.prefix_append _ _) ha (Nat.not_lt.mp hlt)
        rw [List.append_assoc,List.append_cancel_left_eq] at h
        obtain ⟨done,todo,part,rfl,rfl,hpart,hinc⟩ := ih h
        exact ⟨m::done,todo,part,rfl,by rw [wires_cons,List.append_assoc],hpart,hinc⟩

end Filly.Framing

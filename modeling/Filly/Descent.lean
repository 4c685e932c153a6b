import Mathlib.Tactic

/-!
# Recursion that is cut off by a size

A program that reads its input with loops and recursive calls is written as a
step function over its own recursive calls. Unrolling the step as often as the
size of the input allows gives a total function that computes by plain
recursion on numbers. If every recursive call is made on a smaller input, the
cut-off is never reached and the step equation holds as it stands.
-/
namespace Filly.Descent

/-- The outcome of running a piece of code: a value, undefined behaviour, or no
end within the number of steps allowed. -/
inductive Outcome (α : Type) where
  | ok (a : α)
  | undef
  | spin
  deriving DecidableEq

namespace Outcome

variable {α β : Type}

def bind : Outcome α → (α → Outcome β) → Outcome β
  | .ok a, f => f a
  | .undef, _ => .undef
  | .spin, _ => .spin

instance : Monad Outcome where
  pure := .ok
  bind := bind

@[simp] theorem ok_bind (a : α) (f : α → Outcome β) : (Outcome.ok a >>= f) = f a := rfl

@[simp] theorem undef_bind (f : α → Outcome β) : (Outcome.undef >>= f) = .undef := rfl

@[simp] theorem spin_bind (f : α → Outcome β) : (Outcome.spin >>= f) = .spin := rfl

@[simp] theorem pure_eq (a : α) : (pure a : Outcome α) = .ok a := rfl

theorem bind_eq_ok {x : Outcome α} {f : α → Outcome β} {b : β} :
    (x >>= f) = .ok b ↔ ∃ a, x = .ok a ∧ f a = .ok b := by
  cases x <;> simp

/-- The code ends, and its value, if there is one, satisfies `post`. -/
def Ends (post : α → Prop) : Outcome α → Prop
  | .ok a => post a
  | .undef => True
  | .spin => False

@[simp] theorem ends_ok {post : α → Prop} {a : α} : Ends post (.ok a) ↔ post a := Iff.rfl

@[simp] theorem ends_undef {post : α → Prop} : Ends post .undef := trivial

theorem Ends.of_eq {post : α → Prop} {x : Outcome α} {a : α} (h : Ends post x) (hx : x = .ok a) :
    post a := by
  subst hx
  exact h

theorem Ends.ne_spin {post : α → Prop} {x : Outcome α} (h : Ends post x) : x ≠ .spin := by
  rintro rfl
  exact h

theorem Ends.mono {post post' : α → Prop} {x : Outcome α} (h : Ends post x)
    (himp : ∀ a, post a → post' a) : Ends post' x := by
  cases x with
  | ok a => exact himp a h
  | undef => trivial
  | spin => exact h

theorem Ends.bind {mid : α → Prop} {post : β → Prop} {x : Outcome α} {f : α → Outcome β}
    (hx : Ends mid x) (hf : ∀ a, mid a → Ends post (f a)) : Ends post (x >>= f) := by
  cases x with
  | ok a => exact hf a hx
  | undef => trivial
  | spin => exact hx

theorem bind_congr_ok {x : Outcome α} {f g : α → Outcome β} (h : ∀ a, x = .ok a → f a = g a) :
    (x >>= f) = (x >>= g) := by
  cases x with
  | ok a => exact h a rfl
  | undef => rfl
  | spin => rfl

end Outcome

variable {σ β : Type}

def unroll (step : (σ → Outcome β) → σ → Outcome β) : ℕ → σ → Outcome β
  | 0, _ => .spin
  | n+1, x => step (unroll step n) x

def descend (size : σ → ℕ) (step : (σ → Outcome β) → σ → Outcome β) (x : σ) : Outcome β :=
  unroll step (size x+1) x

/-- On inputs in `dom` the step calls itself only on smaller inputs in `dom`,
as long as the results of these calls are `good`; and its own result is good. -/
structure Descends (dom : σ → Prop) (size : σ → ℕ) (good : σ → Outcome β → Prop)
    (step : (σ → Outcome β) → σ → Outcome β) : Prop where
  keeps : ∀ f x, dom x → (∀ y, dom y → size y < size x → good y (f y)) → good x (step f x)
  congr : ∀ f g x, dom x → (∀ y, dom y → size y < size x → f y = g y ∧ good y (f y)) →
    step f x = step g x

section
variable {dom : σ → Prop} {size : σ → ℕ} {good : σ → Outcome β → Prop}
  {step : (σ → Outcome β) → σ → Outcome β}

theorem Descends.unroll_good (h : Descends dom size good step) {n : ℕ} {x : σ} (hx : dom x)
    (hn : size x < n) : good x (unroll step n x) := by
  induction n generalizing x with
  | zero => omega
  | succ n ih => exact h.keeps _ x hx fun y hy hlt => ih hy (by omega)

theorem Descends.unroll_eq (h : Descends dom size good step) {n m : ℕ} {x : σ} (hx : dom x)
    (hn : size x < n) (hm : size x < m) : unroll step n x = unroll step m x := by
  induction n generalizing m x with
  | zero => omega
  | succ n ih =>
      obtain ⟨m,rfl⟩ : ∃ k, m = k+1 := ⟨m-1,by omega⟩
      refine h.congr _ _ x hx fun y hy hlt => ⟨ih hy (by omega) (by omega),?_⟩
      exact h.unroll_good hy (by omega)

theorem Descends.descend_good (h : Descends dom size good step) {x : σ} (hx : dom x) :
    good x (descend size step x) := h.unroll_good hx (Nat.lt_succ_self _)

/-- What every unrolling of the step satisfies, whether it ends or not. -/
theorem descend_induct {post : σ → Outcome β → Prop} (hspin : ∀ x, post x .spin)
    (hstep : ∀ f, (∀ x, post x (f x)) → ∀ x, post x (step f x)) (x : σ) :
    post x (descend size step x) := by
  have key : ∀ n x, post x (unroll step n x) := by
    intro n
    induction n with
    | zero => exact hspin
    | succ n ih => exact hstep _ ih
  exact key _ x

/-- The step equation. -/
theorem Descends.descend_eq (h : Descends dom size good step) {x : σ} (hx : dom x) :
    descend size step x = step (descend size step) x := by
  refine h.congr _ _ x hx fun y hy hlt => ⟨?_,h.unroll_good hy hlt⟩
  exact h.unroll_eq hy hlt (Nat.lt_succ_self _)

end

/-! ## Loops -/

/-- One turn of a loop: leave it at `stop`, or when the body reports failure. -/
def turn (stop : σ → Bool) (body : σ → Outcome (Bool × σ)) (again : σ → Outcome (Bool × σ))
    (x : σ) : Outcome (Bool × σ) :=
  if stop x then .ok (true,x)
  else body x >>= fun r => if r.1 then again r.2 else .ok r

def loop (size : σ → ℕ) (stop : σ → Bool) (body : σ → Outcome (Bool × σ)) (x : σ) :
    Outcome (Bool × σ) := descend size (turn stop body) x

/-- A body that always ends, and makes the input smaller when it reports
success. -/
def Shrinks (dom : σ → Prop) (size : σ → ℕ) (stop : σ → Bool)
    (body : σ → Outcome (Bool × σ)) (bound : ℕ) : Prop :=
  ∀ x, dom x → size x < bound → stop x = false →
    (body x).Ends fun r => dom r.2 ∧ size r.2 ≤ size x ∧ (r.1 = true → size r.2 < size x)

section
variable {dom : σ → Prop} {size : σ → ℕ} {stop : σ → Bool}
  {body body' : σ → Outcome (Bool × σ)} {bound : ℕ}

theorem turn_descends (h : Shrinks dom size stop body bound) :
    Descends (fun x => dom x ∧ size x < bound) size
      (fun x => Outcome.Ends fun r => dom r.2 ∧ size r.2 ≤ size x ∧ (r.1 = true → stop r.2 = true))
      (turn stop body) where
  keeps f x hx hf := by
    unfold turn
    split_ifs with hs
    · exact ⟨hx.1,le_rfl,fun _ => hs⟩
    · refine (h x hx.1 hx.2 (by simpa using hs)).bind fun r ⟨hd,hle,hlt⟩ => ?_
      split_ifs with ht
      · refine (hf r.2 ⟨hd,hle.trans_lt hx.2⟩ (hlt ht)).mono fun r' hr' => ?_
        exact ⟨hr'.1,hr'.2.1.trans hle,hr'.2.2⟩
      · exact ⟨hd,hle,fun hb => absurd hb ht⟩
  congr f g x hx hfg := by
    unfold turn
    split_ifs with hs
    · rfl
    · refine Outcome.bind_congr_ok fun r hr => ?_
      obtain ⟨hd,hle,hlt⟩ := (h x hx.1 hx.2 (by simpa using hs)).of_eq hr
      split_ifs with ht
      · exact (hfg r.2 ⟨hd,hle.trans_lt hx.2⟩ (hlt ht)).1
      · rfl

/-- One turn at a time. -/
theorem loop_eq (h : Shrinks dom size stop body bound) {x : σ} (hx : dom x) (hb : size x < bound) :
    loop size stop body x = turn stop body (loop size stop body) x :=
  (turn_descends h).descend_eq ⟨hx,hb⟩

theorem loop_stop {x : σ} (hs : stop x = true) : loop size stop body x = .ok (true,x) := by
  simp [loop,descend,unroll,turn,hs]

/-- Such a loop ends; when it reports success it has come to a stop. -/
theorem loop_ends (h : Shrinks dom size stop body bound) {x : σ} (hx : dom x)
    (hb : size x < bound) : (loop size stop body x).Ends fun r =>
      dom r.2 ∧ size r.2 ≤ size x ∧ (r.1 = true → stop r.2 = true) :=
  (turn_descends h).descend_good ⟨hx,hb⟩

/-- Only the values of the body on inputs that can be met matter. -/
theorem loop_congr (h : Shrinks dom size stop body bound)
    (hbody : ∀ x, dom x → size x < bound → stop x = false → body x = body' x) {x : σ}
    (hx : dom x) (hb : size x < bound) :
    loop size stop body x = loop size stop body' x := by
  have key : ∀ n x, dom x → size x < bound →
      unroll (turn stop body) n x = unroll (turn stop body') n x := by
    intro n
    induction n with
    | zero => exact fun _ _ _ => rfl
    | succ n ih =>
        intro x hx hb
        simp only [unroll,turn]
        split_ifs with hs
        · rfl
        · rw [← hbody x hx hb (by simpa using hs)]
          refine Outcome.bind_congr_ok fun r hr => ?_
          obtain ⟨hd,hle,-⟩ := (h x hx hb (by simpa using hs)).of_eq hr
          rw [ih r.2 hd (hle.trans_lt hb)]
  exact key _ x hx hb

/-- What successful turns preserve holds up to the turn that stops or fails. -/
theorem loop_outcome (inv : σ → Prop) (post : Bool → σ → Prop)
    (hstop : ∀ x, inv x → stop x = true → post true x)
    (hbody : ∀ x y, inv x → stop x = false → body x = .ok (true,y) → inv y)
    (hfail : ∀ x y, inv x → stop x = false → body x = .ok (false,y) → post false y)
    {x y : σ} {b : Bool} (hx : inv x) (h : loop size stop body x = .ok (b,y)) : post b y := by
  have key : ∀ n x, inv x → unroll (turn stop body) n x = .ok (b,y) → post b y := by
    intro n
    induction n with
    | zero => exact fun x _ he => by simp [unroll] at he
    | succ n ih =>
        intro x hx he
        simp only [unroll,turn] at he
        split_ifs at he with hs
        · obtain ⟨rfl,rfl⟩ : true = b ∧ x = y := by simpa using he
          exact hstop x hx hs
        · have hs : stop x = false := by simpa using hs
          obtain ⟨⟨success,r⟩,hr,he⟩ := Outcome.bind_eq_ok.mp he
          cases success with
          | true => exact ih r (hbody x r hx hs hr) he
          | false =>
              obtain ⟨rfl,rfl⟩ : false = b ∧ r = y := by simpa using he
              exact hfail x r hx hs hr
  exact key _ x hx h

/-- A failure of the loop is a failure of its body. -/
theorem loop_false {x y : σ} (h : loop size stop body x = .ok (false,y)) :
    ∃ z, body z = .ok (false,y) := by
  have hpost := loop_outcome (fun _ => True) (fun b y => b = false → ∃ z, body z = .ok (false,y))
    (fun _ _ _ hb => by cases hb) (fun _ _ _ _ _ => trivial) (fun z _ _ _ hz _ => ⟨z,hz⟩)
    trivial h
  exact hpost rfl

/-- What one turn preserves, the loop preserves. -/
theorem loop_preserves {inv : σ → Prop} (hbody : ∀ x b y, inv x → body x = .ok (b,y) → inv y)
    {x y : σ} {b : Bool} (hx : inv x) (h : loop size stop body x = .ok (b,y)) : inv y :=
  loop_outcome inv (fun _ => inv) (fun _ hx _ => hx) (fun x y hx _ => hbody x true y hx)
    (fun x y hx _ => hbody x false y hx) hx h

/-- What successful turns preserve holds where the loop succeeds. -/
theorem loop_success (inv : σ → Prop)
    (hbody : ∀ x y, inv x → stop x = false → body x = .ok (true,y) → inv y)
    {x y : σ} (hx : inv x) (h : loop size stop body x = .ok (true,y)) :
    inv y ∧ stop y = true := by
  have hpost := loop_outcome inv (fun b y => b = true → inv y ∧ stop y = true)
    (fun _ hx hs _ => ⟨hx,hs⟩) hbody (fun _ _ _ _ _ hb => by cases hb) hx h
  exact hpost rfl

end

end Filly.Descent

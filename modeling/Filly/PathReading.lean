import Filly.SvgPath
import Mathlib.Data.List.DropRight

/-!
# Reading a path to its end

A turn takes at least one character unless the text goes on, without a letter, with something
that the command cannot take. Then every further turn finds the same text and the same command.
-/
namespace Filly.SvgPath
open CJson WhileLoops

/-! ## What a path is -/

def PathCommand.arity : PathCommand → ℕ
  | .moveTo | .lineTo | .smoothQuad => 2
  | .horizontal | .vertical => 1
  | .quad | .smoothCubic => 4
  | .cubic => 6
  | .close => 0

/-- The text behind as many numbers. -/
def skipNumbers : ℕ → Bytes → Bytes
  | 0, d => d
  | n+1, d => skipNumbers n (afterNumber d)

/-- The command that stays in force: after a move the text goes on with lines. -/
def lastCommand (command : PathCommand) (cmd : UInt8) : UInt8 :=
  if command = .moveTo then if cmd = 77 then 76 else 108 else cmd

/-- With a command in force the text is read as the commands. Texts that do not begin with a
letter are read as nothing. An unknown letter takes a character with it. -/
inductive Reads : UInt8 → Bytes → List PathCommand → Prop
  | ended {cmd d} (h : skipSeparators d = []) : Reads cmd d []
  | unset {d c t} (h : skipSeparators d = c::t) (hc : isLetter c = false) : Reads 0 d []
  | letter {cmd d c t command cs} (h : skipSeparators d = c::t) (hc : isLetter c = true)
      (hcommand : commandOf c = some command)
      (rest : Reads (lastCommand command c) (skipNumbers command.arity (t.dropWhile (· = 32))) cs) :
      Reads cmd d (command::cs)
  | unknown {cmd d c t x u cs} (h : skipSeparators d = c::t) (hc : isLetter c = true)
      (hcommand : commandOf c = none) (ht : t.dropWhile (· = 32) = x::u) (rest : Reads c u cs) :
      Reads cmd d cs
  | again {cmd d c t command cs} (h : skipSeparators d = c::t) (hc : isLetter c = false)
      (hcmd : cmd ≠ 0) (hcommand : commandOf cmd = some command) (hopen : command ≠ .close)
      (hnumber : strtofLength (c::t) ≠ 0)
      (rest : Reads (lastCommand command cmd) (skipNumbers command.arity (c::t)) cs) :
      Reads cmd d (command::cs)
  | skip {cmd d c t cs} (h : skipSeparators d = c::t) (hc : isLetter c = false) (hcmd : cmd ≠ 0)
      (hcommand : commandOf cmd = none) (rest : Reads cmd t cs) : Reads cmd d cs

/-! ## What a turn takes -/

theorem skipSeparators_le (d : Bytes) : (skipSeparators d).length ≤ d.length :=
  (List.dropWhile_sublist _).length_le

theorem afterNumber_le (d : Bytes) : (afterNumber d).length ≤ d.length := by
  have h := skipSeparators_le d
  rw [afterNumber,List.length_drop]
  omega

theorem skipNumbers_le (n : ℕ) (d : Bytes) : (skipNumbers n d).length ≤ d.length := by
  induction n generalizing d with
  | zero => exact le_rfl
  | succ n ih => exact (ih _).trans (afterNumber_le d)

/-- Nothing is skipped where the separators are skipped already. -/
theorem skipSeparators_cons {d t : Bytes} {c : UInt8} (h : skipSeparators d = c::t) :
    skipSeparators (c::t) = c::t := by
  rw [← h]
  exact List.dropWhile_idempotent _ _

theorem afterNumber_lt {d t : Bytes} {c : UInt8} (h : skipSeparators d = c::t)
    (hnumber : strtofLength (c::t) ≠ 0) : (afterNumber (c::t)).length < (c::t).length := by
  rw [afterNumber,skipSeparators_cons h,List.length_drop,List.length_cons]
  omega

/-- Where there is no number the numbers of a command take nothing. -/
theorem skipNumbers_none {d t : Bytes} {c : UInt8} (h : skipSeparators d = c::t)
    (hnumber : strtofLength (c::t) = 0) (n : ℕ) : skipNumbers n (c::t) = c::t := by
  induction n with
  | zero => rfl
  | succ n ih =>
      have hsame : afterNumber (c::t) = c::t := by
        rw [afterNumber,skipSeparators_cons h,hnumber,List.drop_zero]
      rw [skipNumbers,hsame,ih]

section
variable {F : Type} {ar : PathArithmetic F}

theorem readCoordinate_snd (relative : Bool) (pos : F) (d : Bytes) :
    (readCoordinate ar relative pos d).2 = afterNumber d := rfl

theorem readPoint_snd (relative : Bool) (pos : F × F) (d : Bytes) :
    (readPoint ar relative pos d).2 = afterNumber (afterNumber d) := by
  rw [readPoint,readCoordinate_snd,readCoordinate_snd]

theorem execute_d (s : SvgParser F) (command : PathCommand) :
    (s.execute ar command).d = skipNumbers command.arity s.d := by
  cases command <;>
    simp only [SvgParser.execute,readCoordinate_snd,readPoint_snd,PathCommand.arity,skipNumbers]

theorem execute_cmd (s : SvgParser F) (command : PathCommand) :
    (s.execute ar command).cmd = lastCommand command s.cmd := by
  cases command <;> rfl

variable (ar) in
/-- The loop over the text is left, within the text. -/
def Ends (s : SvgParser F) : Prop := ∃ n r, runFor (pathTurn ar) s n = .returned (some r)

theorem ends_of_returned {s r : SvgParser F} (h : pathTurn ar s = .returned (some r)) :
    Ends ar s := ⟨1,r,runFor_of_returned h 0⟩

theorem ends_next_iff {s t : SvgParser F} (h : pathTurn ar s = .next t) : Ends ar s ↔ Ends ar t := by
  constructor
  · rintro ⟨n,r,hr⟩
    obtain ⟨m,hm⟩ := returned_of_next h hr
    exact ⟨m,r,hm⟩
  · rintro ⟨n,r,hr⟩
    exact ⟨n+1,r,(runFor_of_next h n).trans hr⟩

theorem not_ends_of_past {s : SvgParser F} (h : pathTurn ar s = .returned none) : ¬Ends ar s := by
  rintro ⟨n,r,hr⟩
  cases returned_eq h hr

/-! ## The turns -/

variable {s : SvgParser F} {c : UInt8} {t : Bytes}

theorem pathTurn_ended (h : skipSeparators s.d = []) :
    pathTurn ar s = .returned (some { s with d := [] }) := by
  rw [pathTurn,h]

theorem pathTurn_unset (h : skipSeparators s.d = c::t) (hc : isLetter c = false) (hcmd : s.cmd = 0) :
    pathTurn ar s = .returned (some { s with d := c::t }) := by
  rw [pathTurn,h]
  simp only [hc,Bool.false_eq_true,if_false,hcmd,if_true]

/-- A letter that is a command. -/
theorem pathTurn_letter {command : PathCommand} (h : skipSeparators s.d = c::t)
    (hc : isLetter c = true) (hcommand : commandOf c = some command) :
    pathTurn ar s =
      .next ({ s with cmd := c, d := t.dropWhile (· = 32) }.execute ar command) := by
  have hzero : c ≠ 0 := fun h0 => by rw [h0] at hc; cases hc
  rw [pathTurn,h]
  simp only [hc,if_true,if_neg hzero,hcommand]

/-- Another letter takes a character with it, which may be the end of the string. -/
theorem pathTurn_unknown (h : skipSeparators s.d = c::t) (hc : isLetter c = true)
    (hcommand : commandOf c = none) :
    pathTurn ar s =
      match t.dropWhile (· = 32) with
      | [] => .returned none
      | _::u => .next { s with cmd := c, d := u } := by
  have hzero : c ≠ 0 := fun h0 => by rw [h0] at hc; cases hc
  rw [pathTurn,h]
  simp only [hc,if_true,if_neg hzero,hcommand]
  cases t.dropWhile (· = 32) <;> rfl

/-- The command in force is read again. -/
theorem pathTurn_again {command : PathCommand} (h : skipSeparators s.d = c::t)
    (hc : isLetter c = false) (hcmd : s.cmd ≠ 0) (hcommand : commandOf s.cmd = some command) :
    pathTurn ar s = .next ({ s with d := c::t }.execute ar command) := by
  rw [pathTurn,h]
  simp only [hc,Bool.false_eq_true,if_false,if_neg hcmd,hcommand]

theorem pathTurn_skip (h : skipSeparators s.d = c::t) (hc : isLetter c = false) (hcmd : s.cmd ≠ 0)
    (hcommand : commandOf s.cmd = none) : pathTurn ar s = .next { s with d := t } := by
  rw [pathTurn,h]
  simp only [hc,Bool.false_eq_true,if_false,if_neg hcmd,hcommand]

/-- The text goes on with something that the command does not take. -/
def Stuck (s : SvgParser F) : Prop :=
  ∃ c t command, skipSeparators s.d = c::t ∧ isLetter c = false ∧ s.cmd ≠ 0 ∧
    commandOf s.cmd = some command ∧ (command = .close ∨ strtofLength (c::t) = 0)

theorem lastCommand_ne_zero {command : PathCommand} {cmd : UInt8} (h : cmd ≠ 0) :
    lastCommand command cmd ≠ 0 := by
  unfold lastCommand
  split_ifs
  · decide
  · decide
  · exact h

theorem commandOf_lastCommand {command : PathCommand} {cmd : UInt8}
    (h : commandOf cmd = some command) :
    commandOf (lastCommand command cmd) =
      some (if command = .moveTo then .lineTo else command) := by
  unfold lastCommand
  split_ifs
  · decide
  · decide
  · exact h

/-- Nothing changes any more for the loop. -/
theorem stuck_turn (hs : Stuck s) : ∃ u, pathTurn ar s = .next u ∧ Stuck u := by
  obtain ⟨c,t,command,h,hc,hcmd,hcommand,hstuck⟩ := hs
  refine ⟨_,pathTurn_again h hc hcmd hcommand,c,t,if command = .moveTo then .lineTo else command,
    ?_,hc,?_,?_,?_⟩
  · rw [execute_d]
    rcases hstuck with rfl | hnumber
    · exact skipSeparators_cons h
    · rw [skipNumbers_none h hnumber,skipSeparators_cons h]
  · rw [execute_cmd]
    exact lastCommand_ne_zero hcmd
  · rw [execute_cmd]
    exact commandOf_lastCommand hcommand
  · rcases hstuck with rfl | hnumber
    · exact .inl rfl
    · exact .inr hnumber

theorem not_ends_of_stuck (hs : Stuck s) : ¬Ends ar s := by
  have hnext (n : ℕ) : ∃ u, runFor (pathTurn ar) s n = .next u ∧ Stuck u := by
    induction n with
    | zero => exact ⟨s,rfl,hs⟩
    | succ n ih =>
        obtain ⟨u,hu,hstuck⟩ := ih
        obtain ⟨v,hv,hstuck⟩ := @stuck_turn F ar u hstuck
        exact ⟨v,by rw [runFor,hu,Turn.andThen,hv],hstuck⟩
  rintro ⟨n,r,hr⟩
  obtain ⟨u,hu,-⟩ := hnext n
  cases hu.symm.trans hr

/-! ## The end of the text -/

theorem length_le_of_skipSeparators {d : Bytes} (h : skipSeparators d = c::t) :
    t.length < d.length := by
  have hle := skipSeparators_le d
  rw [h,List.length_cons] at hle
  omega

theorem skipNumbers_lt {d : Bytes} {command : PathCommand} (h : skipSeparators d = c::t)
    (hopen : command ≠ .close) (hnumber : strtofLength (c::t) ≠ 0) :
    (skipNumbers command.arity (c::t)).length < d.length := by
  have hle := skipSeparators_le d
  have hlt := afterNumber_lt h hnumber
  obtain ⟨n,hn⟩ : ∃ n, command.arity = n+1 := by
    cases command with
    | close => exact absurd rfl hopen
    | moveTo | lineTo | smoothQuad | horizontal | vertical | quad | smoothCubic | cubic =>
        exact ⟨_,rfl⟩
  rw [hn,skipNumbers]
  rw [h] at hle
  exact (skipNumbers_le n _).trans_lt (hlt.trans_le hle)

/-- A path is read to its end. -/
theorem Reads.ends {cmd : UInt8} {d : Bytes} {cs : List PathCommand} (h : Reads cmd d cs)
    {s : SvgParser F} (hcmd : s.cmd = cmd) (hd : s.d = d) : Ends ar s := by
  induction h generalizing s with
  | ended h =>
      subst hd
      exact ends_of_returned (pathTurn_ended h)
  | unset h hc =>
      subst hd
      exact ends_of_returned (pathTurn_unset h hc hcmd)
  | letter h hc hcommand _ ih =>
      subst hd
      exact (ends_next_iff (pathTurn_letter h hc hcommand)).2 (ih (execute_cmd _ _) (execute_d _ _))
  | unknown h hc hcommand ht _ ih =>
      subst hd
      have hturn := @pathTurn_unknown F ar s _ _ h hc hcommand
      rw [ht] at hturn
      exact (ends_next_iff hturn).2 (ih rfl rfl)
  | again h hc hne hcommand _ _ _ ih =>
      subst hd hcmd
      exact (ends_next_iff (pathTurn_again h hc hne hcommand)).2
        (ih (execute_cmd _ _) (execute_d _ _))
  | skip h hc hne hcommand _ ih =>
      subst hd hcmd
      exact (ends_next_iff (pathTurn_skip h hc hne hcommand)).2 (ih rfl rfl)

/-- Along a path each turn takes a character, and what is left is a path. -/
theorem Reads.turn {cs : List PathCommand} {u : SvgParser F} (h : Reads s.cmd s.d cs)
    (hu : pathTurn ar s = .next u) :
    u.d.length < s.d.length ∧ ∃ cs, Reads u.cmd u.d cs := by
  generalize hcmd : s.cmd = cmd at h
  generalize hd : s.d = d at h
  cases h with
  | ended h =>
      subst hd
      cases (pathTurn_ended h).symm.trans hu
  | unset h hc =>
      subst hd
      cases (pathTurn_unset h hc hcmd).symm.trans hu
  | @letter _ _ c t command _ h hc hcommand rest =>
      subst hd
      cases (pathTurn_letter h hc hcommand).symm.trans hu
      have hle := skipNumbers_le command.arity (t.dropWhile (· = 32))
      have hspaces : (t.dropWhile (· = 32)).length ≤ t.length := (List.dropWhile_sublist _).length_le
      rw [execute_d,execute_cmd]
      exact ⟨(hle.trans hspaces).trans_lt (length_le_of_skipSeparators h),_,rest⟩
  | @unknown _ _ c t x v _ h hc hcommand ht rest =>
      subst hd
      have hturn := @pathTurn_unknown F ar s _ _ h hc hcommand
      rw [ht] at hturn
      cases hturn.symm.trans hu
      have hspaces : (t.dropWhile (· = 32)).length ≤ t.length := (List.dropWhile_sublist _).length_le
      have hlt := length_le_of_skipSeparators h
      rw [ht,List.length_cons] at hspaces
      exact ⟨(by omega : v.length < s.d.length),_,rest⟩
  | again h hc hne hcommand hopen hnumber rest =>
      subst hd hcmd
      cases (pathTurn_again h hc hne hcommand).symm.trans hu
      rw [execute_d,execute_cmd]
      exact ⟨skipNumbers_lt h hopen hnumber,_,rest⟩
  | skip h hc hne hcommand rest =>
      subst hd hcmd
      cases (pathTurn_skip h hc hne hcommand).symm.trans hu
      exact ⟨length_le_of_skipSeparators h,_,rest⟩

/-- Where the loop ends the text was a path. -/
theorem Ends.reads {s : SvgParser F} (h : Ends ar s) : ∃ cs, Reads s.cmd s.d cs := by
  induction hn : s.d.length using Nat.strong_induction_on generalizing s with
  | _ n ih =>
      subst hn
      cases hd : skipSeparators s.d with
      | nil => exact ⟨[],.ended hd⟩
      | cons c t =>
          have hlt := length_le_of_skipSeparators hd
          cases hc : isLetter c with
          | true =>
              have hspaces : (t.dropWhile (· = 32)).length ≤ t.length :=
                (List.dropWhile_sublist _).length_le
              cases hcommand : commandOf c with
              | some command =>
                  have hrest := (ends_next_iff (pathTurn_letter hd hc hcommand)).1 h
                  have hle := skipNumbers_le command.arity (t.dropWhile (· = 32))
                  obtain ⟨cs,hcs⟩ := ih _ (by rw [execute_d]; dsimp only; omega) hrest rfl
                  rw [execute_d,execute_cmd] at hcs
                  exact ⟨_,.letter hd hc hcommand hcs⟩
              | none =>
                  have hturn := @pathTurn_unknown F ar s _ _ hd hc hcommand
                  cases ht : t.dropWhile (· = 32) with
                  | nil =>
                      rw [ht] at hturn
                      exact absurd h (not_ends_of_past hturn)
                  | cons x u =>
                      rw [ht] at hturn hspaces
                      rw [List.length_cons] at hspaces
                      obtain ⟨cs,hcs⟩ := ih _ (by dsimp only; omega) ((ends_next_iff hturn).1 h) rfl
                      exact ⟨_,.unknown hd hc hcommand ht hcs⟩
          | false =>
              by_cases hcmd : s.cmd = 0
              · exact ⟨[],hcmd ▸ .unset hd hc⟩
              cases hcommand : commandOf s.cmd with
              | some command =>
                  by_cases hstuck : command = .close ∨ strtofLength (c::t) = 0
                  · exact absurd h (not_ends_of_stuck ⟨c,t,command,hd,hc,hcmd,hcommand,hstuck⟩)
                  · obtain ⟨hopen,hnumber⟩ := not_or.1 hstuck
                    have hrest := (ends_next_iff (pathTurn_again hd hc hcmd hcommand)).1 h
                    have hless := skipNumbers_lt hd hopen hnumber
                    obtain ⟨cs,hcs⟩ := ih _ (by rw [execute_d]; exact hless) hrest rfl
                    rw [execute_d,execute_cmd] at hcs
                    exact ⟨_,.again hd hc hcmd hcommand hopen hnumber hcs⟩
              | none =>
                  have hrest := (ends_next_iff (pathTurn_skip hd hc hcmd hcommand)).1 h
                  obtain ⟨cs,hcs⟩ := ih _ (by exact hlt) hrest rfl
                  exact ⟨_,.skip hd hc hcmd hcommand hcs⟩

variable (ar) in
/-- The loop over the text is left, within the text, and each of its turns takes a character. -/
structure ParsesToEnd (d : Bytes) : Prop where
  ends : Ends ar (pathStart ar d)
  consumes : ∀ s t, Reaches (pathTurn ar) (pathStart ar d) s → pathTurn ar s = .next t →
    t.d.length < s.d.length

/-- The text of a path comes to its end exactly if it can be read as commands. -/
theorem parses_to_end_iff (ar : PathArithmetic F) (d : Bytes) :
    ParsesToEnd ar d ↔ ∃ cs, Reads 0 (d.takeWhile (· ≠ 0)) cs := by
  constructor
  · exact fun h => h.ends.reads
  · rintro ⟨cs,h⟩
    refine ⟨h.ends rfl rfl,fun s t hs ht => ?_⟩
    have hreads : ∃ cs, Reads s.cmd s.d cs :=
      Reaches.invariant (I := fun s => ∃ cs, Reads s.cmd s.d cs)
        (fun _ _ ⟨_,hv⟩ hw => (hv.turn hw).2) hs ⟨cs,h⟩
    obtain ⟨cs,hreads⟩ := hreads
    exact (hreads.turn ht).1

/-! ## Paths that are not read to their end -/

theorem ends_after_iff {u : SvgParser F} {n : ℕ} (h : runFor (pathTurn ar) s n = .next u) :
    Ends ar s ↔ Ends ar u := by
  induction n generalizing u with
  | zero =>
      cases h
      exact Iff.rfl
  | succ n ih =>
      rw [runFor] at h
      cases hv : runFor (pathTurn ar) s n with
      | returned r =>
          rw [hv] at h
          cases h
      | next v =>
          rw [hv] at h
          exact (ih hv).trans (ends_next_iff h)

/-- The command in force and the text that is left, while the loop runs. -/
def placeOf : Turn (SvgParser F) (Option (SvgParser F)) → Option (UInt8 × Bytes)
  | .next s => some (s.cmd,s.d)
  | .returned _ => none

theorem placeOf_eq_some {x : Turn (SvgParser F) (Option (SvgParser F))} {cmd : UInt8} {d : Bytes}
    (h : placeOf x = some (cmd,d)) : ∃ u, x = .next u ∧ u.cmd = cmd ∧ u.d = d := by
  cases x with
  | next u =>
      cases h
      exact ⟨u,rfl,rfl,rfl⟩
  | returned r => cases h

/-- Coordinates that are not looked at. -/
def unitArithmetic : PathArithmetic Unit where
  zero := ()
  strtof := fun _ => ()
  scaled := id
  add := fun _ _ => ()
  reflect := fun _ _ => ()
  toShort := fun _ => 0

/-- After a close a number is not taken, a line does not take `#`, and behind an unknown letter
the end of the string is stepped over. -/
theorem paths_without_end :
    ¬ParsesToEnd unitArithmetic (bytes "M0 0Z5") ∧ ¬ParsesToEnd unitArithmetic (bytes "M0 0L#") ∧
      ¬ParsesToEnd unitArithmetic (bytes "M0 0B") := by
  have hclose : placeOf (runFor (pathTurn unitArithmetic)
      (pathStart unitArithmetic (bytes "M0 0Z5")) 2) = some (90,[53]) := by decide +kernel
  have hline : placeOf (runFor (pathTurn unitArithmetic)
      (pathStart unitArithmetic (bytes "M0 0L#")) 2) = some (76,[35]) := by decide +kernel
  have hletter : placeOf (runFor (pathTurn unitArithmetic)
      (pathStart unitArithmetic (bytes "M0 0B")) 1) = some (76,[66]) := by decide +kernel
  refine ⟨fun h => ?_,fun h => ?_,fun h => ?_⟩
  · obtain ⟨u,hu,hcmd,hd⟩ := placeOf_eq_some hclose
    refine not_ends_of_stuck ⟨53,[],.close,?_,by decide,?_,?_,.inl rfl⟩ ((ends_after_iff hu).1 h.ends)
    · rw [hd]
      decide
    · rw [hcmd]
      decide
    · rw [hcmd]
      decide
  · obtain ⟨u,hu,hcmd,hd⟩ := placeOf_eq_some hline
    refine not_ends_of_stuck ⟨35,[],.lineTo,?_,by decide,?_,?_,.inr (by decide +kernel)⟩
      ((ends_after_iff hu).1 h.ends)
    · rw [hd]
      decide
    · rw [hcmd]
      decide
    · rw [hcmd]
      decide
  · obtain ⟨u,hu,hcmd,hd⟩ := placeOf_eq_some hletter
    have hpast : pathTurn unitArithmetic u = .returned none :=
      pathTurn_unknown (c := 66) (t := []) (by rw [hd]; decide) (by decide) (by decide)
    exact not_ends_of_past hpast ((ends_after_iff hu).1 h.ends)

end

end Filly.SvgPath

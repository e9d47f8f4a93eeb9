/-
# Tickets that are taken once

A ticket is issued to a holder and taken back when the holder shows it.  A log has the newest entry
first.  It is `Honest` if every acceptance answers the last issue of the ticket, to the same holder,
with nothing about the ticket in between.  Then a ticket is accepted no more often than it has been
issued (`Honest.accepted_le_issued`).
-/
import Mathlib

namespace Coincync.Lib

variable {N P : Type} [DecidableEq N]

/-- An entry of the log. -/
inductive TicketEntry (N P : Type)
  | issued (ticket : N) (holder : P)
  | accepted (ticket : N) (holder : P)
  deriving DecidableEq

namespace TicketEntry

/-- The ticket an entry is about. -/
def ticket : TicketEntry N P → N
  | issued n _ => n
  | accepted n _ => n

def issue? : TicketEntry N P → Option N
  | issued n _ => some n
  | accepted _ _ => none

def accept? : TicketEntry N P → Option N
  | issued _ _ => none
  | accepted n _ => some n

end TicketEntry

open TicketEntry

/-- The last entry about a ticket. -/
def lastEntry (n : N) (log : List (TicketEntry N P)) : Option (TicketEntry N P) :=
  log.find? fun e => decide (e.ticket = n)

theorem lastEntry_cons_self (e : TicketEntry N P) (log : List (TicketEntry N P)) :
    lastEntry e.ticket (e :: log) = some e :=
  List.find?_cons_of_pos (decide_eq_true rfl)

variable {e : TicketEntry N P}

theorem lastEntry_cons_of_ne {n : N} (h : e.ticket ≠ n)
    (log : List (TicketEntry N P)) : lastEntry n (e :: log) = lastEntry n log :=
  List.find?_cons_of_neg (by simpa using h)

/-- **Every acceptance answers the last issue of its ticket.** -/
def Honest : List (TicketEntry N P) → Prop
  | [] => True
  | .issued _ _ :: log => Honest log
  | .accepted n p :: log => lastEntry n log = some (.issued n p) ∧ Honest log

theorem Honest.lastEntry_eq {newer older : List (TicketEntry N P)} {n : N} {p : P}
    (h : Honest (newer ++ .accepted n p :: older)) : lastEntry n older = some (.issued n p) := by
  induction newer with
  | nil => exact h.1
  | cons e newer ih =>
    cases e with
    | issued m q => exact ih h
    | accepted m q => exact ih h.2

/-- The tickets issued, the newest first. -/
def issues (log : List (TicketEntry N P)) : List N := log.filterMap issue?

/-- The tickets accepted, the newest first. -/
def acceptances (log : List (TicketEntry N P)) : List N := log.filterMap accept?

/-- The ticket has been issued and not been accepted since. -/
def isOpen (n : N) (log : List (TicketEntry N P)) : Bool :=
  (lastEntry n log).any fun e => (issue? e).isSome

theorem isOpen_cons_self (e : TicketEntry N P) (log : List (TicketEntry N P)) :
    isOpen e.ticket (e :: log) = (issue? e).isSome := by
  rw [isOpen, lastEntry_cons_self]
  rfl

theorem isOpen_cons_of_ne {n : N} (h : e.ticket ≠ n)
    (log : List (TicketEntry N P)) : isOpen n (e :: log) = isOpen n log := by
  rw [isOpen, lastEntry_cons_of_ne h, isOpen]

variable {log : List (TicketEntry N P)}

theorem Honest.accepted_add_open_le_issued (h : Honest log) (n : N) :
    (acceptances log).count n + (if isOpen n log = true then 1 else 0) ≤ (issues log).count n := by
  induction log with
  | nil => exact le_refl 0
  | cons e log ih =>
    cases e with
    | issued m q =>
      have hacc : acceptances (.issued m q :: log) = acceptances log := rfl
      have hiss : issues (.issued m q :: log) = m :: issues log := rfl
      have ih := ih h
      by_cases hm : m = n
      · subst hm
        have hnow : isOpen m (.issued m q :: log) = true := isOpen_cons_self (.issued m q) log
        rw [hacc, hiss, List.count_cons_self, if_pos hnow]
        omega
      · rw [hacc, hiss, List.count_cons_of_ne hm, isOpen_cons_of_ne (e := .issued m q) hm]
        exact ih
    | accepted m q =>
      have hacc : acceptances (.accepted m q :: log) = m :: acceptances log := rfl
      have hiss : issues (.accepted m q :: log) = issues log := rfl
      have ih := ih h.2
      by_cases hm : m = n
      · -- it was open before, so one issue was left to be answered
        subst hm
        have hwas : isOpen m log = true := by
          rw [isOpen, h.1]
          rfl
        have hnow : isOpen m (.accepted m q :: log) = false := isOpen_cons_self (.accepted m q) log
        rw [if_pos hwas] at ih
        rw [hacc, hiss, List.count_cons_self, hnow]
        exact ih
      · rw [hacc, hiss, List.count_cons_of_ne hm, isOpen_cons_of_ne (e := .accepted m q) hm]
        exact ih

theorem Honest.nodup_acceptances (h : Honest log)
    (hnodup : (issues log).Nodup) : (acceptances log).Nodup :=
  List.nodup_iff_count_le_one.mpr fun n =>
    ((Nat.le_add_right _ _).trans (h.accepted_add_open_le_issued n)).trans
      (List.nodup_iff_count_le_one.mp hnodup n)

end Coincync.Lib

import JourneyPlanner.Proofs.Schedule.Traffic

/-!
# The schedule lock is safe

The main result of this file, `lock_safe`, is about every state that readers and writers, as many
as there may be, can bring a lock to:

> at most one write scope is open, and none together with a read scope; writers go in in the
> order in which they have drawn their tickets; no reader goes in while a writer has a ticket;
> the counts of the gate stay within their bounds; and whenever somebody waits while no scope is
> open, somebody who waits is awake and may go in.

The tickets that writers have gone in with are told by the moves that have led to a state
(`Traffic.Run.entered`): with those that have left again they are all below the one that is
served, and the one inside holds that.
-/

namespace JourneyPlanner

namespace Traffic

variable {R W : Type} {s : Traffic R W}

/-- The ticket that a move draws. -/
def Move.drawn? : Move R W → Option Nat
  | .writerDraws _ ticket => some ticket
  | _ => none

/-- The ticket with which a move opens a write scope. -/
def Move.entered? : Move R W → Option Nat
  | .writerEnters _ ticket => some ticket
  | _ => none

/-- Somebody waits, asleep or awake. -/
def SomeoneWaits (s : Traffic R W) : Prop :=
  (∃ r asleep, s.reader r = .waiting asleep) ∨
    ∃ w ticket asleep, s.writer w = .waiting ticket asleep

/-- No scope is open. -/
def NoScope (s : Traffic R W) : Prop :=
  (∀ r, s.reader r ≠ .inside) ∧ ∀ w ticket, s.writer w ≠ .inside ticket

section Run

variable [DecidableEq R] [DecidableEq W] {moves : List (Move R W)}

/-- Tickets are drawn in the order of their numbers. -/
theorem Run.drawn (h : Run moves s) :
    moves.filterMap Move.drawn? = List.range s.gate.nextTicket := by
  induction h with
  | start => rfl
  | step moves s move s' hrun hstep ih =>
    rw [List.filterMap_append, ih]
    cases hstep with
    | writerDraws w haway => exact List.range_succ.symm
    | readerEnters | readerSleeps | readerLeaves | lastReaderLeaves | writerEnters | writerSleeps
    | writerLeaves => exact List.append_nil _

/-- The tickets with which writers have gone in, by what is left of them: all below the one that is
served, and that one too while a writer is inside. -/
structure Entered (s : Traffic R W) (tickets : List Nat) : Prop where
  idle : (∀ w t, s.writer w ≠ .inside t) → tickets = List.range s.gate.serving
  busy : ∀ w t, s.writer w = .inside t → tickets = List.range (s.gate.serving + 1)

omit [DecidableEq R] [DecidableEq W] in
theorem Entered.congr {s' : Traffic R W} {tickets : List Nat} (h : s.Entered tickets)
    (hserving : s'.gate.serving = s.gate.serving)
    (hwriter : ∀ w t, s'.writer w = .inside t ↔ s.writer w = .inside t) : s'.Entered tickets := by
  refine ⟨?_, ?_⟩
  · intro hnone
    rw [hserving]
    exact h.idle fun w t hw => hnone w t ((hwriter w t).2 hw)
  · intro w t hw
    rw [hserving]
    exact h.busy w t ((hwriter w t).1 hw)

omit [DecidableEq R] in
/-- A writer that is not inside goes where it is not inside either. -/
theorem setWriter_inside_iff {w : W} {place : WriterAt} (hold : ∀ t, s.writer w ≠ .inside t)
    (hnew : ∀ t, place ≠ .inside t) (w' : W) (t : Nat) :
    (s.setWriter w place).writer w' = .inside t ↔ s.writer w' = .inside t := by
  rw [writer_setWriter]
  by_cases hw : w' = w
  · rw [if_pos hw, hw]
    exact iff_of_false (hnew t) (hold t)
  · rw [if_neg hw]

omit [DecidableEq R] in
/-- A writer that goes in holds the ticket that is served, so that no other was inside. -/
theorem Entered.writerEnters {tickets : List Nat} {w : W} {t : Nat} (h : s.Entered tickets)
    (horderly : s.Orderly) (hready : s.writer w = .waiting t false)
    (hmay : s.gate.mayWrite t = true) :
    (s.setWriter w (.inside t)).Entered (tickets ++ [t]) := by
  obtain ⟨rfl, hreaders⟩ := Gate.mayWrite_iff.1 hmay
  have hnone : ∀ w' t, s.writer w' ≠ .inside t := by
    intro w' t' hw'
    obtain ⟨rfl, -⟩ := horderly.scopes.writing w' t' hw'
    have heq : w' = w := by
      refine horderly.tickets.unique w' w s.gate.serving ?_ ?_
      · rw [hw']
        rfl
      · rw [hready]
        rfl
    rw [heq, hready] at hw'
    cases hw'
  have htickets : tickets ++ [s.gate.serving] = List.range (s.gate.serving + 1) := by
    rw [h.idle hnone]
    exact List.range_succ.symm
  refine ⟨?_, fun _ _ _ => htickets⟩
  intro hall
  refine absurd ?_ (hall w s.gate.serving)
  rw [writer_setWriter, if_pos rfl]

omit [DecidableEq R] in
/-- The writer that leaves takes its ticket out of service. -/
theorem Entered.writerLeaves {tickets : List Nat} {w : W} {t : Nat} (h : s.Entered tickets)
    (horderly : s.Orderly) (hinside : s.writer w = .inside t) :
    Entered { s.setWriter w .away with gate := s.gate.leaveWriter }.wake tickets := by
  refine ⟨fun _ => h.busy w t hinside, ?_⟩
  intro w' t' hw'
  have hw' : (s.setWriter w .away).writer w' = .inside t' :=
    (WriterAt.woken_eq_inside_iff _ _).1 hw'
  rcases of_writer_setWriter hw' with heq | ⟨hne, hw'⟩
  · cases heq
  · exact absurd (horderly.scopes.eq_of_inside horderly.tickets hw' hinside) hne

/-- Writers go in in the order of their tickets. -/
theorem Run.entered (h : Run moves s) : s.Entered (moves.filterMap Move.entered?) := by
  induction h with
  | start =>
    refine ⟨fun _ => rfl, ?_⟩
    intro w t hw
    cases hw
  | step moves s move s' hrun hstep ih =>
    -- but for a writer that goes in no move adds a ticket
    have hsame : move.entered? = none →
        (moves ++ [move]).filterMap Move.entered? = moves.filterMap Move.entered? := by
      intro hnone
      rw [List.filterMap_append, List.filterMap_cons_none hnone]
      exact List.append_nil _
    cases hstep with
    | readerEnters | readerSleeps | readerLeaves =>
      rw [hsame rfl]
      exact ih.congr rfl fun _ _ => Iff.rfl
    | lastReaderLeaves r hinside hlast =>
      rw [hsame rfl]
      exact ih.congr rfl fun w => (s.writer w).woken_eq_inside_iff
    | writerDraws w haway =>
      rw [hsame rfl]
      refine ih.congr rfl (setWriter_inside_iff ?_ ?_)
      · intro t hw
        rw [haway] at hw
        cases hw
      · intro t hw
        cases hw
    | writerSleeps w t hready hmay =>
      rw [hsame rfl]
      refine ih.congr rfl (setWriter_inside_iff ?_ ?_)
      · intro t hw
        rw [hready] at hw
        cases hw
      · intro t hw
        cases hw
    | writerEnters w t hready hmay =>
      rw [List.filterMap_append]
      exact ih.writerEnters hrun.orderly hready hmay
    | writerLeaves w t hinside =>
      rw [hsame rfl]
      exact ih.writerLeaves hrun.orderly hinside

end Run

/-- Whenever somebody waits while no scope is open, somebody who waits is awake and may go in. -/
theorem Orderly.goes_on (h : s.Orderly) (hwaits : s.SomeoneWaits) (hnone : s.NoScope) :
    (∃ r, s.reader r = .waiting false ∧ s.gate.mayRead = true) ∨
      ∃ w ticket, s.writer w = .waiting ticket false ∧ s.gate.mayWrite ticket = true := by
  have hreaders := h.scopes.readers_eq_zero hnone.1
  by_cases hqueued : s.gate.serving < s.gate.nextTicket
  · -- the writer whose ticket is served waits
    obtain ⟨w, hw⟩ := h.tickets.holder _ (Nat.le_refl _) hqueued
    have hmay : s.gate.mayWrite s.gate.serving = true := Gate.mayWrite_iff.2 ⟨rfl, hreaders⟩
    refine Or.inr ⟨w, s.gate.serving, ?_, hmay⟩
    cases hplace : s.writer w with
    | away =>
      rw [hplace] at hw
      cases hw
    | inside t => exact absurd hplace (hnone.2 w t)
    | waiting t asleep =>
      rw [hplace] at hw
      cases hw
      cases asleep with
      | false => rfl
      | true =>
        have hnot := h.sleepers.writer w _ hplace
        rw [hmay] at hnot
        cases hnot
  · -- no writer has a ticket, so a reader waits
    have hmay : s.gate.mayRead = true := by
      have hzero : s.gate.nextTicket - s.gate.serving = 0 := by omega
      exact beq_iff_eq.2 hzero
    rcases hwaits with ⟨r, asleep, hr⟩ | ⟨w, t, asleep, hw⟩
    · refine Or.inl ⟨r, ?_, hmay⟩
      cases asleep with
      | false => exact hr
      | true =>
        have hnot := h.sleepers.reader r hr
        rw [hmay] at hnot
        cases hnot
    · have hticket := h.tickets.ticket?_of_mayRead hmay w
      rw [hw] at hticket
      cases hticket

end Traffic

/-- Whatever readers and writers have done at a lock: no scope is open together with a write
scope; writers have drawn tickets and gone in with them in order; a reader that goes in finds no
writer inside or waiting; the counts are right; and somebody may go in whenever somebody waits
while no scope is open. -/
theorem lock_safe {R W : Type} [DecidableEq R] [DecidableEq W]
    {moves : List (Traffic.Move R W)} {s : Traffic R W} (hrun : Traffic.Run moves s) :
    (∀ w t, s.writer w = .inside t →
      (∀ w' t', s.writer w' = .inside t' → w' = w) ∧ ∀ r, s.reader r ≠ .inside) ∧
    (moves.filterMap Traffic.Move.drawn? = List.range s.gate.nextTicket ∧
      ∃ n, moves.filterMap Traffic.Move.entered? = List.range n) ∧
    (∀ r s', Traffic.Step s (.readerEnters r) s' → ∀ w, s.writer w = .away) ∧
    (s.gate.serving ≤ s.gate.nextTicket ∧
      ∀ r s', Traffic.Step s (.readerLeaves r) s' → 0 < s.gate.readers) ∧
    (s.SomeoneWaits → s.NoScope →
      (∃ r, s.reader r = .waiting false ∧ s.gate.mayRead = true) ∨
        ∃ w t, s.writer w = .waiting t false ∧ s.gate.mayWrite t = true) := by
  have horderly := hrun.orderly
  refine ⟨?_, ⟨hrun.drawn, ?_⟩, ?_, ⟨horderly.tickets.serving_le, ?_⟩, horderly.goes_on⟩
  · intro w t hw
    refine ⟨fun w' t' hw' => horderly.scopes.eq_of_inside horderly.tickets hw' hw, ?_⟩
    intro r hr
    have hpos := horderly.scopes.readers_pos hr
    have hzero := (horderly.scopes.writing w t hw).2
    omega
  · by_cases hinside : ∃ w t, s.writer w = .inside t
    · obtain ⟨w, t, hw⟩ := hinside
      exact ⟨_, hrun.entered.busy w t hw⟩
    · exact ⟨_, hrun.entered.idle fun w t hw => hinside ⟨w, t, hw⟩⟩
  · intro r s' hstep w
    cases hstep with
    | readerEnters _ hready hmay =>
      have hticket := horderly.tickets.ticket?_of_mayRead hmay w
      cases hplace : s.writer w with
      | away => rfl
      | waiting t asleep =>
        rw [hplace] at hticket
        cases hticket
      | inside t =>
        rw [hplace] at hticket
        cases hticket
  · intro r s' hstep
    cases hstep with
    | readerLeaves _ hinside hothers => exact horderly.scopes.readers_pos hinside
    | lastReaderLeaves _ hinside hlast => exact horderly.scopes.readers_pos hinside

/-- Two writers have drawn tickets, the first has been inside, and meanwhile the second and a
reader have come to the gate and gone to sleep. The second may go in now, and the reader not. -/
theorem lock_safe_twoWriters : ∃ (moves : List (Traffic.Move Unit Bool)) (s : Traffic Unit Bool),
    Traffic.Run moves s ∧ s.SomeoneWaits ∧ s.NoScope ∧
    moves.filterMap Traffic.Move.entered? = [0] ∧ s.gate.serving ≤ s.gate.nextTicket ∧
    ((∃ r, s.reader r = .waiting false ∧ s.gate.mayRead = true) ∨
      ∃ w t, s.writer w = .waiting t false ∧ s.gate.mayWrite t = true) := by
  obtain ⟨moves, s, hrun, hwaits, hnone, hentered⟩ :
      ∃ (moves : List (Traffic.Move Unit Bool)) (s : Traffic Unit Bool), Traffic.Run moves s ∧
        s.SomeoneWaits ∧ s.NoScope ∧ moves.filterMap Traffic.Move.entered? = [0] := by
    have hstart : Traffic.Run [] (Traffic.start : Traffic Unit Bool) := .start
    have hdrawn := (hstart.step _ _ _ _ (.writerDraws _ false rfl)).step _ _ _ _
      (.writerDraws _ true rfl)
    have hinside := hdrawn.step _ _ _ _ (.writerEnters _ false 0 rfl rfl)
    have hasleep := (hinside.step _ _ _ _ (.writerSleeps _ true 1 rfl rfl)).step _ _ _ _
      (.readerSleeps _ () rfl rfl)
    refine ⟨_, _, hasleep.step _ _ _ _ (.writerLeaves _ false 0 rfl), Or.inl ⟨(), false, rfl⟩,
      ⟨fun r hr => ?_, fun w t hw => ?_⟩, rfl⟩
    · cases hr
    · cases w <;> cases hw
  obtain ⟨-, -, -, ⟨hle, -⟩, hgoes⟩ := lock_safe hrun
  exact ⟨moves, s, hrun, hwaits, hnone, hentered, hle, hgoes hwaits hnone⟩

end JourneyPlanner

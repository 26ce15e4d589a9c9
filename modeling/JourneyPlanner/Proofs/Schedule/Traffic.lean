import JourneyPlanner.Schedule.Lock
import Mathlib.Data.Finset.Card
import Mathlib.Logic.Function.Basic

/-!
# Who passes the gate

Any number of readers and writers use one lock, in any order. What each of them does while it
holds the mutex of the gate is one step that nothing interrupts: a reader's test, after which it
is inside or sleeps; a writer's drawing of a ticket; its test; and the leaving of either, which
wakes all who sleep, for a reader only if it is the last. `Traffic` is the gate with all who use
it, `Traffic.Step` what one of them may do next.

The main result, `lock_safe`, rests on one invariant (`Traffic.Orderly`) in three parts:

> the tickets that are out are those from the one that is served up to the next, each held by
> one writer;
> a writer inside holds the ticket that is served, while no reader is inside, and the readers
> are counted;
> whoever sleeps could not go in.

Each step keeps it (`Traffic.Orderly.step`), so it holds wherever steps have led to. By its last
part nobody sleeps on who could go in: that only the last reader wakes the others does no harm.
-/

namespace JourneyPlanner

/-- Where a reader stands. -/
inductive ReaderAt where
  | away
  | waiting (asleep : Bool)
  | inside
  deriving DecidableEq

/-- Where a writer stands, with the ticket that it has drawn. -/
inductive WriterAt where
  | away
  | waiting (ticket : Nat) (asleep : Bool)
  | inside (ticket : Nat)
  deriving DecidableEq

namespace ReaderAt

/-- Whether a reader may come to the gate: it is neither inside nor asleep. -/
def isReady : ReaderAt → Bool
  | away | waiting false => true
  | waiting true | inside => false

/-- A reader that is woken if it sleeps. -/
def woken : ReaderAt → ReaderAt
  | waiting _ => waiting false
  | away => away
  | inside => inside

/-- Waking takes no reader into the lock or out of it. -/
theorem woken_eq_inside_iff (r : ReaderAt) : r.woken = .inside ↔ r = .inside := by
  cases r <;> simp [woken]

/-- A reader that was woken is not asleep. -/
theorem woken_ne_asleep (r : ReaderAt) : r.woken ≠ .waiting true := by
  cases r <;> simp [woken]

end ReaderAt

namespace WriterAt

/-- The ticket that a writer has drawn and not given back. -/
def ticket? : WriterAt → Option Nat
  | away => none
  | waiting ticket _ | inside ticket => some ticket

/-- A writer that is woken if it sleeps. -/
def woken : WriterAt → WriterAt
  | waiting ticket _ => waiting ticket false
  | away => away
  | inside ticket => inside ticket

@[simp] theorem ticket?_woken (w : WriterAt) : w.woken.ticket? = w.ticket? := by
  cases w <;> rfl

/-- Waking takes no writer into the lock or out of it. -/
theorem woken_eq_inside_iff (w : WriterAt) (t : Nat) : w.woken = .inside t ↔ w = .inside t := by
  cases w <;> simp [woken]

/-- A writer that was woken is not asleep. -/
theorem woken_ne_asleep (w : WriterAt) (t : Nat) : w.woken ≠ .waiting t true := by
  cases w <;> simp [woken]

end WriterAt

/-- The gate of a lock, and all who use it. -/
structure Traffic (R W : Type) where
  gate : Gate
  reader : R → ReaderAt
  writer : W → WriterAt

/-- What a party does at the gate. -/
inductive Traffic.Move (R W : Type) where
  | readerEnters (r : R)
  | readerSleeps (r : R)
  | readerLeaves (r : R)
  | writerDraws (w : W) (ticket : Nat)
  | writerEnters (w : W) (ticket : Nat)
  | writerSleeps (w : W) (ticket : Nat)
  | writerLeaves (w : W) (ticket : Nat)

namespace Traffic

variable {R W : Type} {s s' : Traffic R W}

/-- Nobody has come yet. -/
def start : Traffic R W :=
  { gate := Gate.new, reader := fun _ => .away, writer := fun _ => .away }

/-- One reader has gone elsewhere. -/
def setReader [DecidableEq R] (s : Traffic R W) (r : R) (place : ReaderAt) : Traffic R W :=
  { s with reader := Function.update s.reader r place }

/-- One writer has gone elsewhere. -/
def setWriter [DecidableEq W] (s : Traffic R W) (w : W) (place : WriterAt) : Traffic R W :=
  { s with writer := Function.update s.writer w place }

/-- Everyone who sleeps is woken. -/
def wake (s : Traffic R W) : Traffic R W :=
  { s with reader := fun r => (s.reader r).woken, writer := fun w => (s.writer w).woken }

/-- One step of one party. Each is what the party does while it holds the mutex. -/
inductive Step [DecidableEq R] [DecidableEq W] : Traffic R W → Move R W → Traffic R W → Prop
  | readerEnters (s : Traffic R W) (r : R) (hready : (s.reader r).isReady = true)
      (hmay : s.gate.mayRead = true) :
      Step s (.readerEnters r) { s.setReader r .inside with gate := s.gate.enterReader }
  | readerSleeps (s : Traffic R W) (r : R) (hready : (s.reader r).isReady = true)
      (hmay : s.gate.mayRead = false) :
      Step s (.readerSleeps r) (s.setReader r (.waiting true))
  | readerLeaves (s : Traffic R W) (r : R) (hinside : s.reader r = .inside)
      (hothers : s.gate.leaveReader.readers ≠ 0) :
      Step s (.readerLeaves r) { s.setReader r .away with gate := s.gate.leaveReader }
  | lastReaderLeaves (s : Traffic R W) (r : R) (hinside : s.reader r = .inside)
      (hlast : s.gate.leaveReader.readers = 0) :
      Step s (.readerLeaves r) { s.setReader r .away with gate := s.gate.leaveReader }.wake
  | writerDraws (s : Traffic R W) (w : W) (haway : s.writer w = .away) :
      Step s (.writerDraws w s.gate.drawTicket.1)
        { s.setWriter w (.waiting s.gate.drawTicket.1 false) with gate := s.gate.drawTicket.2 }
  | writerEnters (s : Traffic R W) (w : W) (ticket : Nat)
      (hready : s.writer w = .waiting ticket false) (hmay : s.gate.mayWrite ticket = true) :
      Step s (.writerEnters w ticket) (s.setWriter w (.inside ticket))
  | writerSleeps (s : Traffic R W) (w : W) (ticket : Nat)
      (hready : s.writer w = .waiting ticket false) (hmay : s.gate.mayWrite ticket = false) :
      Step s (.writerSleeps w ticket) (s.setWriter w (.waiting ticket true))
  | writerLeaves (s : Traffic R W) (w : W) (ticket : Nat) (hinside : s.writer w = .inside ticket) :
      Step s (.writerLeaves w ticket)
        { s.setWriter w .away with gate := s.gate.leaveWriter }.wake

/-- The moves that have led to a state, in their order. -/
inductive Run [DecidableEq R] [DecidableEq W] : List (Move R W) → Traffic R W → Prop
  | start : Run [] start
  | step (moves : List (Move R W)) (s : Traffic R W) (move : Move R W) (s' : Traffic R W)
      (hrun : Run moves s) (hstep : Step s move s') : Run (moves ++ [move]) s'

/-! ## Where the parties stand after a step -/

section Places

variable [DecidableEq R] [DecidableEq W]

omit [DecidableEq W] in
theorem reader_setReader (s : Traffic R W) (r r' : R) (place : ReaderAt) :
    (s.setReader r place).reader r' = if r' = r then place else s.reader r' := by
  by_cases h : r' = r
  · subst h
    simp [setReader]
  · simp [setReader, h]

omit [DecidableEq R] in
theorem writer_setWriter (s : Traffic R W) (w w' : W) (place : WriterAt) :
    (s.setWriter w place).writer w' = if w' = w then place else s.writer w' := by
  by_cases h : w' = w
  · subst h
    simp [setWriter]
  · simp [setWriter, h]

omit [DecidableEq W] in
/-- A reader stands where it has gone, or where it stood. -/
theorem of_reader_setReader {r r' : R} {place place' : ReaderAt}
    (h : (s.setReader r place).reader r' = place') : place = place' ∨ s.reader r' = place' := by
  rw [reader_setReader] at h
  by_cases hr : r' = r
  · exact Or.inl (by rw [if_pos hr] at h; exact h)
  · exact Or.inr (by rw [if_neg hr] at h; exact h)

omit [DecidableEq R] in
/-- A writer stands where it has gone, or it is another and stands where it stood. -/
theorem of_writer_setWriter {w w' : W} {place place' : WriterAt}
    (h : (s.setWriter w place).writer w' = place') :
    place = place' ∨ w' ≠ w ∧ s.writer w' = place' := by
  rw [writer_setWriter] at h
  by_cases hw : w' = w
  · exact Or.inl (by rw [if_pos hw] at h; exact h)
  · exact Or.inr ⟨hw, by rw [if_neg hw] at h; exact h⟩

omit [DecidableEq R] in
/-- Going in or to sleep a writer keeps its ticket. -/
theorem ticket?_setWriter {w : W} {place : WriterAt}
    (h : place.ticket? = (s.writer w).ticket?) (w' : W) :
    ((s.setWriter w place).writer w').ticket? = (s.writer w').ticket? := by
  rw [writer_setWriter]
  by_cases hw : w' = w
  · rw [if_pos hw, h, hw]
  · rw [if_neg hw]

end Places

/-! ## Tickets -/

/-- The tickets that are out are those from the one served up to the next, one writer each. -/
structure Ticketed (s : Traffic R W) : Prop where
  serving_le : s.gate.serving ≤ s.gate.nextTicket
  held : ∀ w t, (s.writer w).ticket? = some t →
    s.gate.serving ≤ t ∧ t < s.gate.nextTicket
  unique : ∀ w w' t, (s.writer w).ticket? = some t → (s.writer w').ticket? = some t → w = w'
  holder : ∀ t, s.gate.serving ≤ t → t < s.gate.nextTicket →
    ∃ w, (s.writer w).ticket? = some t

/-- Only the tickets of the writers and of the gate matter. -/
theorem Ticketed.congr (h : s.Ticketed) (hserving : s'.gate.serving = s.gate.serving)
    (hnext : s'.gate.nextTicket = s.gate.nextTicket)
    (hwriter : ∀ w, (s'.writer w).ticket? = (s.writer w).ticket?) : s'.Ticketed := by
  refine ⟨?_, ?_, ?_, ?_⟩
  · rw [hserving, hnext]
    exact h.serving_le
  · intro w t ht
    rw [hwriter] at ht
    rw [hserving, hnext]
    exact h.held w t ht
  · intro w w' t ht ht'
    rw [hwriter] at ht ht'
    exact h.unique w w' t ht ht'
  · intro t hle hlt
    rw [hserving] at hle
    rw [hnext] at hlt
    obtain ⟨w, hw⟩ := h.holder t hle hlt
    exact ⟨w, by rw [hwriter]; exact hw⟩

/-- A writer that draws gets the one ticket nobody has yet. -/
theorem Ticketed.draw [DecidableEq W] (h : s.Ticketed) {w : W} (haway : s.writer w = .away) :
    Ticketed { s.setWriter w (.waiting s.gate.drawTicket.1 false) with
      gate := s.gate.drawTicket.2 } := by
  have hticket : ∀ w', ((s.setWriter w (.waiting s.gate.nextTicket false)).writer w').ticket? =
      if w' = w then some s.gate.nextTicket else (s.writer w').ticket? := by
    intro w'
    rw [writer_setWriter]
    split <;> rfl
  -- no writer has held the ticket before
  have hfresh : ∀ w', (s.writer w').ticket? ≠ some s.gate.nextTicket := by
    intro w' hw'
    exact absurd (h.held w' _ hw').2 (Nat.lt_irrefl _)
  refine ⟨Nat.le_succ_of_le h.serving_le, ?_, ?_, ?_⟩
  · intro w' t ht
    have ht := (hticket w').symm.trans ht
    show s.gate.serving ≤ t ∧ t < s.gate.nextTicket + 1
    split at ht
    · cases ht
      exact ⟨h.serving_le, Nat.lt_succ_self _⟩
    · have := h.held w' t ht
      omega
  · intro w₁ w₂ t h₁ h₂
    have h₁ := (hticket w₁).symm.trans h₁
    have h₂ := (hticket w₂).symm.trans h₂
    by_cases hw₁ : w₁ = w
    · by_cases hw₂ : w₂ = w
      · rw [hw₁, hw₂]
      · rw [if_pos hw₁] at h₁
        rw [if_neg hw₂, ← h₁] at h₂
        exact absurd h₂ (hfresh w₂)
    · by_cases hw₂ : w₂ = w
      · rw [if_pos hw₂] at h₂
        rw [if_neg hw₁, ← h₂] at h₁
        exact absurd h₁ (hfresh w₁)
      · rw [if_neg hw₁] at h₁
        rw [if_neg hw₂] at h₂
        exact h.unique w₁ w₂ t h₁ h₂
  · intro t hle hlt
    have hlt : t < s.gate.nextTicket + 1 := hlt
    by_cases ht : t = s.gate.nextTicket
    · exact ⟨w, (hticket w).trans (by rw [if_pos rfl, ht])⟩
    · obtain ⟨w', hw'⟩ := h.holder t hle (by omega)
      have hne : w' ≠ w := by
        rintro rfl
        rw [haway] at hw'
        cases hw'
      exact ⟨w', (hticket w').trans (by rw [if_neg hne, hw'])⟩

/-- The writer with the ticket that is served gives it back. -/
theorem Ticketed.leave [DecidableEq W] (h : s.Ticketed) {w : W}
    (hw : (s.writer w).ticket? = some s.gate.serving) :
    Ticketed { s.setWriter w .away with gate := s.gate.leaveWriter } := by
  have hticket : ∀ w', ((s.setWriter w .away).writer w').ticket? =
      if w' = w then none else (s.writer w').ticket? := by
    intro w'
    rw [writer_setWriter]
    split <;> rfl
  refine ⟨(h.held w _ hw).2, ?_, ?_, ?_⟩
  · intro w' t ht
    have ht := (hticket w').symm.trans ht
    split at ht
    · cases ht
    · next hne =>
      -- the ticket that is served was held by the other writer
      have hserved : t ≠ s.gate.serving := by
        rintro rfl
        exact hne (h.unique w' w _ ht hw)
      have := h.held w' t ht
      show s.gate.serving + 1 ≤ t ∧ t < s.gate.nextTicket
      omega
  · intro w₁ w₂ t h₁ h₂
    have h₁ := (hticket w₁).symm.trans h₁
    have h₂ := (hticket w₂).symm.trans h₂
    split at h₁
    · cases h₁
    · split at h₂
      · cases h₂
      · exact h.unique w₁ w₂ t h₁ h₂
  · intro t hle hlt
    have hle : s.gate.serving + 1 ≤ t := hle
    obtain ⟨w', hw'⟩ := h.holder t (by omega) hlt
    have hne : w' ≠ w := by
      rintro rfl
      rw [hw] at hw'
      cases hw'
      omega
    exact ⟨w', (hticket w').trans (by rw [if_neg hne, hw'])⟩

/-! ## Scopes -/

/-- A writer inside holds the ticket that is served and is alone, and the readers inside are as
many as are counted. -/
structure Scoped (s : Traffic R W) : Prop where
  writing : ∀ w t, s.writer w = .inside t → t = s.gate.serving ∧ s.gate.readers = 0
  reading : ∃ inside : Finset R, inside.card = s.gate.readers ∧
    ∀ r, r ∈ inside ↔ s.reader r = .inside

/-- The scopes depend on who is inside, and not on who waits. -/
theorem Scoped.congr (h : s.Scoped) (hserving : s'.gate.serving = s.gate.serving)
    (hreaders : s'.gate.readers = s.gate.readers)
    (hwriter : ∀ w t, s'.writer w = .inside t → s.writer w = .inside t)
    (hreader : ∀ r, s'.reader r = .inside ↔ s.reader r = .inside) : s'.Scoped := by
  obtain ⟨inside, hcard, hmem⟩ := h.reading
  refine ⟨?_, inside, ?_, ?_⟩
  · intro w t hw
    rw [hserving, hreaders]
    exact h.writing w t (hwriter w t hw)
  · rw [hreaders]
    exact hcard
  · intro r
    rw [hreader]
    exact hmem r

theorem Scoped.wake (h : s.Scoped) : s.wake.Scoped :=
  h.congr rfl rfl (fun w t => ((s.writer w).woken_eq_inside_iff t).1)
    fun r => (s.reader r).woken_eq_inside_iff

/-- A reader is counted if it is inside. -/
theorem Scoped.readers_pos (h : s.Scoped) {r : R} (hr : s.reader r = .inside) :
    0 < s.gate.readers := by
  obtain ⟨inside, hcard, hmem⟩ := h.reading
  rw [← hcard]
  exact Finset.card_pos.2 ⟨r, (hmem r).2 hr⟩

/-- With nobody reading inside, no reader is counted. -/
theorem Scoped.readers_eq_zero (h : s.Scoped) (hnone : ∀ r, s.reader r ≠ .inside) :
    s.gate.readers = 0 := by
  obtain ⟨inside, hcard, hmem⟩ := h.reading
  rw [← hcard, Finset.card_eq_zero]
  exact Finset.eq_empty_of_forall_notMem fun r hr => hnone r ((hmem r).1 hr)

/-- No two writers are inside, for they would hold the same ticket. -/
theorem Scoped.eq_of_inside (h : s.Scoped) (htickets : s.Ticketed) {w w' : W} {t t' : Nat}
    (hw : s.writer w = .inside t) (hw' : s.writer w' = .inside t') : w = w' := by
  obtain ⟨rfl, -⟩ := h.writing w t hw
  obtain ⟨rfl, -⟩ := h.writing w' t' hw'
  refine htickets.unique w w' s.gate.serving ?_ ?_
  · rw [hw]
    rfl
  · rw [hw']
    rfl

/-- No reader goes in while a writer has a ticket. -/
theorem Ticketed.ticket?_of_mayRead (h : s.Ticketed) (hmay : s.gate.mayRead = true) (w : W) :
    (s.writer w).ticket? = none := by
  rw [Option.eq_none_iff_forall_ne_some]
  intro t ht
  have hzero : s.gate.nextTicket - s.gate.serving = 0 := beq_iff_eq.1 hmay
  have := h.held w t ht
  omega

/-- A reader that goes in is one more, and finds no writer inside. -/
theorem Scoped.enterReader [DecidableEq R] (h : s.Scoped) {r : R} (hr : s.reader r ≠ .inside)
    (hnone : ∀ w, (s.writer w).ticket? = none) :
    Scoped { s.setReader r .inside with gate := s.gate.enterReader } := by
  obtain ⟨inside, hcard, hmem⟩ := h.reading
  have hnot : r ∉ inside := fun hin => hr ((hmem r).1 hin)
  refine ⟨?_, insert r inside, ?_, ?_⟩
  · intro w t hw
    have hticket := hnone w
    rw [show s.writer w = .inside t from hw] at hticket
    cases hticket
  · rw [Finset.card_insert_of_notMem hnot, hcard]
    rfl
  · intro r'
    show r' ∈ insert r inside ↔ (s.setReader r .inside).reader r' = .inside
    rw [reader_setReader, Finset.mem_insert, hmem]
    by_cases hr' : r' = r
    · simp [hr']
    · simp [hr']

/-- A reader that leaves is one less. -/
theorem Scoped.leaveReader [DecidableEq R] (h : s.Scoped) {r : R} (hr : s.reader r = .inside) :
    Scoped { s.setReader r .away with gate := s.gate.leaveReader } := by
  have hpos := h.readers_pos hr
  obtain ⟨inside, hcard, hmem⟩ := h.reading
  refine ⟨?_, inside.erase r, ?_, ?_⟩
  · intro w t hw
    have := (h.writing w t hw).2
    omega
  · rw [Finset.card_erase_of_mem ((hmem r).2 hr), hcard]
    rfl
  · intro r'
    show r' ∈ inside.erase r ↔ (s.setReader r .away).reader r' = .inside
    rw [reader_setReader, Finset.mem_erase, hmem]
    by_cases hr' : r' = r
    · simp [hr']
    · simp [hr']

/-! ## Sleepers -/

/-- Whoever sleeps could not go in. -/
structure Settled (s : Traffic R W) : Prop where
  reader : ∀ r, s.reader r = .waiting true → s.gate.mayRead = false
  writer : ∀ w t, s.writer w = .waiting t true → s.gate.mayWrite t = false

/-- Nobody sleeps who has just been woken. -/
theorem wake_settled (s : Traffic R W) : s.wake.Settled :=
  ⟨fun r hr => absurd hr (s.reader r).woken_ne_asleep,
    fun w t hw => absurd hw ((s.writer w).woken_ne_asleep t)⟩

/-- Nobody can go in who could not before. -/
theorem Settled.congr (h : s.Settled)
    (hmayRead : s.gate.mayRead = false → s'.gate.mayRead = false)
    (hmayWrite : ∀ t, s.gate.mayWrite t = false → s'.gate.mayWrite t = false)
    (hreader : ∀ r, s'.reader r = .waiting true →
      s.reader r = .waiting true ∨ s'.gate.mayRead = false)
    (hwriter : ∀ w t, s'.writer w = .waiting t true →
      s.writer w = .waiting t true ∨ s'.gate.mayWrite t = false) : s'.Settled := by
  refine ⟨?_, ?_⟩
  · intro r hr
    rcases hreader r hr with hr | hmay
    · exact hmayRead (h.reader r hr)
    · exact hmay
  · intro w t hw
    rcases hwriter w t hw with hw | hmay
    · exact hmayWrite t (h.writer w t hw)
    · exact hmay

/-! ## Steps -/

section Steps

variable [DecidableEq R] [DecidableEq W] {move : Move R W}

/-- A reader that comes to the gate is not inside. -/
theorem ReaderAt.ne_inside_of_isReady {place : ReaderAt} (h : place.isReady = true) :
    place ≠ .inside := by
  rintro rfl
  cases h

/-- A writer may go in with the ticket that is served, while no reader is inside. -/
theorem Gate.mayWrite_iff {gate : Gate} {t : Nat} :
    gate.mayWrite t = true ↔ t = gate.serving ∧ gate.readers = 0 := by
  unfold Gate.mayWrite
  rw [Bool.and_eq_true, beq_iff_eq, beq_iff_eq]
  exact and_congr_left' eq_comm

/-- While anyone reads, no writer may go in. -/
theorem Gate.mayWrite_of_readers {gate : Gate} (h : gate.readers ≠ 0) (t : Nat) :
    gate.mayWrite t = false := by
  rw [← Bool.not_eq_true, Gate.mayWrite_iff]
  exact fun hand => h hand.2

/-- A step keeps the tickets in order. -/
theorem Ticketed.step (h : s.Ticketed) (hscoped : s.Scoped) (hstep : Step s move s') :
    s'.Ticketed := by
  cases hstep with
  | readerEnters | readerSleeps | readerLeaves => exact h.congr rfl rfl fun _ => rfl
  | lastReaderLeaves => exact h.congr rfl rfl fun w => (s.writer w).ticket?_woken
  | writerDraws w haway => exact h.draw haway
  | writerEnters w t hready hmay =>
    exact h.congr rfl rfl (ticket?_setWriter (by rw [hready]; rfl))
  | writerSleeps w t hready hmay =>
    exact h.congr rfl rfl (ticket?_setWriter (by rw [hready]; rfl))
  | writerLeaves w t hinside =>
    have hticket : (s.writer w).ticket? = some s.gate.serving := by
      rw [hinside, ← (hscoped.writing w t hinside).1]
      rfl
    exact (h.leave hticket).congr rfl rfl fun _ => WriterAt.ticket?_woken _

/-- A step keeps a writer inside alone. -/
theorem Scoped.step (h : s.Scoped) (htickets : s.Ticketed) (hstep : Step s move s') :
    s'.Scoped := by
  cases hstep with
  | readerEnters r hready hmay =>
    exact h.enterReader (ReaderAt.ne_inside_of_isReady hready)
      (htickets.ticket?_of_mayRead hmay)
  | readerSleeps r hready hmay =>
    refine h.congr rfl rfl (fun _ _ => id) fun r' => ?_
    rw [reader_setReader]
    by_cases hr : r' = r
    · rw [if_pos hr, hr]
      simp [ReaderAt.ne_inside_of_isReady hready]
    · rw [if_neg hr]
  | readerLeaves r hinside hothers => exact h.leaveReader hinside
  | lastReaderLeaves r hinside hlast => exact (h.leaveReader hinside).wake
  | writerDraws w haway =>
    refine h.congr rfl rfl (fun w' t hw' => ?_) fun _ => Iff.rfl
    rcases of_writer_setWriter hw' with heq | ⟨-, hw'⟩
    · cases heq
    · exact hw'
  | writerEnters w t hready hmay =>
    refine ⟨fun w' t' hw' => ?_, h.reading⟩
    rcases of_writer_setWriter hw' with heq | ⟨-, hw'⟩
    · cases heq
      exact Gate.mayWrite_iff.1 hmay
    · exact h.writing w' t' hw'
  | writerSleeps w t hready hmay =>
    refine h.congr rfl rfl (fun w' t' hw' => ?_) fun _ => Iff.rfl
    rcases of_writer_setWriter hw' with heq | ⟨-, hw'⟩
    · cases heq
    · exact hw'
  | writerLeaves w t hinside =>
    refine Scoped.wake ⟨fun w' t' hw' => ?_, h.reading⟩
    rcases of_writer_setWriter hw' with heq | ⟨hne, hw'⟩
    · cases heq
    · exact absurd (h.eq_of_inside htickets hw' hinside) hne

/-- A step leaves nobody asleep that could go in. -/
theorem Settled.step (h : s.Settled) (htickets : s.Ticketed) (hstep : Step s move s') :
    s'.Settled := by
  cases hstep with
  | readerEnters r hready hmay =>
    refine h.congr id (fun t _ => Gate.mayWrite_of_readers (Nat.succ_ne_zero _) t)
      (fun r' hr' => ?_) fun _ _ => Or.inl
    rcases of_reader_setReader hr' with heq | hr'
    · cases heq
    · exact Or.inl hr'
  | readerSleeps r hready hmay =>
    exact h.congr id (fun _ => id) (fun _ _ => Or.inr hmay) fun _ _ => Or.inl
  | readerLeaves r hinside hothers =>
    -- others are still inside, so that nothing has changed for those who sleep
    refine h.congr id (fun t _ => Gate.mayWrite_of_readers hothers t) (fun r' hr' => ?_)
      fun _ _ => Or.inl
    rcases of_reader_setReader hr' with heq | hr'
    · cases heq
    · exact Or.inl hr'
  | lastReaderLeaves r hinside hlast => exact wake_settled _
  | writerDraws w haway =>
    refine h.congr (fun _ => ?_) (fun _ => id) (fun _ => Or.inl) fun w' t hw' => ?_
    · show (s.gate.drawTicket.2.queuedWriters == 0) = false
      rw [Gate.queuedWriters_drawTicket htickets.serving_le]
      rfl
    · rcases of_writer_setWriter hw' with heq | ⟨-, hw'⟩
      · cases heq
      · exact Or.inl hw'
  | writerEnters w t hready hmay =>
    refine h.congr id (fun _ => id) (fun _ => Or.inl) fun w' t' hw' => ?_
    rcases of_writer_setWriter hw' with heq | ⟨-, hw'⟩
    · cases heq
    · exact Or.inl hw'
  | writerSleeps w t hready hmay =>
    refine h.congr id (fun _ => id) (fun _ => Or.inl) fun w' t' hw' => ?_
    rcases of_writer_setWriter hw' with heq | ⟨-, hw'⟩
    · cases heq
      exact Or.inr hmay
    · exact Or.inl hw'
  | writerLeaves w t hinside => exact wake_settled _

/-- What is true wherever steps have led to. -/
structure Orderly (s : Traffic R W) : Prop where
  tickets : s.Ticketed
  scopes : s.Scoped
  sleepers : s.Settled

omit [DecidableEq R] [DecidableEq W] in
/-- Before anyone has come all is in order. -/
theorem start_orderly : (start : Traffic R W).Orderly := by
  refine ⟨⟨Nat.le_refl _, ?_, ?_, ?_⟩, ⟨?_, ∅, rfl, ?_⟩, ⟨?_, ?_⟩⟩
  · intro w t ht
    cases ht
  · intro w w' t ht
    cases ht
  · intro t hle hlt
    exact absurd hlt (Nat.not_lt.2 hle)
  · intro w t hw
    cases hw
  · intro r
    simp [start]
  · intro r hr
    cases hr
  · intro w t hw
    cases hw

/-- A step keeps all in order. -/
theorem Orderly.step (h : s.Orderly) (hstep : Step s move s') : s'.Orderly :=
  ⟨h.tickets.step h.scopes hstep, h.scopes.step h.tickets hstep, h.sleepers.step h.tickets hstep⟩

/-- Wherever steps have led, all is in order. -/
theorem Run.orderly {moves : List (Move R W)} (h : Run moves s) : s.Orderly := by
  induction h with
  | start => exact start_orderly
  | step moves s move s' hrun hstep ih => exact ih.step hstep

end Steps

end Traffic

end JourneyPlanner

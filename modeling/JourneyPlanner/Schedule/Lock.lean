/-!
# The schedule lock

A schedule is read by many searches and changed now and then. The lock lets any number of readers in
while no writer is queued; writers draw tickets and are served one at a time in the order of their
tickets, each once the readers before it have left. `Gate` holds what the lock counts, and each of its
operations is one step that nothing else interrupts: a reader's test and entry, a writer's drawing of a
ticket, its test, and the leaving of either.

`ScheduleLock` is a lock in use: the value it guards, the scopes that are open, and the parties that
wait. Whoever may go on does so at once, waiting writers in the order of their tickets and then the
waiting readers.
-/

namespace JourneyPlanner

/-- What the lock counts. -/
structure Gate where
  /-- Readers inside. -/
  readers : Nat
  /-- The next ticket to be drawn. -/
  nextTicket : Nat
  /-- The ticket of the writer inside, or of the one to go in next. -/
  serving : Nat
  deriving DecidableEq, Repr

namespace Gate

/-- A gate that nobody has passed. -/
def new : Gate := { readers := 0, nextTicket := 0, serving := 0 }

/-- How many writers are inside or wait. -/
def queuedWriters (gate : Gate) : Nat := gate.nextTicket - gate.serving

/-- Whether a reader may go in. -/
def mayRead (gate : Gate) : Bool := gate.queuedWriters == 0

/-- Whether the writer with a ticket may go in. -/
def mayWrite (gate : Gate) (ticket : Nat) : Bool := gate.serving == ticket && gate.readers == 0

/-- A reader goes in. -/
def enterReader (gate : Gate) : Gate := { gate with readers := gate.readers + 1 }

/-- A reader leaves. -/
def leaveReader (gate : Gate) : Gate := { gate with readers := gate.readers - 1 }

/-- A writer draws its ticket. -/
def drawTicket (gate : Gate) : Nat × Gate :=
  (gate.nextTicket, { gate with nextTicket := gate.nextTicket + 1 })

/-- A writer leaves, and the next ticket is served. -/
def leaveWriter (gate : Gate) : Gate := { gate with serving := gate.serving + 1 }

@[simp] theorem mayRead_new : new.mayRead = true := rfl

@[simp] theorem queuedWriters_drawTicket {gate : Gate} (h : gate.serving ≤ gate.nextTicket) :
    gate.drawTicket.2.queuedWriters = gate.queuedWriters + 1 := by
  simp only [drawTicket, queuedWriters]
  omega

end Gate

/-- A scope that is open. -/
inductive LockScope where
  | read
  | write
  deriving DecidableEq, Repr

/-- A lock over a value of type `α`, with what is going on around it. -/
structure ScheduleLock (α : Type) where
  gate : Gate
  value : α
  /-- Open scopes, the oldest first. -/
  scopes : List LockScope
  /-- Waiting writers by ticket, in order, and what each will do. -/
  writers : List (Nat × (α → α))
  /-- How many readers wait. -/
  readers : Nat

namespace ScheduleLock

variable {α : Type}

/-- A lock that nobody uses. -/
def new (value : α) : ScheduleLock α :=
  { gate := Gate.new, value, scopes := [], writers := [], readers := 0 }

/-- The waiting writers run in the order of their tickets, as far as the gate lets them in. -/
def runWriters (gate : Gate) (value : α) :
    List (Nat × (α → α)) → Gate × α × List (Nat × (α → α))
  | [] => (gate, value, [])
  | (ticket, change) :: rest =>
    if gate.mayWrite ticket then runWriters gate.leaveWriter (change value) rest
    else (gate, value, (ticket, change) :: rest)

/-- Lets everyone go on who may: writers, and then readers. Answers what the readers saw. -/
def proceed (lock : ScheduleLock α) : List α × ScheduleLock α :=
  let (gate, value, writers) := runWriters lock.gate lock.value lock.writers
  if gate.mayRead then
    (List.replicate lock.readers value, { lock with gate, value, writers, readers := 0 })
  else ([], { lock with gate, value, writers })

/-- Opens a read scope, unless a writer is inside or waits. -/
def holdRead? (lock : ScheduleLock α) : Option (ScheduleLock α) :=
  if lock.gate.mayRead then
    some { lock with gate := lock.gate.enterReader, scopes := lock.scopes ++ [.read] }
  else none

/-- Opens a write scope and makes a change in it, unless some scope is open. -/
def holdWrite? (lock : ScheduleLock α) (change : α → α) : Option (ScheduleLock α) :=
  let (ticket, gate) := lock.gate.drawTicket
  if gate.mayWrite ticket then
    some { lock with gate, value := change lock.value, scopes := lock.scopes ++ [.write] }
  else none

/-- Leaves the oldest scope, if any is open. Answers what readers saw who could then go in. -/
def release? (lock : ScheduleLock α) : Option (List α × ScheduleLock α) :=
  match lock.scopes with
  | [] => none
  | scope :: scopes =>
    let gate := match scope with
      | .read => lock.gate.leaveReader
      | .write => lock.gate.leaveWriter
    some { lock with gate, scopes }.proceed

/-- A writer queues, and makes its change as soon as it may. -/
def queueWrite (lock : ScheduleLock α) (change : α → α) : List α × ScheduleLock α :=
  let (ticket, gate) := lock.gate.drawTicket
  { lock with gate, writers := lock.writers ++ [(ticket, change)] }.proceed

/-- A reader queues, and looks at the value as soon as it may. -/
def queueRead (lock : ScheduleLock α) : List α × ScheduleLock α :=
  { lock with readers := lock.readers + 1 }.proceed

/-- The value as the oldest open scope sees it. -/
def view? (lock : ScheduleLock α) : Option α :=
  if lock.scopes.isEmpty then none else some lock.value

/-- Leaves `turns` scopes, as far as there are any. Answers what readers saw. -/
def releaseMany : Nat → ScheduleLock α → List α × ScheduleLock α
  | 0, lock => ([], lock)
  | turns + 1, lock =>
    match lock.release? with
    | none => ([], lock)
    | some (seen, lock) =>
      let (later, lock) := releaseMany turns lock
      (seen ++ later, lock)

/-- Leaves every open scope. Answers what readers saw. -/
def releaseAll (lock : ScheduleLock α) : List α × ScheduleLock α :=
  releaseMany lock.scopes.length lock

/-- What comes of reading the value in a scope of its own: `none` where that would have to wait. -/
def readWith? (lock : ScheduleLock α) (use : α → β) : Option β :=
  (lock.holdRead?).map fun inside => use inside.value

end ScheduleLock

end JourneyPlanner

import JourneyPlanner.Proofs.Search.Exhausted

/-!
# From one state to the next

A loop makes turns as long as there are labels and the budget lasts. So what it leaves,
`Run.left`, is a state to which turns have led, unless a fault has ended the last turn
halfway (`Run.loop_left`). Such a half turn has settled its label and queued some of those
that its edges lead to; it has touched no result, and all that was settled is still
there (`Run.Rests.sound`).
-/

namespace JourneyPlanner

open Relation (ReflTransGen)

namespace Run

variable {q : Query} {settings : Settings} {measures : List Measure} {r r' r₁ r₂ : Run}
  {f : Frontier} {order : List LabelId}

/-- The search as it was left, by its end or by a fault. -/
def left : Except Halt Run → Run
  | .ok run => run
  | .error halt => halt.run

@[simp] theorem left_ok (r : Run) : left (.ok r) = r := rfl

/-- What is known of a turn: the label that is taken has been traced, and one of three
things is done with it. -/
theorem Reached.taken (hq : q.Sound) (hf : f.Blank) (h : Reached q settings measures f r)
    {id : LabelId} (hpop : r.pop = (some id, r₁)) (hvisit : r₁.visit q settings id = .ok r') :
    ∃ order label links, Frontier.Sound q settings measures r₁.frontier order [id] ∧
      Frontier.Traced q settings measures r₁.frontier.pool order id label links ∧
      Visits q settings r₁.frontier id label r'.frontier := by
  obtain ⟨order, label, links, -, hs₁, ht⟩ := h.popped hq hf hpop
  exact ⟨order, label, links, hs₁, ht, visits_of_visit ht.get? hvisit⟩

/-- The state after so many turns, if there are as many. -/
def turns? (q : Query) (settings : Settings) : Nat → Run → Option Run
  | 0, r => some r
  | turns + 1, r =>
    match r.pop with
    | (some id, r₁) =>
      match r₁.visit q settings id with
      | .ok r₂ => turns? q settings turns r₂
      | .error _ => none
    | (none, _) => none

/-- Of some turns the first is one, and the rest go on from there. -/
theorem turn_of_turns? {turns : Nat} (h : turns? q settings (turns + 1) r = some r') :
    ∃ r₁, Turn q settings r r₁ ∧ turns? q settings turns r₁ = some r' := by
  unfold turns? at h
  split at h
  · next id r₁ hpop =>
    split at h
    · next r₂ hvisit => exact ⟨r₂, ⟨id, r₁, hpop, hvisit⟩, h⟩
    · cases h
  · cases h

/-- Turns that were counted have been taken. -/
theorem turns_of_turns? {turns : Nat} (h : turns? q settings turns r = some r') :
    ReflTransGen (Turn q settings) r r' := by
  induction turns generalizing r with
  | zero =>
    cases h
    exact .refl
  | succ turns ih =>
    obtain ⟨r₁, hturn, h⟩ := turn_of_turns? h
    exact .head hturn (ih h)

/-- What a turn keeps, any number of turns keep. -/
theorem Reached.keeps {P : Run → Prop} (h : Reached q settings measures f r)
    (hstep : ∀ r r', Reached q settings measures f r → Turn q settings r r' → P r → P r')
    (ht : ReflTransGen (Turn q settings) r r') (hr : P r) : P r' := by
  induction ht with
  | refl => exact hr
  | tail ht hturn ih => exact hstep _ _ (h.turns ht) hturn ih

/-! ## What a turn keeps -/

/-- Taking a label from the queue takes no settled label and no result away. -/
theorem pop_carries {id : LabelId} (hs : Frontier.Sound q settings measures r.frontier order [])
    (hpop : r.pop = (some id, r₁)) : r.frontier.Carries r₁.frontier := by
  obtain ⟨-, -, hpool, hsettled, hresults⟩ := pop_sound hs hpop
  refine .of_results_eq (fun node other l ho hl => ?_) hresults fun other _ => by rw [hpool]
  unfold Frontier.settledAt at ho ⊢
  rw [hsettled, hpool]
  exact ⟨ho, hl⟩

/-- A turn keeps all labels that have been settled. -/
theorem Turn.carries (hq : q.Sound) (hf : f.Blank) (h : Reached q settings measures f r)
    (ht : Turn q settings r r') : r.frontier.Carries r'.frontier := by
  obtain ⟨id, r₁, hpop, hvisit⟩ := ht
  obtain ⟨order, hs⟩ := h.sound hq hf
  obtain ⟨order₁, label, links, hs₁, ht, hv⟩ := h.taken hq hf hpop hvisit
  exact (pop_carries hs hpop).trans (hv.handled hq hs₁ ht.get?).carries

/-- Any number of turns keep all labels that have been settled. -/
theorem Reached.carries (hq : q.Sound) (hf : f.Blank) (h : Reached q settings measures f r)
    (ht : ReflTransGen (Turn q settings) r r') : r.frontier.Carries r'.frontier := by
  refine h.keeps (P := fun r' => r.frontier.Carries r'.frontier) (fun r₁ r₂ h₁ hturn hc => ?_) ht
    (.of_results_eq (fun node other l ho hl => ⟨ho, hl⟩) rfl fun _ _ => rfl)
  exact hc.trans (hturn.carries hq hf h₁)

/-! ## Turns that a fault has ended -/

/-- Where there is no slot for a label, nothing has happened. -/
theorem frontier_of_push_error {label : Label} {halt : Halt} (h : r.push label = .error halt) :
    halt.run.frontier = r.frontier := by
  unfold Run.push Frontier.push at h
  dsimp only at h
  split at h
  · next f hpush =>
    cases h
    split at hpush
    · next pool halloc =>
      cases hpush
      show { r.frontier with pool } = r.frontier
      rw [Pool.eq_of_alloc_none halloc]
    · cases hpush
  · cases h

/-- An edge that ends in a fault has changed no label. -/
theorem frontier_of_pushEdge_error {id : LabelId} {label : Label} {ref : EdgeRef} {halt : Halt}
    (h : pushEdge q settings id label r ref = .error halt) : halt.run.frontier = r.frontier := by
  unfold pushEdge at h
  split at h
  · cases h
    rfl
  · cases h
  · split at h
    · cases h
    · exact frontier_of_push_error h

/-- A start that ends in a fault has changed no label. -/
theorem frontier_of_pushStart_error {time : Time} {halt : Halt}
    (h : pushStart q settings measures r time = .error halt) :
    halt.run.frontier = r.frontier := by
  unfold pushStart at h
  dsimp only at h
  split at h
  · cases h
  · cases hpush : r.push (startLabel q measures time) with
    | ok r₁ =>
      rw [hpush] at h
      cases h
    | error e =>
      rw [hpush] at h
      cases h
      exact frontier_of_push_error hpush

/-- The starts leave the storage sound, with nothing settled, fault or no fault. -/
theorem start_left_sound (hf : f.Blank) :
    Frontier.Sound q settings measures (left (Run.start q settings measures f)).frontier [] [] := by
  cases h : Run.start q settings measures f with
  | ok r => exact start_sound hf h
  | error halt =>
    refine Fallible.foldlM_error
      (P := fun r : Run => Frontier.Sound q settings measures r.frontier [] [])
      (E := fun halt : Halt => Frontier.Sound q settings measures halt.run.frontier [] [])
      (fun r time r' htime hr hpush => ?_) (fun r time e htime hr hpush => ?_) hf.sound h
    · exact pushStart_sound htime hr hpush
    · rw [frontier_of_pushStart_error hpush]
      exact hr

/-- An expansion that ends in a fault leaves the storage sound. -/
theorem expand_halted {id : LabelId} {label : Label} {links : List (LabelId × Label)}
    {halt : Halt} (hr : Frontier.Sound q settings measures r.frontier order [])
    (ht : Frontier.Traced q settings measures r.frontier.pool order id label links)
    (hsub : (id :: links.map (·.1)).Sublist order) (hgoal : q.target.isGoal label = false)
    (h : r.expand q settings id label = .error halt) :
    Frontier.Sound q settings measures halt.run.frontier order [] ∧
      r.frontier.Grows halt.run.frontier := by
  refine Fallible.foldlM_error
    (P := fun r₁ : Run => Frontier.Sound q settings measures r₁.frontier order [] ∧
      Frontier.Traced q settings measures r₁.frontier.pool order id label links ∧
      r.frontier.Grows r₁.frontier)
    (E := fun halt : Halt => Frontier.Sound q settings measures halt.run.frontier order [] ∧
      r.frontier.Grows halt.run.frontier)
    (fun r₁ ref r₂ href hr₁ hpush => ?_) (fun r₁ ref e href hr₁ hpush => ?_) ⟨hr, ht, .refl _⟩ h
  · obtain ⟨hr₂, ht₂, hgrow, -⟩ := pushEdge_sound hr₁.1 hr₁.2.1 hsub hgoal href hpush
    exact ⟨hr₂, ht₂, hr₁.2.2.trans hgrow⟩
  · rw [frontier_of_pushEdge_error hpush]
    exact ⟨hr₁.1, hr₁.2.2⟩

/-- A half turn keeps the labels sound, and all that was settled. -/
theorem visit_halted (hq : q.Sound) {id : LabelId} {label : Label} {halt : Halt}
    (hs : Frontier.Sound q settings measures r.frontier order [id])
    (hget : r.frontier.pool.get? id = some label) (h : r.visit q settings id = .error halt) :
    Frontier.Sound q settings measures halt.run.frontier (id :: order) [] ∧
      r.frontier.Carries halt.run.frontier := by
  -- only an expansion can fail, and its label has been settled by then
  obtain ⟨hgoal, hexp⟩ : q.target.isGoal label = false ∧
      (r.settled label.node id).expand q settings id label = .error halt := by
    by_cases hbeaten : r.frontier.beatenByResult label = true ∨
        r.frontier.beatenAtNode label q.direction = true
    · obtain ⟨r₁, h₁, -⟩ := visit_of_beaten hget hbeaten
      rw [h] at h₁
      cases h₁
    · rw [not_or, Bool.not_eq_true, Bool.not_eq_true] at hbeaten
      rw [visit_of_kept hget hbeaten.1 hbeaten.2] at h
      split at h
      · cases h
      · next hgoal => exact ⟨Bool.eq_false_iff.2 hgoal, h⟩
  have hsettled : Frontier.Sound q settings measures (r.settled label.node id).frontier
      (id :: order) [] := hs.settle hq hget
  obtain ⟨links, ht, hsub⟩ := hsettled.traced_of_passed List.mem_cons_self hget
  obtain ⟨hsound, hgrow⟩ := expand_halted hsettled ht hsub hgoal hexp
  have hmet := (hs.met_settle hq hget).1
  refine ⟨hsound, hmet.trans (hgrow.carries fun other ho => ?_)⟩
  obtain ⟨-, l, hl, -⟩ := hsettled.results other ho
  exact ⟨l, hl⟩

/-! ## What a loop leaves -/

/-- What a search leaves that has come no further than a state: the labels of that
state, or those of a turn that a fault has ended. -/
def Rests (q : Query) (settings : Settings) (r run : Run) : Prop :=
  run.frontier = r.frontier ∨ ∃ id r₁ fault, r.pop = (some id, r₁) ∧
    r₁.visit q settings id = .error ⟨fault, run⟩

/-- What a turn leaves that ends in a fault is sound too. -/
theorem Rests.sound (hq : q.Sound) (hf : f.Blank) (h : Reached q settings measures f r)
    {run : Run} (hrests : Rests q settings r run) :
    (∃ order, Frontier.Sound q settings measures run.frontier order []) ∧
      r.frontier.Carries run.frontier := by
  rcases hrests with heq | ⟨id, r₁, fault, hpop, hvisit⟩
  · rw [heq]
    exact ⟨h.sound hq hf, .of_results_eq (fun node other l ho hl => ⟨ho, hl⟩) rfl fun _ _ => rfl⟩
  · obtain ⟨order, label, links, hs, hs₁, ht⟩ := h.popped hq hf hpop
    obtain ⟨hsound, hcarries⟩ := visit_halted hq hs₁ ht.get? hvisit
    exact ⟨⟨_, hsound⟩, (pop_carries hs hpop).trans hcarries⟩

/-- A loop makes turns, and leaves what the last of them has come to. -/
theorem loop_left (hq : q.Sound) (hf : f.Blank) (h : Reached q settings measures f r)
    (budget : Nat) : ∃ r₁, ReflTransGen (Turn q settings) r r₁ ∧
      Rests q settings r₁ (left (Run.loop q settings budget r)) := by
  obtain ⟨s, hpasses, hends⟩ := h.loop_ends hq hf budget
  refine ⟨s.2, turns_of_passes hpasses, ?_⟩
  generalize Run.loop q settings budget r = outcome at hends
  cases hends with
  | empty _ hqueue => exact Or.inl rfl
  | spent hqueue => exact Or.inl rfl
  | fault _ hqueue hpop hvisit => exact Or.inr ⟨_, _, _, hpop, hvisit⟩

/-- A fault among the starts is where the whole search stops. -/
theorem left_run_of_start_error {halt : Halt}
    (h : Run.start q settings measures f = .error halt) :
    left (q.run settings measures f) = halt.run := by
  unfold Query.run
  rw [h]
  rfl

/-- Once the starts are queued, the search leaves what its loop leaves. -/
theorem left_run_of_start_ok (h : Run.start q settings measures f = .ok r) :
    (left (q.run settings measures f)).frontier =
      (left (Run.loop q settings settings.maxLabels r)).frontier := by
  unfold Query.run
  rw [h]
  show (left (Run.loop q settings settings.maxLabels r >>= fun r => pure r.finish)).frontier = _
  cases Run.loop q settings settings.maxLabels r with
  | error halt => rfl
  | ok r₁ => exact frontier_finish r₁

/-- However a search ends, the labels that it leaves are sound. -/
theorem run_left_sound (hq : q.Sound) (hf : f.Blank) :
    ∃ order, Frontier.Sound q settings measures (left (q.run settings measures f)).frontier
      order [] := by
  cases hstart : Run.start q settings measures f with
  | error halt =>
    have hsound : Frontier.Sound q settings measures
        (left (Run.start q settings measures f)).frontier [] [] := start_left_sound hf
    rw [hstart] at hsound
    rw [left_run_of_start_error hstart]
    exact ⟨[], hsound⟩
  | ok r =>
    obtain ⟨r₁, hturns, hrests⟩ := loop_left hq hf (Reached.start hstart) settings.maxLabels
    rw [left_run_of_start_ok hstart]
    exact (hrests.sound hq hf ((Reached.start hstart).turns hturns)).1

end Run

end JourneyPlanner

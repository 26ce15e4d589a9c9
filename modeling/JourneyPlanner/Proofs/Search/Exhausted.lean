import JourneyPlanner.Proofs.Search.Results

/-!
# What a search leaves behind

A search drops labels, but never without a reason: a label settled at the same
node takes its place, or some result beats even the best that it can come to. Such
a label is `Met`; one that still waits in the queue or is met is `Known`. In every
state of a search (`Run.Reached.accounted`)

* the start labels are known,
* so is every label to which an edge of a settled label leads,
* and for every settled label at the goal there is a result that is the same or
  beats it,

labels beyond a limit apart. A search that comes to its end has an empty queue,
so that there all of these labels are met (`Run.exhausted_of_run`).

No reason is ever lost again, since settled labels stay and a result gives way
only to one that beats it (`Frontier.Carries`).
-/

namespace JourneyPlanner

/-- A result has the criteria of a label at the same times, or is nowhere worse and
somewhere better. -/
def Label.Answers (result label : Label) : Prop :=
  (result.criteria = label.criteria ∧ result.start = label.start ∧ result.now = label.now) ∨
  Criteria.NoWorse false result.criteria label.criteria ∧
    result.criteria.dominates false label.criteria = true

namespace Label.Answers

variable {a b c : Label}

theorem refl (label : Label) : label.Answers label := Or.inl ⟨rfl, rfl, rfl⟩

theorem noWorse (h : a.Answers b) : Criteria.NoWorse false a.criteria b.criteria := by
  rcases h with ⟨heq, -, -⟩ | ⟨hno, -⟩
  · rw [heq]
    exact .refl _
  · exact hno

theorem trans (h : a.Answers b) (h' : b.Answers c) : a.Answers c := by
  rcases h' with ⟨heq, hstart, hnow⟩ | ⟨hno', hdom'⟩
  · unfold Label.Answers at h ⊢
    rw [← heq, ← hstart, ← hnow]
    exact h
  · exact Or.inr ⟨h.noWorse.trans hno', h.noWorse.dominates hdom'⟩

end Label.Answers

namespace Frontier

/-- Some result is the same as a label or beats it. -/
def Answered (f : Frontier) (label : Label) : Prop :=
  ∃ id ∈ f.results, ∃ result, f.pool.get? id = some result ∧ result.Answers label

/-- Nothing is lost without a label: one settled at its node takes its place, or
some result beats even the best that it can come to. -/
def Met (direction : Direction) (f : Frontier) (label : Label) : Prop :=
  (∃ id ∈ f.settledAt label.node, ∃ other, f.pool.get? id = some other ∧
    replaces direction other label = true) ∨
  ∃ id ∈ f.results, ∃ result, f.pool.get? id = some result ∧
    result.criteria.dominates true label.criteria = true

/-- A label is met or still to come. -/
def Known (direction : Direction) (f : Frontier) (label : Label) : Prop :=
  f.Met direction label ∨ ∃ id ∈ f.queued, f.pool.get? id = some label

/-- An edge of a label has been dealt with. -/
def Follows (q : Query) (settings : Settings) (f : Frontier) (id : LabelId) (label : Label)
    (ref : EdgeRef) : Prop :=
  ∃ found, Run.expandEdge q settings id label ref = .ok found ∧
    ∀ next ∈ found, next.criteria.isBeyond settings = false → f.Known q.direction next

/-- What a search owes to a settled label: its edges, or at the goal a result. -/
structure Served (q : Query) (settings : Settings) (f : Frontier) (id : LabelId) (label : Label) :
    Prop where
  edges : q.target.isGoal label = false →
    ∀ ref ∈ q.graph.edgesAt label.node q.direction, f.Follows q settings id label ref
  goal : q.target.isGoal label = true → f.Answered label

/-- Every label that has come up is accounted for. -/
structure Accounted (q : Query) (settings : Settings) (measures : List Measure) (f : Frontier) :
    Prop where
  starts : ∀ time ∈ q.startTimes,
    (Run.startLabel q measures time).criteria.isBeyond settings = false →
    f.Known q.direction (Run.startLabel q measures time)
  served : ∀ (node : NodeId) (id : LabelId) (label : Label), id ∈ f.settledAt node →
    f.pool.get? id = some label → f.Served q settings id label

/-- The reasons for which labels have been dropped are still there. -/
structure Carries (f f' : Frontier) : Prop where
  settled : ∀ (node : NodeId) (id : LabelId) (label : Label), id ∈ f.settledAt node →
    f.pool.get? id = some label → id ∈ f'.settledAt node ∧ f'.pool.get? id = some label
  results : ∀ id ∈ f.results, ∀ result, f.pool.get? id = some result → f'.Answered result

variable {q : Query} {settings : Settings} {measures : List Measure} {f f' f'' : Frontier}
  {order : List LabelId} {id : LabelId} {label : Label} {direction : Direction}

/-! ## Nothing is lost again -/

theorem Answered.carry (h : f.Answered label) (hc : f.Carries f') : f'.Answered label := by
  obtain ⟨id, hid, result, hget, hans⟩ := h
  obtain ⟨id', hid', result', hget', hans'⟩ := hc.results id hid result hget
  exact ⟨id', hid', result', hget', hans'.trans hans⟩

theorem Met.carry (h : f.Met direction label) (hc : f.Carries f') : f'.Met direction label := by
  rcases h with ⟨id, hid, other, hget, hrep⟩ | ⟨id, hid, result, hget, hdom⟩
  · obtain ⟨hid', hget'⟩ := hc.settled label.node id other hid hget
    exact Or.inl ⟨id, hid', other, hget', hrep⟩
  · obtain ⟨id', hid', result', hget', hans⟩ := hc.results id hid result hget
    exact Or.inr ⟨id', hid', result', hget', hans.noWorse.dominates hdom⟩

theorem Carries.trans (h : f.Carries f') (h' : f'.Carries f'') : f.Carries f'' := by
  refine ⟨fun node id label hid hget => ?_, fun id hid result hget => ?_⟩
  · obtain ⟨hid', hget'⟩ := h.settled node id label hid hget
    exact h'.settled node id label hid' hget'
  · exact (h.results id hid result hget).carry h'

/-- Storage with the same results, and with all settled labels. -/
theorem Carries.of_results_eq
    (hsettled : ∀ (node : NodeId) (id : LabelId) (label : Label), id ∈ f.settledAt node →
      f.pool.get? id = some label → id ∈ f'.settledAt node ∧ f'.pool.get? id = some label)
    (hresults : f'.results = f.results)
    (hsame : ∀ id ∈ f.results, f'.pool.get? id = f.pool.get? id) : f.Carries f' := by
  refine ⟨hsettled, fun id hid result hget => ?_⟩
  refine ⟨id, ?_, result, ?_, .refl _⟩
  · rw [hresults]
    exact hid
  · rw [hsame id hid]
    exact hget

theorem Grows.carries (h : f.Grows f')
    (hs : ∀ id ∈ f.results, ∃ label, f.pool.get? id = some label) : f.Carries f' := by
  refine .of_results_eq (fun node id label hid hget => ⟨?_, h.keeps id label hget⟩) h.results_eq
    fun id hid => ?_
  · unfold settledAt at hid ⊢
    rw [h.settled_eq]
    exact hid
  · obtain ⟨label, hget⟩ := hs id hid
    rw [h.keeps id label hget, hget]

theorem Follows.imp {ref : EdgeRef} (h : f.Follows q settings id label ref)
    (himp : ∀ next, f.Known q.direction next → f'.Known q.direction next) :
    f'.Follows q settings id label ref := by
  obtain ⟨found, hfound, hall⟩ := h
  exact ⟨found, hfound, fun next hnext hin => himp next (hall next hnext hin)⟩

/-- What was accounted for stays so, if what is newly settled is served. -/
theorem Accounted.visit (h : Accounted q settings measures f) (hc : f.Carries f')
    (hsome : ∀ node, ∀ other ∈ f.settledAt node, ∃ l, f.pool.get? other = some l)
    (hknown : ∀ next, f.Known q.direction next → f'.Known q.direction next)
    (hnew : ∀ node, ∀ other ∈ f'.settledAt node, other ∈ f.settledAt node ∨
      ∀ l, f'.pool.get? other = some l → f'.Served q settings other l) :
    Accounted q settings measures f' := by
  refine ⟨fun time htime hin => hknown _ (h.starts time htime hin), ?_⟩
  intro node other label hother hget
  rcases hnew node other hother with hold | hserved
  · obtain ⟨l, hl⟩ := hsome node other hold
    have hl' := (hc.settled node other l hold hl).2
    rw [hget] at hl'
    cases hl'
    have hserved := h.served node other label hold hl
    exact ⟨fun hgoal ref href => (hserved.edges hgoal ref href).imp hknown,
      fun hgoal => (hserved.goal hgoal).carry hc⟩
  · exact hserved label hget

/-! ## Coming up among the results -/

/-- A label that beats another is nowhere worse. -/
theorem noWorse_of_dominates {a b : Label} {before before' : List Label} {final : Bool}
    (hq : q.Sound) (ha : Trail q settings measures (a :: before))
    (hb : Trail q settings measures (b :: before'))
    (h : a.criteria.dominates final b.criteria = true) :
    Criteria.NoWorse final a.criteria b.criteria := by
  rw [ha.criteria_eq hq, hb.criteria_eq hq] at h ⊢
  rw [Criteria.noWorse_map_iff]
  exact (Criteria.dominates_map_iff.1 h).1

/-- A label that comes up is answered then, and so are the results that it drives
out. -/
theorem Sound.answered_insert (hq : q.Sound) (h : Sound q settings measures f order [id])
    (hget : f.pool.get? id = some label) (hpool : f'.pool = f.pool)
    (hresults : f'.results =
      (Front.insert (beats f.pool) (sameResult f.pool) f.results id).2) :
    (∀ other ∈ f.results, ∀ result, f.pool.get? other = some result → f'.Answered result) ∧
      f'.Answered label := by
  obtain ⟨links, ht⟩ := h.traced_of_held hget
  have hbeats : ∀ {a b : LabelId} {la lb : Label}, f.pool.get? a = some la →
      f.pool.get? b = some lb → beats f.pool a b = la.criteria.dominates false lb.criteria := by
    intro a b la lb ha hb
    unfold beats criteriaIn
    rw [ha, hb]
  unfold Answered
  rw [hpool, hresults]
  cases hr : Front.rejects (beats f.pool) (sameResult f.pool) f.results id with
  | true =>
    -- some result beats the label or has the same criteria, and all of them stay
    rw [Front.insert_of_rejects hr]
    refine ⟨fun other ho result hres => ⟨other, ho, result, hres, .refl _⟩, ?_⟩
    obtain ⟨e, he, hrej⟩ := List.any_eq_true.1 hr
    obtain ⟨-, l, hl, -⟩ := h.results e he
    refine ⟨e, he, l, hl, ?_⟩
    rcases Bool.or_eq_true_iff.1 hrej with hbeat | hsame
    · obtain ⟨before, htl⟩ := h.trail_of_result he hl
      rw [hbeats hl hget] at hbeat
      exact Or.inr ⟨noWorse_of_dominates hq htl ht.trail hbeat, hbeat⟩
    · unfold sameResult at hsame
      rw [hl, hget] at hsame
      simp only [Bool.and_eq_true, beq_iff_eq] at hsame
      exact Or.inl ⟨hsame.1.1, hsame.1.2, hsame.2⟩
  | false =>
    -- the label becomes a result, and answers those that it beats
    rw [Front.insert_of_not_rejects hr]
    have hid : id ∈ (f.results.filter fun e => !beats f.pool id e) ++ [id] :=
      List.mem_append_right _ (List.mem_singleton.2 rfl)
    refine ⟨fun other ho result hres => ?_, id, hid, label, hget, .refl _⟩
    by_cases hb : beats f.pool id other = true
    · obtain ⟨before, htl⟩ := h.trail_of_result ho hres
      rw [hbeats hget hres] at hb
      exact ⟨id, hid, label, hget, Or.inr ⟨noWorse_of_dominates hq ht.trail htl hb, hb⟩⟩
    · refine ⟨other, List.mem_append_left _ (List.mem_filter.2 ⟨ho, ?_⟩), result, hres, .refl _⟩
      rw [Bool.not_eq_true] at hb
      rw [hb]
      rfl

/-! ## Handling a label -/

/-- What handling the label in the hand leaves of the others, and why it is met. -/
structure Handled (q : Query) (settings : Settings) (f f' : Frontier) (id : LabelId)
    (label : Label) : Prop where
  carries : f.Carries f'
  met : f'.Met q.direction label
  waiting : ∀ other ∈ f.queued, other ∈ f'.queued ∧ f'.pool.get? other = f.pool.get? other
  settled : ∀ node, ∀ other ∈ f'.settledAt node,
    other ∈ f.settledAt node ∨
      other = id ∧ f'.pool.get? id = some label ∧ f'.Served q settings id label ∧
        f.beatenByResult label = false ∧ f.beatenAtNode label q.direction = false

theorem replaces_self (direction : Direction) (label : Label) :
    replaces direction label label = true := by
  unfold replaces
  rw [Label.comparable_self, Bool.true_and, ← List.map_id label.criteria,
    Criteria.weaklyDominates_map_iff]
  exact fun _ _ => Nat.le_refl _

/-- A label is dropped for a reason. -/
theorem Sound.handled_discard (h : Sound q settings measures f order [id])
    (hbeaten : f.beatenByResult label = true ∨ f.beatenAtNode label q.direction = true) :
    Handled q settings f (f.discard id) id label := by
  have hsame := h.discard.2
  -- what is dropped is neither settled nor a result
  have hcarries : f.Carries (f.discard id) := by
    refine .of_results_eq (fun node other l ho hl => ⟨ho, ?_⟩) rfl fun other ho => ?_
    · have hin := ((h.settled node other).1 ho).1
      rw [hsame other (h.ne_of_held (List.mem_append_left _ hin))]
      exact hl
    · exact hsame other (h.ne_of_held (List.mem_append_left _ (h.results other ho).1))
  refine ⟨hcarries, Met.carry ?_ hcarries, fun other ho => ⟨ho, ?_⟩, fun node other ho => Or.inl ho⟩
  · rcases hbeaten with hb | hb
    · obtain ⟨r, hr, hdom⟩ := List.any_eq_true.1 hb
      obtain ⟨-, result, hres, -⟩ := h.results r hr
      refine Or.inr ⟨r, hr, result, hres, ?_⟩
      unfold criteriaIn at hdom
      rw [hres] at hdom
      exact hdom
    · obtain ⟨other, ho, hrep⟩ := List.any_eq_true.1 hb
      refine Or.inl ⟨other, ho, ?_⟩
      split at hrep
      · next l hl => exact ⟨l, hl, hrep⟩
      · cases hrep
  · exact hsame other (h.ne_of_held (List.mem_append_right _ ho))

/-- A label that is settled takes its own place. -/
theorem Sound.met_settle (hq : q.Sound) (h : Sound q settings measures f order [id])
    (hget : f.pool.get? id = some label) :
    f.Carries (f.settle label.node id) ∧ (f.settle label.node id).Met q.direction label ∧
      ∀ node, ∀ other ∈ (f.settle label.node id).settledAt node,
        other ∈ f.settledAt node ∨ other = id := by
  have hs := h.settle hq hget
  refine ⟨.of_results_eq (fun node other l ho hl => ⟨?_, hl⟩) rfl fun _ _ => rfl, Or.inl ⟨id, ?_,
    label, hget, replaces_self _ _⟩, fun node other ho => ?_⟩
  · obtain ⟨hin, hat⟩ := (h.settled node other).1 ho
    exact (hs.settled node other).2 ⟨List.mem_cons_of_mem _ hin, hat⟩
  · exact (hs.settled label.node id).2 ⟨List.mem_cons_self, label, hget, rfl⟩
  · obtain ⟨hin, hat⟩ := (hs.settled node other).1 ho
    rcases List.mem_cons.1 hin with heq | hin
    · exact Or.inr heq
    · exact Or.inl ((h.settled node other).2 ⟨hin, hat⟩)

end Frontier

namespace Run

variable {q : Query} {settings : Settings} {measures : List Measure} {r r' : Run}
  {order : List LabelId}

theorem Visits.handled (hq : q.Sound) {f f' : Frontier} {id : LabelId} {label : Label}
    (h : Frontier.Sound q settings measures f order [id]) (hget : f.pool.get? id = some label)
    (hv : Visits q settings f id label f') : Frontier.Handled q settings f f' id label := by
  obtain ⟨hcarries, hmet, hnew⟩ := h.met_settle hq hget
  cases hv with
  | beaten hb => exact h.handled_discard hb
  | result hgoal hkept =>
    have hold : (∀ other ∈ f.results, ∀ l, f.pool.get? other = some l →
        Frontier.Answered { f.settle label.node id with
          results := (Front.insert (Frontier.beats f.pool) (Frontier.sameResult f.pool)
            f.results id).2 } l) ∧ _ := h.answered_insert hq hget rfl rfl
    obtain ⟨hold, hanswered⟩ := hold
    refine ⟨⟨hcarries.settled, hold⟩, ?_, fun other ho => ⟨ho, rfl⟩, fun node other ho => ?_⟩
    · rcases hmet with hmet | ⟨r, hr, result, hres, hdom⟩
      · exact Or.inl hmet
      · obtain ⟨r', hr', result', hres', hans⟩ := hold r hr result hres
        exact Or.inr ⟨r', hr', result', hres', hans.noWorse.dominates hdom⟩
    · rcases hnew node other ho with hin | heq
      · exact Or.inl hin
      · refine Or.inr ⟨heq, hget, ⟨fun hnot => ?_, fun _ => hanswered⟩, hkept⟩
        rw [hgoal] at hnot
        cases hnot
  | expanded r r' hgoal hr hexp hkept =>
    obtain ⟨-, hgrow, hqueues⟩ := expanded_sound hq h hget hgoal hr hexp
    rw [hr] at hgrow
    have hresults : ∀ other ∈ f.results, ∃ l, f.pool.get? other = some l := by
      intro other ho
      obtain ⟨-, l, hl, -⟩ := h.results other ho
      exact ⟨l, hl⟩
    have hgrown := hgrow.carries hresults
    refine ⟨hcarries.trans hgrown, hmet.carry hgrown, fun other ho => ⟨hgrow.queued other ho, ?_⟩,
      fun node other ho => ?_⟩
    · exact hgrow.get?_eq (h.isSome (List.mem_append_right _ (List.mem_append_right _ ho)))
    · have ho' : other ∈ (f.settle label.node id).settledAt node := by
        unfold Frontier.settledAt at ho ⊢
        rw [← hgrow.settled_eq]
        exact ho
      rcases hnew node other ho' with hin | heq
      · exact Or.inl hin
      · refine Or.inr ⟨heq, hgrow.keeps id label hget, ⟨fun _ ref href => ?_, fun hnot => ?_⟩,
          hkept⟩
        · obtain ⟨found, hfound, hall⟩ := hqueues ref href
          exact ⟨found, hfound, fun next hnext hin => Or.inr (hall next hnext hin)⟩
        · rw [hgoal] at hnot
          cases hnot

/-- Every start label within the limits is queued. -/
theorem start_accounted {f : Frontier} (hf : f.Blank)
    (h : Run.start q settings measures f = .ok r) : r.frontier.Accounted q settings measures := by
  refine ⟨fun time htime hin => Or.inr ?_, fun node id label hid _ => ?_⟩
  · refine Fallible.foldlM_forall
      (P := fun r : Run => Frontier.Sound q settings measures r.frontier [] [])
      (Q := fun time r => (startLabel q measures time).criteria.isBeyond settings = false →
        ∃ id ∈ r.frontier.queued, r.frontier.pool.get? id = some (startLabel q measures time))
      (fun r time r' htime hr hpush => ?_) (fun r time r' other htime hr hpush hother hin => ?_)
      hf.sound h time htime hin
    · rcases frontier_pushStart hpush with ⟨hbeyond, heq⟩ | ⟨hin, hpush⟩
      · rw [heq, hbeyond]
        exact ⟨hr, fun hin => Bool.noConfusion hin⟩
      · obtain ⟨hr', -, hqueued⟩ :=
          hr.push [] .nil (.start time htime hin) (List.Sublist.refl _) hpush
        exact ⟨hr', fun _ => hqueued⟩
    · obtain ⟨id, hid, hget⟩ := hother hin
      rcases frontier_pushStart hpush with ⟨-, heq⟩ | ⟨hin', hpush⟩
      · rw [heq]
        exact ⟨id, hid, hget⟩
      · obtain ⟨-, hgrow, -⟩ :=
          hr.push [] .nil (.start time htime hin') (List.Sublist.refl _) hpush
        exact ⟨id, hgrow.queued id hid, hgrow.keeps id _ hget⟩
  · have hs := start_sound hf h
    exact absurd ((hs.settled node id).1 hid).1 List.not_mem_nil

/-- In every state of a search every label that has come up is accounted for. -/
theorem Reached.accounted (hq : q.Sound) {f : Frontier} (hf : f.Blank)
    (h : Reached q settings measures f r) : r.frontier.Accounted q settings measures := by
  induction h with
  | start h => exact start_accounted hf h
  | @visit r r₁ r₂ id h hpop hvisit ih =>
    obtain ⟨order, hs⟩ := h.sound hq hf
    obtain ⟨hs₁, hperm, hpool, hsettled, hresults⟩ := pop_sound hs hpop
    obtain ⟨label, links, ht⟩ := hs₁.waiting _ List.mem_cons_self
    have hhandled := (visits_of_visit ht.get? hvisit).handled hq hs₁ ht.get?
    have hsame : ∀ node, r₁.frontier.settledAt node = r.frontier.settledAt node := by
      intro node
      unfold Frontier.settledAt
      rw [hsettled]
    have hpopped : r.frontier.Carries r₁.frontier := by
      refine .of_results_eq (fun node other l ho hl => ?_) hresults fun other _ => by rw [hpool]
      rw [hsame, hpool]
      exact ⟨ho, hl⟩
    have hcarries := hpopped.trans hhandled.carries
    refine ih.visit hcarries (fun node other ho => ?_) (fun next hnext => ?_)
      fun node other ho => ?_
    · obtain ⟨-, l, hl, -⟩ := (hs.settled node other).1 ho
      exact ⟨l, hl⟩
    · rcases hnext with hmet | ⟨other, ho, hl⟩
      · exact Or.inl (hmet.carry hcarries)
      -- the label in the hand is met now, the others wait where they did
      · rw [← hpool] at hl
        rcases List.mem_cons.1 (hperm.mem_iff.1 ho) with rfl | ho
        · rw [ht.get?] at hl
          cases hl
          exact Or.inl hhandled.met
        · obtain ⟨ho', hl'⟩ := hhandled.waiting other ho
          rw [← hl'] at hl
          exact Or.inr ⟨other, ho', hl⟩
    · rcases hhandled.settled node other ho with hin | ⟨rfl, hmine, hserved, -⟩
      · rw [hsame] at hin
        exact Or.inl hin
      · refine Or.inr fun l hl => ?_
        rw [hmine] at hl
        cases hl
        exact hserved

/-- A search that has come to its end has met all labels that it owed anything
to. -/
theorem exhausted_of_run (hq : q.Sound) {f : Frontier} (hf : f.Blank)
    (h : q.run settings measures f = .ok r) (hend : r.statistics.budgetSpent = false) :
    ∃ order, Frontier.Sound q settings measures r.frontier order [] ∧
      r.frontier.Accounted q settings measures ∧
      ∀ label, r.frontier.Known q.direction label → r.frontier.Met q.direction label := by
  obtain ⟨r₁, hreached, hframe, hempty⟩ := reached_of_run hq hf h
  obtain ⟨order, hs⟩ := hreached.sound hq hf
  rw [hframe]
  refine ⟨order, hs, hreached.accounted hq hf, fun label hknown => ?_⟩
  rcases hknown with hmet | ⟨id, hid, -⟩
  · exact hmet
  · rw [hempty hend] at hid
    cases hid

end Run

end JourneyPlanner

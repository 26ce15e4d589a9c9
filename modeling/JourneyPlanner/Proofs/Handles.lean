import JourneyPlanner.Proofs.Router
import JourneyPlanner.Proofs.Search.Moments

/-!
# Slots that can be relied on

A search knows its labels by their slots, and slots are used again. The main result of
this file, `handles_valid`, says that at no moment is a slot mistaken for another:

> whatever the queue, the nodes and the results name is in use, and is named once; the
> results are settled at the goal; and from every label that is in use the way back
> leads over settled labels to a start of the query, each label on it being what the
> edge that it records has made of the one before.

The last part reads the past of the search too (`Moment.Made`): when the edge was taken,
the label that it was taken from was the one that is there now, and since then neither
slot has been released.
-/

namespace JourneyPlanner

variable {q : Query} {settings : Settings} {measures : List Measure} {m : Moment}
  {f : Frontier} {order held : List LabelId} {id prev : LabelId} {label older : Label}

namespace Moment

/-- A label has been put into its slot, which was not in use, when an edge of a settled
label was taken, and since then both have been there. -/
def Made (q : Query) (settings : Settings) (measures : List Measure) (f : Frontier) (m : Moment)
    (prev : LabelId) (older : Label) (ref : EdgeRef) (id : LabelId) (label : Label) : Prop :=
  ∃ m₁ m₂ refs, Later q settings measures (first q f) m₁ ∧
    m₁.stage = .expanding prev older (ref :: refs) ∧ Next q settings measures m₁ m₂ ∧
    m₁.label? id = none ∧ Run.expandEdge q settings prev older ref = .ok (some label) ∧
    Throughout q settings measures
      (fun m => m.label? id = some label ∧ m.label? prev = some older) m₂ m

/-- The way back from a slot, as the labels record it: the slots before it, down to that
of a start label. -/
inductive Lineage (q : Query) (settings : Settings) (measures : List Measure) (f : Frontier)
    (m : Moment) : LabelId → List LabelId → Prop
  | start {id : LabelId} {label : Label} (hget : m.label? id = some label)
      (hpred : label.pred = none) (hedge : label.edge = none)
      (hnode : label.node = q.target.origin) (hstart : label.start ∈ q.startTimes)
      (hnow : label.now = label.start) : Lineage q settings measures f m id []
  | step {id prev : LabelId} {label older : Label} {ref : EdgeRef} {before : List LabelId}
      (hget : m.label? id = some label) (hpred : label.pred = some prev)
      (hedge : label.edge = some ref) (hprev : m.label? prev = some older)
      (hsettled : prev ∈ m.run.frontier.settledAt older.node)
      (href : ref ∈ q.graph.edgesAt older.node q.direction)
      (hmade : Made q settings measures f m prev older ref id label)
      (rest : Lineage q settings measures f m prev before) :
      Lineage q settings measures f m id (prev :: before)

/-- The slots that a search names at a moment can be relied on. -/
structure Valid (q : Query) (settings : Settings) (measures : List Measure) (f : Frontier)
    (m : Moment) : Prop where
  queued : ∀ id ∈ m.run.frontier.queued, (m.label? id).isSome = true
  settled : ∀ node, ∀ id ∈ m.run.frontier.settledAt node, (m.label? id).isSome = true
  results : ∀ id ∈ m.run.frontier.results, (m.label? id).isSome = true
  once : (m.run.frontier.queued ++ m.run.frontier.settled.toList.flatten).Nodup
  reported : ∀ id ∈ m.run.frontier.results, id ∈ m.run.frontier.settledAt q.target.goal
  preds : ∀ id label, m.label? id = some label → ∀ prev, label.pred = some prev →
    ∃ node, prev ∈ m.run.frontier.settledAt node
  lineage : ∀ id label, m.label? id = some label → ∃ before,
    Lineage q settings measures f m id before ∧
      (m.run.frontier.chain id).map (·.1) = id :: before

/-! ## Where a label comes from -/

/-- A label is that of a start, or has been made of a settled one. -/
theorem Later.origin (hq : q.Sound) (hf : f.Blank)
    (hlater : Later q settings measures (first q f) m) (hget : m.label? id = some label) :
    (∃ time ∈ q.startTimes, label = Run.startLabel q measures time) ∨
    ∃ prev older ref, label.pred = some prev ∧ label.edge = some ref ∧
      m.label? prev = some older ∧ prev ∈ m.run.frontier.settledAt older.node ∧
      ref ∈ q.graph.edgesAt older.node q.direction ∧
      Made q settings measures f m prev older ref id label := by
  obtain ⟨m₁, m₂, hlater₁, hnext, hfree, hfills, hsince⟩ := hlater.filled hq hf hget
  cases hstage : m₁.stage with
  | starting times =>
    rw [hstage] at hfills
    cases hfills with
    | start time times htime => exact Or.inl ⟨time, htime, rfl⟩
  | expanding prev older refs =>
    rw [hstage] at hfills
    cases hfills with
    | edge _ _ _ ref refs hmade =>
      obtain ⟨order₁, h₁, -⟩ := Later.stands hq (first_stands hf) hlater₁
      have hfits := h₁.fits
      rw [hstage] at hfits
      obtain ⟨-, hrefs, links, ht, hsub⟩ := hfits
      -- the label that the edge was taken from had been settled, and so has stayed
      have hkeep : ∀ m', Later q settings measures m₂ m' →
          ∃ order', m'.Stands q settings measures order' ∧ prev ∈ order' ∧
            m'.label? prev = some older := by
        intro m' hlater'
        obtain ⟨order', h', hall⟩ := Later.stands hq h₁ (.head hnext hlater')
        obtain ⟨hin, hsame⟩ := hall prev (hsub.subset List.mem_cons_self)
        exact ⟨order', h', hin, hsame.trans ht.get?⟩
      obtain ⟨order', h', hin, hprev⟩ := hkeep m hsince.later
      obtain ⟨cost, now, -, -, rfl⟩ := expandEdge_eq_some_iff.1 hmade
      refine Or.inr ⟨prev, older, ref, rfl, rfl, hprev, ?_, hrefs ref List.mem_cons_self,
        m₁, m₂, refs, hlater₁, hstage, hnext, hfree, hmade, ?_⟩
      · exact (h'.sound.settled older.node prev).2 ⟨hin, older, hprev, rfl⟩
      · apply hsince.and
        intro m' hlater'
        obtain ⟨-, -, -, hprev'⟩ := hkeep m' hlater'
        exact hprev'
  | choosing => rw [hstage] at hfills; cases hfills
  | holding id => rw [hstage] at hfills; cases hfills
  | reporting id => rw [hstage] at hfills; cases hfills

/-- The way back that the labels record is the one over which they hang together. -/
theorem Later.lineage (hq : q.Sound) (hf : f.Blank)
    (hlater : Later q settings measures (first q f) m) {links : List (LabelId × Label)}
    (hlinks : Frontier.Links m.run.frontier.pool (some id) ((id, label) :: links)) :
    Lineage q settings measures f m id (links.map (·.1)) := by
  induction links generalizing id label with
  | nil =>
    have hget : m.label? id = some label := hlinks.get?
    have hpred : label.pred = none := by
      cases hlinks with
      | cons _ rest =>
        generalize hp : label.pred = pred at rest
        cases rest
        rfl
    rcases hlater.origin hq hf hget with ⟨time, htime, rfl⟩ | ⟨prev, _, _, hpred', -⟩
    · exact .start hget rfl rfl rfl htime rfl
    · rw [hpred] at hpred'
      cases hpred'
  | cons link links ih =>
    have hget : m.label? id = some label := hlinks.get?
    obtain ⟨prev, older⟩ := link
    obtain ⟨hpred, hrest⟩ : label.pred = some prev ∧
        Frontier.Links m.run.frontier.pool (some prev) ((prev, older) :: links) := by
      cases hlinks with
      | cons _ rest =>
        generalize hp : label.pred = pred at rest
        cases rest with
        | cons hget' rest' => exact ⟨rfl, .cons hget' rest'⟩
    rcases hlater.origin hq hf hget with
      ⟨time, htime, rfl⟩ | ⟨prev', older', ref, hpred', hedge, hprev, hsettled, href, hmade⟩
    · cases hpred
    · rw [hpred] at hpred'
      cases hpred'
      have hsame : m.label? prev = some older := hrest.get?
      rw [hprev] at hsame
      cases hsame
      exact .step hget hpred hedge hprev hsettled href hmade (ih hrest)

/-! ## The slots of a moment -/

/-- The labels that lead back from a slot in use, as they are read off when a journey is
written out. -/
theorem Stands.chain (h : m.Stands q settings measures order) (hget : m.label? id = some label) :
    ∃ links, Frontier.Traced q settings measures m.run.frontier.pool order id label links ∧
      m.run.frontier.chain id = (id, label) :: links := by
  have hlive := h.sound.live_eq
  rcases List.mem_append.1 (h.listed.used id label hget) with hid | hid
  · obtain ⟨links, ht, hsub⟩ := h.sound.traced_of_passed hid hget
    refine ⟨links, ht, ht.linked.chainWithin ?_⟩
    have hlen := hsub.length_le
    rw [List.length_cons, List.length_map] at hlen
    show links.length + 1 ≤ m.run.frontier.pool.live
    omega
  · obtain ⟨label', links, ht⟩ := h.sound.waiting id hid
    have heq : m.label? id = some label' := ht.get?
    rw [hget] at heq
    cases heq
    refine ⟨links, ht, ht.linked.chainWithin ?_⟩
    -- the slot itself is not among those that are settled
    have hlen := ht.sublist.length_le
    have hpos := List.length_pos_of_mem hid
    rw [List.length_map] at hlen
    rw [List.length_append] at hpos
    show links.length + 1 ≤ m.run.frontier.pool.live
    omega

theorem Later.valid (hq : q.Sound) (hf : f.Blank)
    (hlater : Later q settings measures (first q f) m) : m.Valid q settings measures f := by
  obtain ⟨order, h, -⟩ := Later.stands hq (first_stands hf) hlater
  have hsome : ∀ id ∈ order ++ (m.stage.held ++ m.run.frontier.queued),
      (m.label? id).isSome = true := by
    intro id hid
    obtain ⟨label, hget⟩ := h.sound.isSome hid
    exact Option.isSome_iff_exists.2 ⟨label, hget⟩
  have hpassed : ∀ id ∈ order, (m.label? id).isSome = true :=
    fun id hid => hsome id (List.mem_append_left _ hid)
  refine ⟨fun id hid => ?_, fun node id hid => ?_, fun id hid => ?_, ?_, fun id hid => ?_,
    fun id label hget prev hpred => ?_, fun id label hget => ?_⟩
  · exact hsome id (List.mem_append_right _ (List.mem_append_right _ hid))
  · exact hpassed id ((h.sound.settled node id).1 hid).1
  · exact hpassed id (h.sound.results id hid).1
  · have hperm : (m.run.frontier.queued ++ m.run.frontier.settled.toList.flatten).Perm
        (order ++ m.run.frontier.queued) :=
      (h.listed.settled.append_left _).trans List.perm_append_comm
    apply hperm.nodup_iff.2
    exact List.Nodup.sublist ((List.sublist_append_right _ _).append_left order) h.sound.nodup
  · obtain ⟨hin, label, hget, hgoal⟩ := h.sound.results id hid
    unfold Target.isGoal at hgoal
    rw [Bool.and_eq_true, beq_iff_eq] at hgoal
    exact (h.sound.settled _ id).2 ⟨hin, label, hget, hgoal.1⟩
  · rcases hlater.origin hq hf hget with ⟨time, -, rfl⟩ | ⟨prev', older, _, hpred', -, -, hin, -⟩
    · cases hpred
    · rw [hpred] at hpred'
      cases hpred'
      exact ⟨older.node, hin⟩
  · obtain ⟨links, ht, hchain⟩ := h.chain hget
    refine ⟨links.map (·.1), hlater.lineage hq hf ht.linked, ?_⟩
    rw [hchain]
    rfl

end Moment

/-- At every moment of a search over a timetable that was built, the slots that it names
can be relied on, and among these moments is the one in which it ends. -/
theorem handles_valid {fixture : Fixture} {tt : Timetable} (hbuild : fixture.build = .ok tt)
    {settings : Settings} {measures : List Measure} {router : Router}
    (hrouter : Router.Reached settings measures router) {request : Request} {q : Query}
    (hq : request.toQuery tt = .ok q) :
    (∀ m, Moment.Later q settings measures (Moment.first q router.frontier) m →
      m.Valid q settings measures router.frontier) ∧
    ∃ m, Moment.Later q settings measures (Moment.first q router.frontier) m ∧
      m.run.frontier = (Run.left (q.run settings measures router.frontier)).frontier := by
  have hsound := (Request.toQuery_sound (Fixture.build_sound hbuild) hq).1
  have hf := hrouter.blank.2.2
  exact ⟨fun m hlater => hlater.valid hsound hf, Run.makes_run hsound hf⟩

/-- Two walks to a stop on the way that are equally long, so that one of them is dropped. -/
def secondWalk : Fixture :=
  { firstDay := Fixture.firstMonday, days := 1, categories := [],
    stations := [.plain "A" 0, .plain "X" 0, .plain "Y" 0, .plain "B" 0],
    routes := [],
    footpaths := [⟨"A", "X", 5⟩, ⟨"A", "X", 5⟩, ⟨"X", "Y", 15⟩, ⟨"Y", "B", 5⟩],
    through := [] }

set_option maxRecDepth 4000 in
/-- The slot of the second walk is used again. -/
theorem handles_valid_secondWalk : ∃ tt q run, secondWalk.build = .ok tt ∧
    (Fixture.onTrip "A" "B" 0 .forward).toQuery tt = .ok q ∧
    q.run {} Measure.all (Router.new {} Measure.all).frontier = .ok run ∧
    run.frontier.pool.taken < run.statistics.labelsCreated ∧
    ∃ m : Moment, m.run.frontier = run.frontier ∧
      m.Valid q {} Measure.all (Router.new {} Measure.all).frontier ∧
      ∃ id ∈ run.frontier.results, (m.label? id).isSome = true ∧
        (run.frontier.chain id).length = 4 := by
  obtain ⟨tt, q, run, response, journeys, hbuild, hq, hrun, -, -, -, hfound⟩ :=
    Fixture.of_search? secondWalk (Fixture.onTrip "A" "B" 0 .forward)
      (fun _ run _ => decide (run.frontier.pool.taken < run.statistics.labelsCreated) &&
        run.frontier.results.any fun id => (run.frontier.chain id).length == 4)
      (by decide +kernel)
  rw [Bool.and_eq_true, decide_eq_true_eq, List.any_eq_true] at hfound
  obtain ⟨hreused, id, hid, hlength⟩ := hfound
  have hnew : Router.Reached {} Measure.all (Router.new {} Measure.all) := .new
  obtain ⟨hall, m, hlater, hframe⟩ := handles_valid hbuild hnew hq
  have hrun' : q.run {} Measure.all (Router.new {} Measure.all).frontier = .ok run := hrun
  rw [hrun'] at hframe
  have hvalid := hall m hlater
  refine ⟨tt, q, run, hbuild, hq, hrun', hreused, m, hframe, hvalid, id, hid, ?_,
    beq_iff_eq.1 hlength⟩
  apply hvalid.results
  rw [hframe]
  exact hid

end JourneyPlanner

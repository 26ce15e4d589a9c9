import JourneyPlanner.Proofs.Itinerary.Offers
import JourneyPlanner.Proofs.Router
import Mathlib.Data.List.Nodup

/-!
# What journeys show of the service on board

A trip lists what it offers, each thing with a code and a text. The main result of this file,
`attributes_exact_iff`:

> on every section of a journey its attributes show the codes that its trip lists, and no others.
> If each trip lists one text for a code, they show the texts as well, and no others, if and only
> if sections in a row with a code in common have the same text for it.

An attribute is stretched over the next section if that has its code, whatever the text. So where
the texts differ, the second is missing and the first is shown in its place (`lost_text`).

A trip may list a code with several texts. There are as many attributes of the code on its section,
and they show all of its texts if the section before does not have the code. If it has, those that
hold there go on with the texts that they have, and texts are shown for what is left over. If sections
in a row agree there is nothing left over, and everything is shown as it is listed in this case too.
-/

namespace JourneyPlanner

/-- The journey of a result, and the sections that are ridden on it. -/
def Run.itinerary? (run : Run) (q : Query) (id : LabelId) :
    Option (Journey × List (Nat × Event)) := do
  let labels := (run.frontier.chain id).map (·.2)
  let journey ← (Journey.ofChain q.graph q.direction labels).toOption
  let steps ← (Journey.steps q.direction (Journey.inTravelOrder labels q.direction)).toOption
  return (journey, sectionsFrom q.graph 0 steps)

/-- Attributes show all that is offered on the sections, and nothing else. -/
structure RenderExactly (tt : Timetable) (sections : List (Nat × Event)) (as : List Attribute) :
    Prop where
  shown : ∀ place offer, Lists tt sections place offer →
    ∃ a ∈ as, a.code = offer.code ∧ a.text = offer.text ∧ a.Covers place
  listed : ∀ a ∈ as, ∀ place, a.Covers place → Lists tt sections place ⟨a.code, a.text⟩

/-- Each section has one text for a code. -/
def OneText (tt : Timetable) (sections : List (Nat × Event)) : Prop :=
  ∀ s ∈ sections, ∀ offer ∈ s.2.offers tt, ∀ other ∈ s.2.offers tt,
    offer.code = other.code → offer = other

/-- Sections in a row with a code in common have the same text for it. -/
def Agree (tt : Timetable) (sections : List (Nat × Event)) : Prop :=
  ∀ s ∈ sections, ∀ t ∈ sections, t.1 = s.1 + 1 →
    ∀ offer ∈ s.2.offers tt, ∀ other ∈ t.2.offers tt, offer.code = other.code → offer = other

instance (tt : Timetable) (sections : List (Nat × Event)) : Decidable (OneText tt sections) :=
  inferInstanceAs (Decidable (∀ s ∈ sections, ∀ offer ∈ s.2.offers tt, ∀ other ∈ s.2.offers tt,
    offer.code = other.code → offer = other))

instance (tt : Timetable) (sections : List (Nat × Event)) : Decidable (Agree tt sections) :=
  inferInstanceAs (Decidable (∀ s ∈ sections, ∀ t ∈ sections, t.1 = s.1 + 1 →
    ∀ offer ∈ s.2.offers tt, ∀ other ∈ t.2.offers tt, offer.code = other.code → offer = other))

namespace Tells

variable {tt : Timetable} {sections : List (Nat × Event)} {place : Nat} {as : List Attribute}

/-- The codes on a section are those that are offered there. -/
theorem code_iff (h : Tells tt sections place as) (before : Nat) (code : String) :
    (∃ offer, Lists tt sections before offer ∧ offer.code = code) ↔
      ∃ a ∈ as, a.code = code ∧ a.Covers before := by
  constructor
  · rintro ⟨offer, hlists, rfl⟩
    exact h.shown before offer hlists
  · rintro ⟨a, ha, rfl, hcovers⟩
    exact h.listed a ha before hcovers

/-- Where sections in a row agree, an attribute keeps to the text with which it began. -/
theorem lists_of_covers (h : Tells tt sections place as) (hagree : Agree tt sections)
    {a : Attribute} (ha : a ∈ as) {before : Nat} (hfirst : a.first ≤ before)
    (hlast : before < a.last) : Lists tt sections before ⟨a.code, a.text⟩ := by
  induction before, hfirst using Nat.le_induction with
  | base => exact h.named a ha
  | succ before hfirst ih =>
    obtain ⟨event, hmem, hoffer⟩ := ih (Nat.lt_of_succ_lt hlast)
    obtain ⟨other, ⟨next, hnext, hother⟩, hcode⟩ :=
      h.listed a ha (before + 1) ⟨Nat.le_succ_of_le hfirst, hlast⟩
    have hsame := hagree _ hmem _ hnext rfl _ hoffer other hother hcode.symm
    exact ⟨next, hnext, hsame ▸ hother⟩

/-- Where sections in a row agree, everything is shown as it is listed. -/
theorem renderExactly_of_agree (h : Tells tt sections place as) (hagree : Agree tt sections) :
    RenderExactly tt sections as := by
  have hlisted : ∀ a ∈ as, ∀ before, a.Covers before → Lists tt sections before ⟨a.code, a.text⟩ :=
    fun a ha before hcovers => h.lists_of_covers hagree ha hcovers.1 hcovers.2
  refine ⟨fun before offer hlists => ?_, hlisted⟩
  by_cases hbegins : Begins tt sections before offer.code
  · obtain ⟨a, ha, hcode, htext, rfl⟩ := h.begun before offer hlists hbegins
    exact ⟨a, ha, hcode, htext, Nat.le_refl _, (h.within a ha).1⟩
  · -- the section before has one text for the code, and so has this one
    unfold Begins at hbegins
    push Not at hbegins
    obtain ⟨earlier, other, rfl, ⟨event, hmem, hother⟩, hcode⟩ := hbegins
    have hone : ∀ offer', Lists tt sections (earlier + 1) offer' → offer'.code = offer.code →
        offer' = other := by
      rintro offer' ⟨next, hnext, hoffer'⟩ hcode'
      exact (hagree _ hmem _ hnext rfl other hother offer' hoffer' (hcode.trans hcode'.symm)).symm
    obtain ⟨a, ha, hacode, hcovers⟩ := h.shown _ offer hlists
    have hsame := (hone _ (hlisted a ha _ hcovers) hacode).trans (hone offer hlists rfl).symm
    exact ⟨a, ha, hacode, congrArg ServiceAttribute.text hsame, hcovers⟩

variable (h : Tells tt sections place as)
  (hascending : sections.Pairwise fun first second => first.1 < second.1)
  (hone : OneText tt sections)

include hascending hone

/-- There is one section from a stop, and it has one text for a code. -/
theorem eq_of_lists {before : Nat} {offer other : ServiceAttribute}
    (hoffer : Lists tt sections before offer) (hother : Lists tt sections before other)
    (hcode : offer.code = other.code) : offer = other := by
  obtain ⟨event, hmem, hoffer⟩ := hoffer
  obtain ⟨event', hmem', hother⟩ := hother
  have hplaces : (sections.map Prod.fst).Nodup :=
    List.pairwise_map.2 (hascending.imp Nat.ne_of_lt)
  have hsame := List.inj_on_of_nodup_map hplaces hmem hmem' rfl
  cases hsame
  exact hone _ hmem offer hoffer other hother hcode

include h

/-- With one text for a code on each section, that is the only way. -/
theorem renderExactly_iff : RenderExactly tt sections as ↔ Agree tt sections := by
  constructor
  · rintro hexact ⟨before, event⟩ hmem ⟨_, next⟩ hnext rfl offer hoffer other hother hcode
    -- the attribute over both sections has one text, which both of them list
    have hlists : Lists tt sections before offer := ⟨event, hmem, hoffer⟩
    have hlists' : Lists tt sections (before + 1) other := ⟨next, hnext, hother⟩
    obtain ⟨a, ha, hacode, hcovers, hcovers'⟩ := h.joined before offer other hlists hlists' hcode
    rw [eq_of_lists hascending hone hlists (hexact.listed a ha _ hcovers) hacode.symm]
    exact eq_of_lists hascending hone (hexact.listed a ha _ hcovers') hlists'
      (hacode.trans hcode)
  · exact h.renderExactly_of_agree

end Tells

/-- A result comes to its journey and its sections. -/
theorem Run.itinerary?_of_ofChain {run : Run} {q : Query} {id : LabelId} {journey : Journey}
    (hj : Journey.ofChain q.graph q.direction ((run.frontier.chain id).map (·.2)) = .ok journey) :
    ∃ (steps : List Step) (d : Draft),
      run.itinerary? q id = some (journey, sectionsFrom q.graph 0 steps) ∧
      d.Offered q.graph.timetable (sectionsFrom q.graph 0 steps) ∧
      journey.stops = d.stops ∧ journey.attributes = d.attributes.reverse := by
  obtain ⟨result, before, steps, d, first, -, hsteps, hfold, hfinish⟩ := ofChain_eq_ok hj
  refine ⟨steps, d, ?_, (Draft.start_offered q.graph.timetable first).foldlM hfold,
    (Draft.finish_parts hfinish).1, Draft.finish_attributes hfinish⟩
  unfold Run.itinerary?
  dsimp only
  rw [hj, hsteps]
  rfl

/-- Every journey of every answer is written out from a result with sections from stop to stop. At
each its attributes have the codes that its trip lists, as often as it lists them, and a text is one
that was listed where its attribute begins; all texts of a code are shown where the code begins.
Everything is shown as it is listed if sections in a row agree, and only then if each section has one
text for a code. -/
theorem attributes_exact_iff {fixture : Fixture} {tt : Timetable} (hbuild : fixture.build = .ok tt)
    {settings : Settings} {measures : List Measure} {router : Router}
    (hrouter : Router.Reached settings measures router) {request : Request} {q : Query}
    (hq : request.toQuery tt = .ok q) {run : Run} {response : Response}
    (hanswer : router.answer tt request = .ok (run, response)) :
    ∀ journey ∈ response.journeys, ∃ id ∈ run.frontier.results, ∃ sections,
      run.itinerary? q id = some (journey, sections) ∧
      sections.Pairwise (fun first second => first.1 < second.1) ∧
      (∀ place event, (place, event) ∈ sections → ∃ stop, journey.stops[place + 1]? = some stop ∧
        stop.arrival = some (Draft.eventAt tt event.arrival event.leg.arrivalTrack)) ∧
      (∀ place code, (∃ offer, Lists tt sections place offer ∧ offer.code = code) ↔
        ∃ a ∈ journey.attributes, a.code = code ∧ a.Covers place) ∧
      (∀ a ∈ journey.attributes, a.first < a.last ∧ Lists tt sections a.first ⟨a.code, a.text⟩) ∧
      (∀ s ∈ sections, ∀ code,
        countAt journey.attributes s.1 code = (s.2.offers tt).countP (·.code = code)) ∧
      (∀ place offer, Lists tt sections place offer → Begins tt sections place offer.code →
        ∃ a ∈ journey.attributes, a.code = offer.code ∧ a.text = offer.text ∧ a.first = place) ∧
      (Agree tt sections → RenderExactly tt sections journey.attributes) ∧
      (OneText tt sections →
        (RenderExactly tt sections journey.attributes ↔ Agree tt sections)) := by
  obtain ⟨order, hanswers⟩ := hrouter.answers_to hbuild hq hanswer
  intro journey hj
  obtain ⟨id, hid, hok⟩ := hanswers.journeys journey hj
  obtain ⟨steps, d, hitinerary, hoffered, hstops, hattributes⟩ := Run.itinerary?_of_ofChain hok
  rw [hanswers.timetable_eq] at hoffered
  have hascending := sectionsFrom_ascending q.graph 0 steps
  have htells : Tells tt (sectionsFrom q.graph 0 steps) d.position journey.attributes :=
    hoffered.tells.perm (hattributes ▸ List.reverse_perm _)
  refine ⟨id, hid, _, hitinerary, hascending, ?_, htells.code_iff,
    fun a ha => ⟨(htells.within a ha).1, htells.named a ha⟩, htells.counted, htells.begun,
    htells.renderExactly_of_agree, htells.renderExactly_iff hascending⟩
  rw [hstops]
  exact hoffered.arrives

/-- A train to `B` with a bistro, and a train on from there that has the same code. -/
def mealTrains (text : String) : Fixture :=
  { firstDay := Fixture.firstMonday, days := 1, categories := ["RE"],
    stations := [.plain "A" 0, .plain "B" 0, .plain "C" 0],
    routes := [⟨["A", "B"],
        [{ Fixture.TripEntry.single "00:10" "00:20" 0 none with attributes := [⟨"BR", "Bistro"⟩] }]⟩,
      ⟨["B", "C"],
        [{ Fixture.TripEntry.single "00:25" "00:30" 0 none with attributes := [⟨"BR", text⟩] }]⟩],
    footpaths := [], through := [] }

set_option maxRecDepth 4000 in
/-- Two bistros in a row are one bistro. -/
theorem attributes_exact_iff_bistros : ∃ tt q run response, (mealTrains "Bistro").build = .ok tt ∧
    (Fixture.onTrip "A" "C" 0 .forward).toQuery tt = .ok q ∧
    (Router.new {} Measure.all).answer tt (Fixture.onTrip "A" "C" 0 .forward) =
      .ok (run, response) ∧
    response.journeys ≠ [] ∧
    ∀ journey ∈ response.journeys, ∃ id ∈ run.frontier.results, ∃ sections,
      run.itinerary? q id = some (journey, sections) ∧ OneText tt sections ∧
        RenderExactly tt sections journey.attributes := by
  obtain ⟨tt, q, run, response, journeys, hbuild, hq, -, -, hanswer, hrank, hfound⟩ :=
    Fixture.of_search? (mealTrains "Bistro") (Fixture.onTrip "A" "C" 0 .forward)
      (fun q run journeys => !journeys.isEmpty && run.frontier.results.all fun id =>
        (run.itinerary? q id).all fun s =>
          decide (OneText q.graph.timetable s.2) && decide (Agree q.graph.timetable s.2))
      (by decide +kernel)
  rw [Bool.and_eq_true, Bool.not_eq_true', List.isEmpty_eq_false_iff, List.all_eq_true] at hfound
  obtain ⟨hne, hall⟩ := hfound
  have hperm := Journey.rank_perm journeys
  rw [← hrank] at hperm
  refine ⟨tt, q, run, response, hbuild, hq, hanswer, fun hnil => hne ?_, fun journey hj => ?_⟩
  · rw [hnil] at hperm
    exact hperm.symm.eq_nil
  · obtain ⟨id, hid, sections, hitinerary, -, -, -, -, -, -, -, hiff⟩ :=
      attributes_exact_iff hbuild .new hq hanswer journey hj
    have hagree := hall id hid
    rw [hitinerary, (Request.toQuery_sound (Fixture.build_sound hbuild) hq).2.1] at hagree
    simp only [Option.all_some, Bool.and_eq_true, decide_eq_true_eq] at hagree
    exact ⟨id, hid, sections, hitinerary, hagree.1, (hiff hagree.1).2 hagree.2⟩

set_option maxRecDepth 4000 in
/-- The second train has a restaurant, and the journey shows the bistro on it. -/
theorem lost_text : ∃ tt q run response, (mealTrains "Restaurant").build = .ok tt ∧
    (Fixture.onTrip "A" "C" 0 .forward).toQuery tt = .ok q ∧
    (Router.new {} Measure.all).answer tt (Fixture.onTrip "A" "C" 0 .forward) =
      .ok (run, response) ∧
    ∃ journey ∈ response.journeys, ∃ id ∈ run.frontier.results, ∃ sections,
      run.itinerary? q id = some (journey, sections) ∧
        ¬ RenderExactly tt sections journey.attributes := by
  obtain ⟨tt, q, run, response, journeys, hbuild, hq, -, hjourneys, hanswer, hrank, hfound⟩ :=
    Fixture.of_search? (mealTrains "Restaurant") (Fixture.onTrip "A" "C" 0 .forward)
      (fun q run _ => run.frontier.results.any fun id => (run.itinerary? q id).any fun s =>
        s.2.any (fun t => decide (⟨"BR", "Restaurant"⟩ ∈ t.2.offers q.graph.timetable)) &&
          s.1.attributes.all fun a => decide (a.text ≠ "Restaurant")) (by decide +kernel)
  obtain ⟨id, hid, hshown⟩ := List.any_eq_true.1 hfound
  obtain ⟨journey, hj, hok⟩ := Fallible.exists_of_mapM_mem hjourneys hid
  obtain ⟨steps, -, hitinerary, -⟩ := Run.itinerary?_of_ofChain (Fallible.mapError_eq_ok.1 hok)
  rw [hitinerary, Option.any_some, Bool.and_eq_true, List.any_eq_true, List.all_eq_true,
    (Request.toQuery_sound (Fixture.build_sound hbuild) hq).2.1] at hshown
  obtain ⟨⟨⟨place, event⟩, hmem, hoffer⟩, htexts⟩ := hshown
  refine ⟨tt, q, run, response, hbuild, hq, hanswer, journey, ?_, id, hid, _, hitinerary,
    fun hexact => ?_⟩
  · rw [hrank]
    exact (Journey.rank_perm journeys).mem_iff.2 hj
  · obtain ⟨a, ha, -, htext, -⟩ :=
      hexact.shown place ⟨"BR", "Restaurant"⟩ ⟨event, hmem, of_decide_eq_true hoffer⟩
    exact of_decide_eq_true (htexts a ha) htext

end JourneyPlanner

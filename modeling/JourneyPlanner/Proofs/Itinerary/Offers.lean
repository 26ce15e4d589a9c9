import JourneyPlanner.Proofs.Itinerary.Stops
import JourneyPlanner.Proofs.Search.Sections

/-!
# What is offered on the way

A trip lists what it offers, and each section that is ridden writes it down: an attribute with the
code of an offer that reaches up to the section is stretched over it, or else there is a new one. So
an attribute is known by its code only, and shows the text with which it began.

`Grown` says what the offers of one section come to, whatever their order. `Tells` is what holds of
the attributes behind the sections that have been ridden: codes are shown where they are offered and
nowhere else, every text is one that was offered where its attribute begins, and what two sections in
a row offer under one code is one attribute. A section keeps it (`Tells.ride`), and as no other step
touches the attributes, a draft has it after any steps (`Draft.Offered.foldlM`).
-/

namespace JourneyPlanner

/-! ## The offers of one section -/

/-- An attribute holds on the section that begins at a stop. -/
def Attribute.Covers (a : Attribute) (place : Nat) : Prop := a.first ≤ place ∧ place < a.last

instance (a : Attribute) (place : Nat) : Decidable (a.Covers place) :=
  inferInstanceAs (Decidable (a.first ≤ place ∧ place < a.last))

/-- The number of attributes with a code that hold on the section from a stop. -/
def countAt (as : List Attribute) (place : Nat) (code : String) : Nat :=
  as.countP fun a => decide (a.code = code ∧ a.Covers place)

section Stretch

variable {place : Nat} {code : String} {offer : ServiceAttribute} {offers : List ServiceAttribute}
  {as as' : List Attribute}

theorem countAt_cons (a : Attribute) (as : List Attribute) (place : Nat) (code : String) :
    countAt (a :: as) place code =
      countAt as place code + if a.code = code ∧ a.Covers place then 1 else 0 := by
  unfold countAt
  rw [List.countP_cons]
  simp only [decide_eq_true_eq]

theorem countAt_append (as as' : List Attribute) (place : Nat) (code : String) :
    countAt (as ++ as') place code = countAt as place code + countAt as' place code :=
  List.countP_append

/-- Nothing holds past the stop up to which attributes have got. -/
theorem countAt_eq_zero (h : ∀ a ∈ as, a.last ≤ place) : countAt as place code = 0 := by
  unfold countAt
  refine List.countP_eq_zero.2 fun a ha hcovers => ?_
  exact absurd (of_decide_eq_true hcovers).2.2 (Nat.not_lt_of_le (h a ha))

/-- An attribute that is stretched over the section from a stop holds there as well, and elsewhere as
before. -/
theorem further_covers_iff {a : Attribute} (hlast : a.last = place) (hbegun : a.first < a.last)
    (before : Nat) : a.further.Covers before ↔ a.Covers before ∨ before = place := by
  have hfirst : a.further.first = a.first := rfl
  have hnext : a.further.last = a.last + 1 := rfl
  unfold Attribute.Covers
  rw [hfirst, hnext]
  omega

/-- Stretching an attribute over the section from a stop adds one to its code there. -/
theorem countAt_further {before after : List Attribute} {b : Attribute} (hlast : b.last = place)
    (hbegun : b.first < b.last) (k : Nat) (code : String) :
    countAt (before ++ b.further :: after) k code =
      countAt (before ++ b :: after) k code + if k = place ∧ b.code = code then 1 else 0 := by
  have hsame : b.further.code = b.code := rfl
  have hnot : ¬ b.Covers place := fun hcovers => absurd hlast (Nat.ne_of_gt hcovers.2)
  rw [countAt_append, countAt_append, countAt_cons, countAt_cons, hsame]
  simp only [further_covers_iff hlast hbegun]
  by_cases hk : k = place
  · subst hk
    simp only [hnot, or_true, and_true, true_and, and_false, if_false]
    omega
  · simp only [hk, or_false, false_and, if_false, Nat.add_zero]

/-- So does a new attribute for the section. -/
theorem countAt_over (offer : ServiceAttribute) (as : List Attribute) (k : Nat) (code : String) :
    countAt (offer.over place :: as) k code =
      countAt as k code + if k = place ∧ offer.code = code then 1 else 0 := by
  have hsame : (offer.over place).code = offer.code := rfl
  have hcovers : (offer.over place).Covers k ↔ k = place := by
    have hfirst : (offer.over place).first = place := rfl
    have hlast : (offer.over place).last = place + 1 := rfl
    unfold Attribute.Covers
    rw [hfirst, hlast]
    omega
  rw [countAt_cons, hsame]
  simp only [hcovers, and_comm]

/-- What attributes have become when some offers of the section from `place` have been written
down. -/
structure Grown (place : Nat) (offers : List ServiceAttribute) (as as' : List Attribute) : Prop where
  origin : ∀ a' ∈ as', a' ∈ as ∨
    (∃ a ∈ as, a.last = place ∧ a' = a.further ∧ ∃ offer ∈ offers, offer.code = a.code) ∨
    ∃ offer ∈ offers, a' = offer.over place
  kept : ∀ a ∈ as, a ∈ as' ∨ a.last = place ∧ a.further ∈ as'
  /-- There is a new attribute for a code only if none reaches up to the section. -/
  shown : ∀ offer ∈ offers,
    (∃ a ∈ as, a.code = offer.code ∧ a.last = place ∧ a.further ∈ as') ∨
    (∀ a ∈ as, a.code = offer.code → a.last ≠ place) ∧ offer.over place ∈ as'
  /-- Each offer makes one more attribute hold on the section. -/
  counted : (∀ a ∈ as, a.first < a.last) → ∀ before code, countAt as' before code =
    countAt as before code + if before = place then offers.countP (·.code = code) else 0

theorem Grown.refl (place : Nat) (as : List Attribute) : Grown place [] as as :=
  ⟨fun _ ha => Or.inl ha, fun _ ha => Or.inl ha, fun _ h => absurd h List.not_mem_nil,
    fun _ _ _ => by simp only [List.countP_nil, ite_self, Nat.add_zero]⟩

/-- What has been stretched already, or is new, does not end where the section begins. -/
theorem Grown.mem_of_last (h : Grown place offers as as') {a : Attribute} (ha : a ∈ as')
    (hlast : a.last = place) : a ∈ as := by
  rcases h.origin a ha with hold | ⟨old, -, hold, rfl, -⟩ | ⟨offer, -, rfl⟩
  · exact hold
  · exact absurd hlast (hold ▸ Nat.succ_ne_self _)
  · exact absurd hlast (Nat.succ_ne_self _)

/-- One offer more takes nothing back. -/
theorem Grown.origin_concat (h : Grown place offers as as') (offer : ServiceAttribute) :
    ∀ a' ∈ as', a' ∈ as ∨
      (∃ a ∈ as, a.last = place ∧ a' = a.further ∧ ∃ other ∈ offers ++ [offer],
        other.code = a.code) ∨ ∃ other ∈ offers ++ [offer], a' = other.over place := by
  intro a' ha'
  rcases h.origin a' ha' with hold | ⟨a, ha, hlast, heq, other, hmem, hcode⟩ | ⟨other, hmem, heq⟩
  · exact Or.inl hold
  · exact Or.inr (Or.inl ⟨a, ha, hlast, heq, other, List.mem_append_left _ hmem, hcode⟩)
  · exact Or.inr (Or.inr ⟨other, List.mem_append_left _ hmem, heq⟩)

/-- One more attribute for an offer at the place keeps the count. -/
theorem Grown.counted_concat (h : Grown place offers as as') {as'' : List Attribute}
    (hbegun : ∀ a ∈ as, a.first < a.last) {k : Nat} {code : String}
    (hcount : countAt as'' k code =
      countAt as' k code + if k = place ∧ offer.code = code then 1 else 0) :
    countAt as'' k code = countAt as k code +
      if k = place then (offers ++ [offer]).countP (·.code = code) else 0 := by
  rw [hcount, h.counted hbegun k code, List.countP_append, List.countP_singleton]
  by_cases hk : k = place
  · simp only [hk, true_and, if_true, decide_eq_true_eq, Nat.add_assoc]
  · simp only [hk, false_and, if_false, Nat.add_zero]

/-- An attribute is stretched. -/
theorem Grown.further {before after : List Attribute} {b : Attribute}
    (h : Grown place offers as (before ++ b :: after)) (hcode : b.code = offer.code)
    (hlast : b.last = place) :
    Grown place (offers ++ [offer]) as (before ++ b.further :: after) := by
  have hb : b ∈ as := h.mem_of_last (List.mem_append_right _ List.mem_cons_self) hlast
  have hfurther : b.further ∈ before ++ b.further :: after :=
    List.mem_append_right _ List.mem_cons_self
  -- everything else is still there, and all that has been stretched before is something else
  have hrest : ∀ a ∈ before ++ b :: after, a ≠ b → a ∈ before ++ b.further :: after := by
    intro a ha hne
    rcases List.mem_append.1 ha with ha | ha
    · exact List.mem_append_left _ ha
    · rcases List.mem_cons.1 ha with rfl | ha
      · exact absurd rfl hne
      · exact List.mem_append_right _ (List.mem_cons_of_mem _ ha)
  have hpast : ∀ a ∈ before ++ b :: after, a.last ≠ place → a ∈ before ++ b.further :: after :=
    fun a ha hne => hrest a ha fun heq => hne (heq ▸ hlast)
  refine ⟨fun a' ha' => ?_, fun a ha => ?_, fun other hother => ?_, fun hbegun k code => ?_⟩
  · rcases List.mem_append.1 ha' with hmem | hmem
    · exact h.origin_concat offer a' (List.mem_append_left _ hmem)
    · rcases List.mem_cons.1 hmem with rfl | hmem
      · exact Or.inr (Or.inl ⟨b, hb, hlast, rfl, offer,
          List.mem_append_right _ List.mem_cons_self, hcode.symm⟩)
      · exact h.origin_concat offer a' (List.mem_append_right _ (List.mem_cons_of_mem _ hmem))
  · rcases h.kept a ha with hmem | ⟨hend, hmem⟩
    · by_cases heq : a = b
      · exact Or.inr ⟨heq ▸ hlast, heq ▸ hfurther⟩
      · exact Or.inl (hrest a hmem heq)
    · exact Or.inr ⟨hend, hpast _ hmem (hend ▸ Nat.succ_ne_self _)⟩
  · rcases List.mem_append.1 hother with hmem | hmem
    · rcases h.shown other hmem with ⟨a, ha, hsame, hend, hmem⟩ | ⟨hnot, hmem⟩
      · exact Or.inl ⟨a, ha, hsame, hend, hpast _ hmem (hend ▸ Nat.succ_ne_self _)⟩
      · exact Or.inr ⟨hnot, hpast _ hmem (Nat.succ_ne_self _)⟩
    · rw [List.mem_singleton.1 hmem]
      exact Or.inl ⟨b, hb, hcode, hlast, hfurther⟩
  · exact h.counted_concat hbegun (hcode ▸ countAt_further hlast (hbegun b hb) k code)

/-- There is a new attribute. -/
theorem Grown.cons (h : Grown place offers as as')
    (hnone : ∀ a ∈ as', a.code = offer.code → a.last ≠ place) :
    Grown place (offers ++ [offer]) as (offer.over place :: as') := by
  refine ⟨fun a' ha' => ?_, fun a ha => ?_, fun other hother => ?_, fun hbegun k code => ?_⟩
  · rcases List.mem_cons.1 ha' with rfl | hmem
    · exact Or.inr (Or.inr ⟨offer, List.mem_append_right _ List.mem_cons_self, rfl⟩)
    · exact h.origin_concat offer a' hmem
  · exact (h.kept a ha).imp (List.mem_cons_of_mem _)
      fun hstretched => ⟨hstretched.1, List.mem_cons_of_mem _ hstretched.2⟩
  · rcases List.mem_append.1 hother with hmem | hmem
    · rcases h.shown other hmem with ⟨a, ha, hsame, hend, hmem⟩ | ⟨hnot, hmem⟩
      · exact Or.inl ⟨a, ha, hsame, hend, List.mem_cons_of_mem _ hmem⟩
      · exact Or.inr ⟨hnot, List.mem_cons_of_mem _ hmem⟩
    · rw [List.mem_singleton.1 hmem]
      -- one that did reach up to the section has been stretched for another offer
      by_cases hreaches : ∃ a ∈ as, a.code = offer.code ∧ a.last = place
      · obtain ⟨a, ha, hcode, hlast⟩ := hreaches
        rcases h.kept a ha with hmem | ⟨-, hmem⟩
        · exact absurd hlast (hnone a hmem hcode)
        · exact Or.inl ⟨a, ha, hcode, hlast, List.mem_cons_of_mem _ hmem⟩
      · exact Or.inr ⟨fun a ha hcode hlast => hreaches ⟨a, ha, hcode, hlast⟩, List.mem_cons_self⟩
  · exact h.counted_concat hbegun (countAt_over offer as' k code)

/-- One offer more is shown at the place as well, and nothing is counted twice. -/
theorem Grown.stretch (h : Grown place offers as as') (offer : ServiceAttribute) :
    Grown place (offers ++ [offer]) as (Draft.stretch place offer as') := by
  rcases Draft.stretch_cases place offer as' with ⟨before, b, after, rfl, hcode, hlast, hresult⟩ |
    ⟨hnone, hresult⟩
  · rw [hresult]
    exact h.further hcode hlast
  · rw [hresult]
    exact h.cons hnone

/-- An attribute is still there, or reaches one stop further. -/
theorem Grown.exists_covers (h : Grown place offers as as') {a : Attribute} (ha : a ∈ as) :
    ∃ a' ∈ as', a'.code = a.code ∧ ∀ before, a.Covers before → a'.Covers before := by
  rcases h.kept a ha with hmem | ⟨-, hmem⟩
  · exact ⟨a, hmem, rfl, fun _ hcovers => hcovers⟩
  · exact ⟨a.further, hmem, rfl, fun _ hcovers => ⟨hcovers.1, Nat.lt_succ_of_lt hcovers.2⟩⟩

/-- All offers of a section, one after the other. -/
theorem Grown.foldl {done : List ServiceAttribute} (h : Grown place done as as')
    (offers : List ServiceAttribute) : Grown place (done ++ offers) as
      (offers.foldl (fun as offer => Draft.stretch place offer as) as') := by
  induction offers generalizing done as' with
  | nil =>
    rw [List.append_nil]
    exact h
  | cons offer offers ih =>
    rw [List.append_cons]
    exact ih (h.stretch offer)

end Stretch

/-! ## Sections -/

/-- What the trip of an event offers. -/
def Event.offers (tt : Timetable) (event : Event) : List ServiceAttribute :=
  (tt.info event.leg.info).attributes

/-- The stops by which an edge leads on: a section always to the next one, a walk unless it ends at
the station where it begins. -/
def Edge.stops (tt : Timetable) (edge : Edge) : Nat :=
  match edge.kind with
  | .route _ => 1
  | .foot .. | .mumo _ =>
    if (tt.node edge.tail).stationIndex = (tt.node edge.head).stationIndex then 0 else 1
  | .enter | .exit | .through _ | .hotel _ => 0

/-- The sections that are ridden on steps from a stop on, each with the stop at which it begins. -/
def sectionsFrom (graph : QueryGraph) : Nat → List Step → List (Nat × Event)
  | _, [] => []
  | place, step :: steps =>
    ((step.section? graph).map fun event => (place, event)).toList ++
      sectionsFrom graph (place + (graph.edge step.edge).stops graph.timetable) steps

/-- Among the sections there is one from a stop whose trip has an offer. -/
def Lists (tt : Timetable) (sections : List (Nat × Event)) (place : Nat)
    (offer : ServiceAttribute) : Prop :=
  ∃ event, (place, event) ∈ sections ∧ offer ∈ event.offers tt

/-- The section that ends at a stop, if there is one, does not offer a code. -/
def Begins (tt : Timetable) (sections : List (Nat × Event)) (place : Nat) (code : String) : Prop :=
  ∀ before offer, before + 1 = place → Lists tt sections before offer → offer.code ≠ code

section Sections

variable {graph : QueryGraph} {step : Step} {steps : List Step} {tt : Timetable}
  {sections : List (Nat × Event)} {place other : Nat} {event : Event} {offer : ServiceAttribute}

theorem Step.section?_eq_none (h : ∀ legs, (graph.edge step.edge).kind ≠ .route legs) :
    step.section? graph = none := by
  unfold Step.section? QueryGraph.event?
  split
  · next legs hkind => exact absurd hkind (h legs)
  · rfl

theorem Step.stops_of_section? (h : step.section? graph = some event) :
    (graph.edge step.edge).stops graph.timetable = 1 := by
  unfold Step.section? QueryGraph.event? at h
  unfold Edge.stops
  split at h
  · next legs hkind => rw [hkind]
  · cases h

theorem le_of_mem_sectionsFrom {ridden : Nat × Event}
    (h : ridden ∈ sectionsFrom graph place steps) : place ≤ ridden.1 := by
  induction steps generalizing place with
  | nil => cases h
  | cons step steps ih =>
    rcases List.mem_append.1 h with hfirst | hrest
    · obtain ⟨event, -, rfl⟩ := Option.map_eq_some_iff.1 (Option.mem_toList.1 hfirst)
      exact Nat.le_refl place
    · exact Nat.le_trans (Nat.le_add_right _ _) (ih hrest)

/-- There is one section at most from any stop. -/
theorem sectionsFrom_ascending (graph : QueryGraph) (place : Nat) (steps : List Step) :
    (sectionsFrom graph place steps).Pairwise fun first second => first.1 < second.1 := by
  induction steps generalizing place with
  | nil => exact List.Pairwise.nil
  | cons step steps ih =>
    refine List.pairwise_append.2 ⟨?_, ih _, fun first hfirst second hsecond => ?_⟩
    · cases step.section? graph with
      | none => exact List.Pairwise.nil
      | some event => exact List.pairwise_singleton _ _
    · obtain ⟨event, hevent, rfl⟩ := Option.map_eq_some_iff.1 (Option.mem_toList.1 hfirst)
      have hle := le_of_mem_sectionsFrom hsecond
      rw [Step.stops_of_section? hevent] at hle
      exact hle

theorem lists_concat : Lists tt (sections ++ [(place, event)]) other offer ↔
    Lists tt sections other offer ∨ other = place ∧ offer ∈ event.offers tt := by
  unfold Lists
  constructor
  · rintro ⟨listed, hmem, hoffer⟩
    rcases List.mem_append.1 hmem with hmem | hmem
    · exact Or.inl ⟨listed, hmem, hoffer⟩
    · cases List.mem_singleton.1 hmem
      exact Or.inr ⟨rfl, hoffer⟩
  · rintro (⟨listed, hmem, hoffer⟩ | ⟨rfl, hoffer⟩)
    · exact ⟨listed, List.mem_append_left _ hmem, hoffer⟩
    · exact ⟨event, List.mem_append_right _ List.mem_cons_self, hoffer⟩

end Sections

/-! ## The attributes of some sections -/

/-- Attributes up to a stop, and the sections that have been ridden to it. -/
structure Tells (tt : Timetable) (ridden : List (Nat × Event)) (place : Nat)
    (as : List Attribute) : Prop where
  past : ∀ s ∈ ridden, s.1 < place
  within : ∀ a ∈ as, a.first < a.last ∧ a.last ≤ place
  shown : ∀ before offer, Lists tt ridden before offer →
    ∃ a ∈ as, a.code = offer.code ∧ a.Covers before
  listed : ∀ a ∈ as, ∀ before, a.Covers before →
    ∃ offer, Lists tt ridden before offer ∧ offer.code = a.code
  /-- The text is one with which the attribute could begin. -/
  named : ∀ a ∈ as, Lists tt ridden a.first ⟨a.code, a.text⟩
  /-- A code that the section before does not offer is shown with all its texts. -/
  begun : ∀ before offer, Lists tt ridden before offer → Begins tt ridden before offer.code →
    ∃ a ∈ as, a.code = offer.code ∧ a.text = offer.text ∧ a.first = before
  /-- A section is shown as many attributes of a code as it has offers. -/
  counted : ∀ s ∈ ridden, ∀ code,
    countAt as s.1 code = (s.2.offers tt).countP (·.code = code)
  /-- A code that two sections in a row offer is one attribute. -/
  joined : ∀ before offer next, Lists tt ridden before offer → Lists tt ridden (before + 1) next →
    offer.code = next.code → ∃ a ∈ as, a.code = offer.code ∧ a.Covers before ∧ a.Covers (before + 1)

namespace Tells

theorem nil (tt : Timetable) (place : Nat) : Tells tt [] place [] := by
  have hnone : ∀ before offer, ¬ Lists tt [] before offer := by
    rintro before offer ⟨event, hmem, -⟩
    cases hmem
  exact ⟨fun s hs => absurd hs List.not_mem_nil, fun a ha => absurd ha List.not_mem_nil,
    fun before offer h => absurd h (hnone _ _), fun a ha => absurd ha List.not_mem_nil,
    fun a ha => absurd ha List.not_mem_nil, fun before offer h => absurd h (hnone _ _),
    fun s hs => absurd hs List.not_mem_nil, fun before offer next h => absurd h (hnone _ _)⟩

variable {tt : Timetable} {ridden : List (Nat × Event)} {place : Nat} {as as' : List Attribute}

theorem mono (h : Tells tt ridden place as) {later : Nat} (hle : place ≤ later) :
    Tells tt ridden later as :=
  ⟨fun s hs => Nat.lt_of_lt_of_le (h.past s hs) hle,
    fun a ha => ⟨(h.within a ha).1, Nat.le_trans (h.within a ha).2 hle⟩, h.shown, h.listed, h.named,
    h.begun, h.counted, h.joined⟩

/-- The order of the attributes says nothing. -/
theorem perm (h : Tells tt ridden place as) (hperm : as'.Perm as) : Tells tt ridden place as' := by
  obtain ⟨past, within, shown, listed, named, begun, counted, joined⟩ := h
  simp only [← hperm.mem_iff] at within shown listed named begun joined
  refine ⟨past, within, shown, listed, named, begun, fun s hs code => ?_, joined⟩
  rw [← counted s hs code]
  exact hperm.countP_eq _

/-- A section that lists something begins before the stop that has been got to. -/
theorem lt_of_lists (h : Tells tt ridden place as) {before : Nat} {offer : ServiceAttribute}
    (hlists : Lists tt ridden before offer) : before < place := by
  obtain ⟨event, hmem, -⟩ := hlists
  exact h.past _ hmem

section Ride

variable {event : Event} (h : Tells tt ridden place as)
  (hgrown : Grown place (event.offers tt) as as')

include h hgrown

/-- No attribute is empty, and none reaches past the section that was ridden. -/
theorem within_ride : ∀ a ∈ as', a.first < a.last ∧ a.last ≤ place + 1 := by
  intro a' ha'
  rcases hgrown.origin a' ha' with ha | ⟨a, ha, hlast, rfl, -⟩ | ⟨offer, -, rfl⟩
  · exact ⟨(h.within a' ha).1, Nat.le_succ_of_le (h.within a' ha).2⟩
  · exact ⟨Nat.lt_succ_of_lt (h.within a ha).1, Nat.le_of_eq (congrArg (· + 1) hlast)⟩
  · exact ⟨Nat.lt_succ_self _, Nat.le_refl _⟩

/-- What a section lists is shown over it, and what was shown stays so. -/
theorem shown_ride : ∀ before offer, Lists tt (ridden ++ [(place, event)]) before offer →
    ∃ a ∈ as', a.code = offer.code ∧ a.Covers before := by
  intro before offer hlists
  rcases lists_concat.1 hlists with hold | ⟨rfl, hnew⟩
  · obtain ⟨a, ha, hcode, hcovers⟩ := h.shown before offer hold
    obtain ⟨a', ha', hcode', hcovers'⟩ := hgrown.exists_covers ha
    exact ⟨a', ha', hcode'.trans hcode, hcovers' before hcovers⟩
  · rcases hgrown.shown offer hnew with ⟨a, ha, hcode, hlast, hmem⟩ | ⟨-, hshown⟩
    · have hfirst := (h.within a ha).1
      exact ⟨a.further, hmem, hcode, Nat.le_of_lt (hlast ▸ hfirst), hlast ▸ Nat.lt_succ_self a.last⟩
    · exact ⟨_, hshown, rfl, Nat.le_refl _, Nat.lt_succ_self _⟩

/-- Nothing is shown over a section that did not list it. -/
theorem listed_ride : ∀ a ∈ as', ∀ before, a.Covers before →
    ∃ offer, Lists tt (ridden ++ [(place, event)]) before offer ∧ offer.code = a.code := by
  intro a' ha' before hcovers
  have hold : ∀ a ∈ as, a.Covers before → a.code = a'.code →
      ∃ offer, Lists tt (ridden ++ [(place, event)]) before offer ∧ offer.code = a'.code := by
    intro a ha hcovers hcode
    obtain ⟨offer, hlists, hcode'⟩ := h.listed a ha before hcovers
    exact ⟨offer, lists_concat.2 (Or.inl hlists), hcode'.trans hcode⟩
  rcases hgrown.origin a' ha' with ha | ⟨a, ha, hlast, rfl, offer, hoffer, hcode⟩ |
    ⟨offer, hoffer, rfl⟩
  · exact hold a' ha hcovers rfl
  · rcases Nat.lt_or_eq_of_le (Nat.le_of_lt_succ hcovers.2) with hlt | heq
    · exact hold a ha ⟨hcovers.1, hlt⟩ rfl
    · exact ⟨offer, lists_concat.2 (Or.inr ⟨heq.trans hlast, hoffer⟩), hcode⟩
  · have hplace : before = place := Nat.le_antisymm (Nat.le_of_lt_succ hcovers.2) hcovers.1
    exact ⟨offer, lists_concat.2 (Or.inr ⟨hplace, hoffer⟩), rfl⟩

/-- An attribute bears a text that the section it begins at lists. -/
theorem named_ride : ∀ a ∈ as', Lists tt (ridden ++ [(place, event)]) a.first ⟨a.code, a.text⟩ := by
  intro a' ha'
  rcases hgrown.origin a' ha' with ha | ⟨a, ha, -, rfl, -⟩ | ⟨offer, hoffer, rfl⟩
  · exact lists_concat.2 (Or.inl (h.named a' ha))
  · exact lists_concat.2 (Or.inl (h.named a ha))
  · exact lists_concat.2 (Or.inr ⟨rfl, hoffer⟩)

/-- An offer that the section before did not list begins an attribute of its own text. -/
theorem begun_ride : ∀ before offer, Lists tt (ridden ++ [(place, event)]) before offer →
    Begins tt (ridden ++ [(place, event)]) before offer.code →
    ∃ a ∈ as', a.code = offer.code ∧ a.text = offer.text ∧ a.first = before := by
  intro before offer hlists hbegins
  rcases lists_concat.1 hlists with hold | ⟨rfl, hnew⟩
  · obtain ⟨a, ha, hcode, htext, hfirst⟩ := h.begun before offer hold
      fun earlier other hnext hother => hbegins earlier other hnext (lists_concat.2 (Or.inl hother))
    rcases hgrown.kept a ha with hmem | ⟨-, hmem⟩
    · exact ⟨a, hmem, hcode, htext, hfirst⟩
    · exact ⟨a.further, hmem, hcode, htext, hfirst⟩
  · rcases hgrown.shown offer hnew with ⟨a, ha, hcode, hlast, -⟩ | ⟨-, hmem⟩
    · -- what reaches up to the section covers the one before, which offers the code then
      obtain ⟨hlt, -⟩ := h.within a ha
      obtain ⟨other, hother, hcode'⟩ := h.listed a ha (a.last - 1) ⟨by omega, by omega⟩
      exact absurd (hcode'.trans hcode)
        (hbegins _ other (by omega) (lists_concat.2 (Or.inl hother)))
    · exact ⟨_, hmem, rfl, rfl, rfl⟩

/-- Over each section a code is shown as many times as the section lists it. -/
theorem counted_ride : ∀ s ∈ ridden ++ [(place, event)], ∀ code,
    countAt as' s.1 code = (s.2.offers tt).countP (·.code = code) := by
  intro s hs code
  rw [hgrown.counted (fun a ha => (h.within a ha).1)]
  rcases List.mem_append.1 hs with hold | hnew
  · rw [if_neg (Nat.ne_of_lt (h.past s hold)), h.counted s hold code, Nat.add_zero]
  · cases List.mem_singleton.1 hnew
    rw [if_pos rfl, countAt_eq_zero fun a ha => (h.within a ha).2, Nat.zero_add]

/-- An offer of two sections in a row is shown over both by one attribute. -/
theorem joined_ride : ∀ before offer next, Lists tt (ridden ++ [(place, event)]) before offer →
    Lists tt (ridden ++ [(place, event)]) (before + 1) next → offer.code = next.code →
    ∃ a ∈ as', a.code = offer.code ∧ a.Covers before ∧ a.Covers (before + 1) := by
  intro before offer next hoffer hnext hcode
  rcases lists_concat.1 hnext with hnextOld | ⟨hplace, hnew⟩
  · have hlt := h.lt_of_lists hnextOld
    rcases lists_concat.1 hoffer with hold | ⟨rfl, -⟩
    · obtain ⟨a, ha, hsame, hcovers, hcovers'⟩ := h.joined before offer next hold hnextOld hcode
      obtain ⟨a', ha', hcode', hboth⟩ := hgrown.exists_covers ha
      exact ⟨a', ha', hcode'.trans hsame, hboth _ hcovers, hboth _ hcovers'⟩
    · omega
  · rcases lists_concat.1 hoffer with hold | ⟨heq, -⟩
    · -- what covers the section before reaches up to this one, so one that does has been stretched
      obtain ⟨a, ha, hsame, hcovers⟩ := h.shown before offer hold
      have hreaches : a.last = place := Nat.le_antisymm (h.within a ha).2 (hplace ▸ hcovers.2)
      rcases hgrown.shown next hnew with ⟨b, hb, hcodeb, hlast, hmem⟩ | ⟨hnone, -⟩
      · have hfirst := (h.within b hb).1
        have hlonger : b.further.last = b.last + 1 := rfl
        have hbegin : b.further.first = b.first := rfl
        refine ⟨b.further, hmem, hcodeb.trans hcode.symm, ⟨?_, ?_⟩, ⟨?_, ?_⟩⟩ <;> omega
      · exact absurd hreaches (hnone a ha (hsame.trans hcode))
    · omega

/-- A section that begins where the attributes have got to shows its offers. -/
theorem ride : Tells tt (ridden ++ [(place, event)]) (place + 1) as' := by
  refine ⟨fun s hs => ?_, h.within_ride hgrown, h.shown_ride hgrown, h.listed_ride hgrown,
    h.named_ride hgrown, h.begun_ride hgrown, h.counted_ride hgrown, h.joined_ride hgrown⟩
  rcases List.mem_append.1 hs with hold | hnew
  · exact Nat.lt_succ_of_lt (h.past s hold)
  · cases List.mem_singleton.1 hnew
    exact Nat.lt_succ_self _

end Ride

end Tells

/-! ## Drafts -/

namespace Draft

variable {tt : Timetable} {d d' : Draft} {ridden : List (Nat × Event)}

theorem rideTo_attributes (tt : Timetable) (d : Draft) (event : Event) (node : NodeId) :
    (d.rideTo tt event node).position = d.position + 1 ∧
      (d.rideTo tt event node).attributes =
        (event.offers tt).foldl (fun as offer => stretch d.position offer as) d.attributes := by
  unfold rideTo
  extract_lets leg d₁ d₂ place ride info arrival
  have h₁ : d₁.past = d.past ∧ d₁.attributes = d.attributes := by
    unfold d₁
    split
    · split <;> exact ⟨rfl, rfl⟩
    · exact ⟨rfl, rfl⟩
  have hplace : place = d.position := congrArg List.length h₁.1
  have hattributes : d₂.attributes = d.attributes := h₁.2
  refine ⟨congrArg (· + 1) hplace, ?_⟩
  dsimp only
  rw [hplace, hattributes]
  rfl

/-- A walk leads to the next stop unless it is round, and offers nothing. -/
theorem walk_attributes (tt : Timetable) (direction : Direction) (d : Draft) (step : Step)
    (edge : Edge) (duration price : Nat) (kind : WalkKind) :
    (d.walk tt direction step edge duration price kind).position = d.position +
        (if (tt.node edge.tail).stationIndex = (tt.node edge.head).stationIndex then 0 else 1) ∧
      (d.walk tt direction step edge duration price kind).attributes = d.attributes := by
  unfold walk
  rcases walkTimes step duration direction with ⟨departure, arrival⟩
  dsimp only
  split <;> exact ⟨rfl, rfl⟩

/-- What a draft says of the sections that have been ridden: their offers, and when they arrive. -/
structure Offered (tt : Timetable) (d : Draft) (ridden : List (Nat × Event)) : Prop where
  tells : Tells tt ridden d.position d.attributes
  arrives : ∀ place event, (place, event) ∈ ridden → ∃ stop, d.stops[place + 1]? = some stop ∧
    stop.arrival = some (eventAt tt event.arrival event.leg.arrivalTrack)

theorem start_offered (tt : Timetable) (node : NodeId) : (start tt node).Offered tt [] :=
  ⟨Tells.nil tt 0, fun _ _ h => absurd h List.not_mem_nil⟩

/-- Where an arrival is shown it still is further on. -/
theorem Extends.arrival (h : d.Extends d') {place : Nat} {event : StopEvent}
    (harrives : ∃ stop, d.stops[place]? = some stop ∧ stop.arrival = some event) :
    ∃ stop, d'.stops[place]? = some stop ∧ stop.arrival = some event := by
  obtain ⟨stop, hstop, harrival⟩ := harrives
  obtain ⟨stop', hstop', hkeeps⟩ := h.stop place stop hstop
  exact ⟨stop', hstop', hkeeps.arrival_eq.trans harrival⟩

/-- A section shows its offers. -/
theorem Offered.rideTo (h : d.Offered tt ridden) (event : Event) (node : NodeId) :
    (d.rideTo tt event node).Offered tt (ridden ++ [(d.position, event)]) := by
  obtain ⟨hposition, hattributes⟩ := d.rideTo_attributes tt event node
  obtain ⟨hextends, hhere⟩ := d.rideTo_spec tt event node
  refine ⟨?_, fun place other hmem => ?_⟩
  · rw [hposition, hattributes]
    exact h.tells.ride ((Grown.refl d.position d.attributes).foldl (event.offers tt))
  · rcases List.mem_append.1 hmem with hmem | hmem
    · exact ((d.depart_extends _).trans hextends).arrival (h.arrives place other hmem)
    · cases List.mem_singleton.1 hmem
      refine ⟨(d.rideTo tt event node).here, ?_, by rw [hhere]⟩
      rw [← hposition]
      exact getElem?_stops_position _

/-- A step adds its section, if it has one, and its stops. -/
theorem Offered.take {graph : QueryGraph} {direction : Direction} {step : Step}
    (h : d.Offered graph.timetable ridden) (htake : d.take graph direction step = .ok d') :
    d'.Offered graph.timetable
        (ridden ++ ((step.section? graph).map fun event => (d.position, event)).toList) ∧
      d'.position = d.position + (graph.edge step.edge).stops graph.timetable := by
  have hextends := take_extends htake
  -- a step without a section leaves the attributes alone
  have hpass : (∀ legs, (graph.edge step.edge).kind ≠ .route legs) →
      d'.attributes = d.attributes → d'.Offered graph.timetable
        (ridden ++ ((step.section? graph).map fun event => (d.position, event)).toList) := by
    intro hkind hattributes
    rw [Step.section?_eq_none hkind]
    simp only [Option.map_none, Option.toList_none, List.append_nil]
    refine ⟨?_, fun place event hmem => hextends.arrival (h.arrives place event hmem)⟩
    rw [hattributes]
    exact h.tells.mono hextends.position_le
  unfold Edge.stops
  cases hkind : (graph.edge step.edge).kind with
  | enter =>
    rw [hkind] at hpass
    rw [take_enter direction step hkind] at htake
    cases htake
    exact ⟨hpass nofun rfl, rfl⟩
  | exit =>
    rw [hkind] at hpass
    rw [take_exit direction step hkind] at htake
    obtain ⟨ride, -, rfl⟩ := leave_eq_ok htake
    exact ⟨hpass nofun rfl, rfl⟩
  | through trips =>
    rw [hkind] at hpass
    rw [take_through direction step hkind] at htake
    cases htake
    exact ⟨hpass nofun rfl, rfl⟩
  | route legs =>
    obtain ⟨used, event, hused, hat, rfl⟩ := take_route_eq_ok direction step hkind htake
    have hsection : step.section? graph = some event := by
      unfold Step.section?
      rw [hused, QueryGraph.event?_eq hkind]
      exact hat
    rw [hsection]
    exact ⟨h.rideTo event _, (d.rideTo_attributes _ event _).1⟩
  | foot duration price =>
    rw [hkind] at hpass
    rw [take_foot direction step hkind] at htake
    cases htake
    obtain ⟨hposition, hattributes⟩ := d.walk_attributes graph.timetable direction step
      (graph.edge step.edge) duration price .foot
    exact ⟨hpass nofun hattributes, hposition⟩
  | mumo ride =>
    rw [hkind] at hpass
    rw [take_mumo direction step hkind] at htake
    cases htake
    obtain ⟨hposition, hattributes⟩ := d.walk_attributes graph.timetable direction step
      (graph.edge step.edge) ride.duration ride.price (.mumo ride.id ride.name)
    exact ⟨hpass nofun hattributes, hposition⟩
  | hotel stay =>
    rw [hkind] at hpass
    rw [take_hotel direction step hkind] at htake
    cases htake
    exact ⟨hpass nofun rfl, rfl⟩

/-- Steps add all their sections. -/
theorem Offered.foldlM {graph : QueryGraph} {direction : Direction} {steps : List Step}
    (h : d.Offered graph.timetable ridden)
    (hfold : steps.foldlM (Draft.take graph direction) d = .ok d') :
    d'.Offered graph.timetable (ridden ++ sectionsFrom graph d.position steps) := by
  induction steps generalizing d ridden with
  | nil =>
    cases hfold
    rw [sectionsFrom, List.append_nil]
    exact h
  | cons step steps ih =>
    rw [List.foldlM_cons] at hfold
    obtain ⟨d₁, htake, hfold⟩ := Fallible.bind_eq_ok.1 hfold
    obtain ⟨h₁, hposition⟩ := h.take htake
    rw [sectionsFrom, ← List.append_assoc, ← hposition]
    exact ih h₁ hfold

/-- A finished journey has the attributes of its draft. -/
theorem finish_attributes {duration : Nat} {journey : Journey}
    (h : d.finish duration = .ok journey) : journey.attributes = d.attributes.reverse := by
  obtain ⟨-, valid, rfl⟩ := finish_eq_ok h
  rfl

end Draft

end JourneyPlanner

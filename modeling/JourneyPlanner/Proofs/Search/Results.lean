import JourneyPlanner.Proofs.Search.Criteria
import JourneyPlanner.Proofs.Search.Reached

/-!
# The results are a front

In every state of a search no result beats another (`Run.Reached.undominated`),
whatever the criteria are.

A label that comes up is compared with the results that are there, so a front
stays a front (`Front.insert_front`). What needs the labels to be sound is that
the results keep the criteria with which they were compared: the slot of a
result is settled, and only a slot that is not is ever released or filled.
-/

namespace JourneyPlanner

/-- A front stays a front when an item comes up that does not beat itself. -/
theorem Front.insert_front {α : Type} {beats same : α → α → Bool} {front : List α} {item : α}
    (hself : beats item item = false) (h : ∀ a ∈ front, ∀ b ∈ front, beats a b = false) :
    ∀ a ∈ (Front.insert beats same front item).2, ∀ b ∈ (Front.insert beats same front item).2,
      beats a b = false := by
  cases hr : Front.rejects beats same front item with
  | true =>
    rw [Front.insert_of_rejects hr]
    exact h
  | false =>
    rw [Front.insert_of_not_rejects hr]
    have hitem : ∀ a ∈ front, beats a item = false := by
      intro a ha
      have hn := List.any_eq_false.1 hr a ha
      rw [Bool.or_eq_true, not_or, Bool.not_eq_true] at hn
      exact hn.1
    -- the item beats none of those that are kept, which the filter has left
    intro a ha b hb
    rcases List.mem_append.1 ha with ha | ha
    · rcases List.mem_append.1 hb with hb | hb
      · exact h a (List.mem_filter.1 ha).1 b (List.mem_filter.1 hb).1
      · rw [List.mem_singleton.1 hb]
        exact hitem a (List.mem_filter.1 ha).1
    · rw [List.mem_singleton.1 ha]
      rcases List.mem_append.1 hb with hb | hb
      · exact Bool.not_eq_true' _ ▸ (List.mem_filter.1 hb).2
      · rw [List.mem_singleton.1 hb]
        exact hself

/-- An item that beats none of a front comes to its end, or is turned away. -/
theorem Front.insert_grows {α : Type} {beats same : α → α → Bool} {front : List α} {item : α}
    (h : ∀ e ∈ front, beats item e = false) :
    front <+: (Front.insert beats same front item).2 := by
  cases hr : Front.rejects beats same front item with
  | true => exact Front.insert_of_rejects hr ▸ List.prefix_refl front
  | false =>
    have hall : (front.filter fun e => !beats item e) = front := by
      apply List.filter_eq_self.2
      intro e he
      rw [h e he]
      rfl
    rw [Front.insert_of_not_rejects hr, hall]
    exact List.prefix_append _ _

section Pick

variable {α β : Type} {beats same : α → α → Bool} {beats' same' : β → β → Bool}
  {pick : α → Option β} {front : List α} {item : α} {b : β}

/-- What becomes of an item does not depend on those that are left out, if none of them
turns it away. -/
theorem Front.filterMap_insert (hitem : pick item = some b)
    (hkept : ∀ e ∈ front, (beats e item || same e item) = true → pick e ≠ none)
    (hsame : ∀ e ∈ front, ∀ y ∈ pick e,
      beats e item = beats' y b ∧ same e item = same' y b ∧ beats item e = beats' b y) :
    (Front.insert beats same front item).2.filterMap pick =
      (Front.insert beats' same' (front.filterMap pick) b).2 := by
  have hrejects : Front.rejects beats same front item =
      Front.rejects beats' same' (front.filterMap pick) b := by
    unfold Front.rejects
    rw [List.any_filterMap]
    refine Bool.eq_iff_iff.2 ?_
    rw [List.any_eq_true, List.any_eq_true]
    refine exists_congr fun e => and_congr_right fun he => ?_
    cases hpick : pick e with
    | none =>
      constructor
      · intro h
        exact absurd hpick (hkept e he h)
      · intro h
        cases h
    | some y =>
      obtain ⟨hbeats, hsame, -⟩ := hsame e he y hpick
      rw [hbeats, hsame]
  unfold Front.insert
  rw [← hrejects]
  split
  · rfl
  · dsimp only
    rw [List.filterMap_append, List.filterMap_filter, List.filter_filterMap,
      List.filterMap_cons_some hitem, List.filterMap_nil]
    congr 1
    refine List.filterMap_congr fun e he => ?_
    cases hpick : pick e with
    | none => exact ite_self _
    | some y =>
      rw [(hsame e he y hpick).2.2]
      rfl

/-- An item that is left out changes nothing, if all that it drives out are left out as
well. -/
theorem Front.filterMap_insert_of_none (hitem : pick item = none)
    (hgone : ∀ e ∈ front, beats item e = true → pick e = none) :
    (Front.insert beats same front item).2.filterMap pick = front.filterMap pick := by
  unfold Front.insert
  split
  · rfl
  · dsimp only
    rw [List.filterMap_append, List.filterMap_filter, List.filterMap_cons_none hitem,
      List.filterMap_nil, List.append_nil]
    refine List.filterMap_congr fun e he => ?_
    cases hbeats : beats item e with
    | false => rfl
    | true => exact (hgone e he hbeats).symm

end Pick

namespace Frontier

/-- No result beats another. -/
def Undominated (f : Frontier) : Prop :=
  ∀ a ∈ f.results, ∀ b ∈ f.results, beats f.pool a b = false

theorem not_beats_self (pool : Pool Label) (id : LabelId) : beats pool id id = false :=
  Criteria.not_dominates_self _

/-- Results that keep their labels stay a front. -/
theorem Undominated.congr {f f' : Frontier} (h : f.Undominated) (hresults : f'.results = f.results)
    (hsame : ∀ id ∈ f.results, f'.pool.get? id = f.pool.get? id) : f'.Undominated := by
  intro a ha b hb
  rw [hresults] at ha hb
  have hold := h a ha b hb
  unfold beats criteriaIn at hold ⊢
  rw [hsame a ha, hsame b hb]
  exact hold

end Frontier

namespace Run

variable {q : Query} {settings : Settings} {measures : List Measure} {r r' : Run}
  {order : List LabelId}

theorem Visits.undominated (hq : q.Sound) {f f' : Frontier} {id : LabelId} {label : Label}
    (h : Frontier.Sound q settings measures f order [id]) (hget : f.pool.get? id = some label)
    (hu : f.Undominated) (hv : Visits q settings f id label f') : f'.Undominated := by
  cases hv with
  | beaten hb =>
    refine hu.congr rfl fun other ho => h.discard.2 other (h.ne_of_held ?_)
    exact List.mem_append_left _ (h.results other ho).1
  | result hgoal => exact Front.insert_front (Frontier.not_beats_self f.pool id) hu
  | expanded r r' hgoal hr hexp =>
    obtain ⟨-, hgrow, -⟩ := expanded_sound hq h hget hgoal hr hexp
    rw [hr] at hgrow
    refine hu.congr hgrow.results_eq fun other ho => ?_
    exact hgrow.get?_eq (h.isSome (List.mem_append_left _ (h.results other ho).1))

/-- Whatever the criteria are, in no state of a search does a result beat
another. -/
theorem Reached.undominated (hq : q.Sound) {f : Frontier} (hf : f.Blank)
    (h : Reached q settings measures f r) : r.frontier.Undominated := by
  induction h with
  | start h =>
    intro a ha
    have hs := start_sound hf h
    exact absurd (hs.results a ha).1 List.not_mem_nil
  | visit h hpop hvisit ih =>
    obtain ⟨order, hs⟩ := h.sound hq hf
    obtain ⟨hs, -, hpool, -, hresults⟩ := pop_sound hs hpop
    obtain ⟨label, links, ht⟩ := hs.waiting _ List.mem_cons_self
    refine (visits_of_visit ht.get? hvisit).undominated hq hs ht.get? (ih.congr hresults ?_)
    intro other ho
    rw [hpool]

end Run

end JourneyPlanner

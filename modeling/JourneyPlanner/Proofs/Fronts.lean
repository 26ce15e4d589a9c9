import JourneyPlanner.Storage.Front
import Mathlib.Order.Defs.Unbundled
import Mathlib.Data.List.Forall2
import Mathlib.Data.List.Pairwise

/-!
# What a front is left with

The main result of this file, `front_exact`, is about any items that have come up at a front one by
one, where beating is a strict order and agrees with being the same:

> the front has, but for items that are the same, those that no other of them beats, and so it does
> not depend on the order in which they came.

An item that is turned away or driven out is still answered for: by the one that did it, and when that
is driven out in its turn, by the one that drives it out (`Keeps.insert`).
-/

namespace JourneyPlanner

namespace Front

variable {α : Type} {beats same : α → α → Bool} {items items' front front' : List α} {item : α}

/-- Beating is a strict order, being the same is an equivalence, and items that are the same beat the
same items and are beaten by the same. -/
structure Lawful (beats same : α → α → Bool) : Prop where
  strict : IsStrictOrder α fun a b => beats a b = true
  equivalence : Equivalence fun a b => same a b = true
  beats_left : ∀ a b c, same a b = true → beats a c = beats b c
  beats_right : ∀ a b c, same a b = true → beats c a = beats c b

/-- Neither item has any business with the other. -/
def Apart (beats same : α → α → Bool) (a b : α) : Prop :=
  beats a b = false ∧ beats b a = false ∧ same a b = false

/-- One item stands for another: it beats it or is the same. -/
def AnswersFor (beats same : α → α → Bool) (a b : α) : Prop := beats a b = true ∨ same a b = true

namespace Lawful

variable {a b c : α}

/-- Nothing beats itself. -/
theorem irrefl (h : Lawful beats same) (a : α) : beats a a = false := by
  have hirrefl := h.strict.irrefl a
  exact Bool.eq_false_iff.2 hirrefl

/-- Beating is transitive. -/
theorem trans (h : Lawful beats same) (hab : beats a b = true) (hbc : beats b c = true) :
    beats a c = true :=
  h.strict.trans a b c hab hbc

/-- Two items apart from each other are so either way round. -/
theorem apart_symm (h : Lawful beats same) (hab : Apart beats same a b) : Apart beats same b a := by
  obtain ⟨hbeats, hbeaten, hsame⟩ := hab
  refine ⟨hbeaten, hbeats, Bool.eq_false_iff.2 fun hba => ?_⟩
  rw [h.equivalence.symm hba] at hsame
  cases hsame

/-- What beats an item that stands for another beats that as well. -/
theorem beats_of_answersFor (h : Lawful beats same) (hab : beats a b = true)
    (hbc : AnswersFor beats same b c) : beats a c = true := by
  rcases hbc with hbeats | hsame
  · exact h.trans hab hbeats
  · rw [← h.beats_right b c a hsame]
    exact hab

/-- What stands for an item that beats another beats that. -/
theorem beats_of_answersFor_left (h : Lawful beats same) (hab : AnswersFor beats same a b)
    (hbc : beats b c = true) : beats a c = true := by
  rcases hab with hbeats | hsame
  · exact h.trans hbeats hbc
  · rw [h.beats_left a b c hsame]
    exact hbc

end Lawful

/-- Of all items that have come up, a front keeps some that have no business with each other, and for
each of all there is one that stands for it. -/
structure Keeps (beats same : α → α → Bool) (items front : List α) : Prop where
  subset : front ⊆ items
  apart : front.Pairwise (Apart beats same)
  covers : ∀ x ∈ items, ∃ a ∈ front, AnswersFor beats same a x

/-- An empty front keeps what there is to keep of no items. -/
theorem keeps_nil : Keeps beats same [] [] := by
  refine ⟨List.Subset.refl _, List.Pairwise.nil, ?_⟩
  intro x hx
  cases hx

/-! ## One item -/

/-- A front rejects an item exactly when one of its own answers for it. -/
theorem rejects_iff :
    rejects beats same front item = true ↔ ∃ a ∈ front, AnswersFor beats same a item := by
  unfold rejects AnswersFor
  rw [List.any_eq_true]
  simp only [Bool.or_eq_true]

/-- A front lets an item in exactly when none of its own beats it or is the same. -/
theorem rejects_eq_false_iff :
    rejects beats same front item = false ↔
      ∀ a ∈ front, beats a item = false ∧ same a item = false := by
  unfold rejects
  rw [List.any_eq_false]
  simp only [Bool.or_eq_true, not_or, Bool.not_eq_true]

/-- One insertion keeps the front of the items seen, the new one among them. -/
theorem Keeps.insert (h : Keeps beats same items front) (hlawful : Lawful beats same) (item : α) :
    Keeps beats same (items ++ [item]) (Front.insert beats same front item).2 := by
  cases hrejects : rejects beats same front item with
  | true =>
    rw [insert_of_rejects hrejects]
    refine ⟨List.subset_append_of_subset_left _ h.subset, h.apart, ?_⟩
    intro x hx
    rcases List.mem_append.1 hx with hx | hx
    · exact h.covers x hx
    · rw [List.mem_singleton.1 hx]
      exact rejects_iff.1 hrejects
  | false =>
    rw [insert_of_not_rejects hrejects]
    have hnone := rejects_eq_false_iff.1 hrejects
    have hlast : item ∈ (front.filter fun e => !beats item e) ++ [item] :=
      List.mem_append_right _ (List.mem_singleton.2 rfl)
    refine ⟨?_, ?_, ?_⟩
    · intro a ha
      rcases List.mem_append.1 ha with ha | ha
      · exact List.mem_append_left _ (h.subset (List.mem_filter.1 ha).1)
      · exact List.mem_append_right _ ha
    · refine List.pairwise_append.2 ⟨h.apart.filter _, List.pairwise_singleton _ _, ?_⟩
      intro a ha b hb
      rw [List.mem_singleton.1 hb]
      obtain ⟨ha, hunbeaten⟩ := List.mem_filter.1 ha
      obtain ⟨hbeats, hsame⟩ := hnone a ha
      exact ⟨hbeats, by simpa using hunbeaten, hsame⟩
    · intro x hx
      rcases List.mem_append.1 hx with hx | hx
      · obtain ⟨a, ha, hax⟩ := h.covers x hx
        -- where the item that stood for another is driven out, the new one does
        cases hbeats : beats item a with
        | true => exact ⟨item, hlast, Or.inl (hlawful.beats_of_answersFor hbeats hax)⟩
        | false =>
          refine ⟨a, List.mem_append_left _ (List.mem_filter.2 ⟨ha, ?_⟩), hax⟩
          rw [hbeats]
          rfl
      · rw [List.mem_singleton.1 hx]
        exact ⟨item, hlast, Or.inr (hlawful.equivalence.refl item)⟩

/-- A front keeps some of all items, whatever order they come in. -/
theorem Keeps.insertAll (h : Keeps beats same items front) (hlawful : Lawful beats same)
    (more : List α) :
    Keeps beats same (items ++ more) (Front.insertAll beats same front more) := by
  induction more generalizing items front with
  | nil =>
    rw [List.append_nil]
    exact h
  | cons item more ih =>
    have hmore := ih (h.insert hlawful item)
    rw [List.append_assoc] at hmore
    exact hmore

/-! ## What is left -/

/-- A front of some items: no two have any business with each other, no item beats any of them, and
every item that is not beaten has one that is the same. -/
structure IsFrontOf (beats same : α → α → Bool) (items front : List α) : Prop where
  apart : front.Pairwise (Apart beats same)
  unbeaten : ∀ a ∈ front, a ∈ items ∧ ∀ x ∈ items, beats x a = false
  complete : ∀ x ∈ items, (∀ y ∈ items, beats y x = false) → ∃ a ∈ front, same a x = true

/-- No item of a front beats another, nor itself. -/
theorem Keeps.beats_eq_false (h : Keeps beats same items front) (hlawful : Lawful beats same)
    {a b : α} (ha : a ∈ front) (hb : b ∈ front) : beats a b = false := by
  by_cases heq : a = b
  · rw [heq]
    exact hlawful.irrefl b
  · have hsymm : Std.Symm (Apart beats same) := ⟨fun _ _ => hlawful.apart_symm⟩
    exact (h.apart.forall ha hb heq).1

/-- What insertion after insertion keeps is the front of all items. -/
theorem Keeps.isFrontOf (h : Keeps beats same items front) (hlawful : Lawful beats same) :
    IsFrontOf beats same items front := by
  refine ⟨h.apart, fun a ha => ⟨h.subset ha, fun x hx => ?_⟩, ?_⟩
  · refine Bool.eq_false_iff.2 fun hbeats => ?_
    obtain ⟨b, hb, hbx⟩ := h.covers x hx
    have hba := h.beats_eq_false hlawful hb ha
    rw [hlawful.beats_of_answersFor_left hbx hbeats] at hba
    cases hba
  · intro x hx hunbeaten
    obtain ⟨a, ha, hbeats | hsame⟩ := h.covers x hx
    · rw [hunbeaten a (h.subset ha)] at hbeats
      cases hbeats
    · exact ⟨a, ha, hsame⟩

/-- Items without two that are the same, for each of which there is one among others that is the same
and the other way round, can be paired with them. -/
theorem exists_matched (hlawful : Lawful beats same) (hfront : front.Pairwise (Apart beats same))
    (hfront' : front'.Pairwise (Apart beats same))
    (hto : ∀ a ∈ front, ∃ b ∈ front', same a b = true)
    (hfrom : ∀ b ∈ front', ∃ a ∈ front, same a b = true) :
    ∃ matched, matched.Perm front' ∧ List.Forall₂ (fun a b => same a b = true) front matched := by
  induction front generalizing front' with
  | nil =>
    refine ⟨[], ?_, List.Forall₂.nil⟩
    cases front' with
    | nil => exact List.Perm.refl _
    | cons b front' =>
      obtain ⟨a, ha, -⟩ := hfrom b List.mem_cons_self
      cases ha
  | cons first rest ih =>
    obtain ⟨hfirst, hrest⟩ := List.pairwise_cons.1 hfront
    obtain ⟨b, hb, hsame⟩ := hto first List.mem_cons_self
    obtain ⟨before, after, rfl⟩ := List.append_of_mem hb
    obtain ⟨hb', hothers⟩ := List.pairwise_cons.1
      (List.perm_middle.pairwise hfront' hlawful.apart_symm)
    -- another item is not the same as the first, and so not as the one paired with that
    have hto' : ∀ a ∈ rest, ∃ c ∈ before ++ after, same a c = true := by
      intro a ha
      obtain ⟨c, hc, hac⟩ := hto a (List.mem_cons_of_mem first ha)
      rcases List.mem_cons.1 (List.perm_middle.mem_iff.1 hc) with rfl | hc
      · have hapart := (hfirst a ha).2.2
        rw [hlawful.equivalence.trans hsame (hlawful.equivalence.symm hac)] at hapart
        cases hapart
      · exact ⟨c, hc, hac⟩
    have hfrom' : ∀ c ∈ before ++ after, ∃ a ∈ rest, same a c = true := by
      intro c hc
      obtain ⟨a, ha, hac⟩ := hfrom c (List.perm_middle.mem_iff.2 (List.mem_cons_of_mem b hc))
      rcases List.mem_cons.1 ha with rfl | ha
      · have hapart := (hb' c hc).2.2
        rw [hlawful.equivalence.trans (hlawful.equivalence.symm hsame) hac] at hapart
        cases hapart
      · exact ⟨a, ha, hac⟩
    obtain ⟨matched, hperm, hmatched⟩ := ih hrest hothers hto' hfrom'
    exact ⟨b :: matched, (hperm.cons b).trans List.perm_middle.symm, .cons hsame hmatched⟩

/-- All fronts of the same items are the same, but for the order. -/
theorem IsFrontOf.exists_matched (h : IsFrontOf beats same items front)
    (h' : IsFrontOf beats same items front') (hlawful : Lawful beats same) :
    ∃ matched, matched.Perm front' ∧ List.Forall₂ (fun a b => same a b = true) front matched := by
  refine Front.exists_matched hlawful h.apart h'.apart ?_ ?_
  · intro a ha
    obtain ⟨hmem, hunbeaten⟩ := h.unbeaten a ha
    obtain ⟨b, hb, hsame⟩ := h'.complete a hmem hunbeaten
    exact ⟨b, hb, hlawful.equivalence.symm hsame⟩
  · intro b hb
    obtain ⟨hmem, hunbeaten⟩ := h'.unbeaten b hb
    exact h.complete b hmem hunbeaten

/-- A front does not depend on the order its items came in. -/
theorem IsFrontOf.of_perm (h : IsFrontOf beats same items' front) (hperm : items'.Perm items) :
    IsFrontOf beats same items front := by
  refine ⟨h.apart, ?_, ?_⟩
  · intro a ha
    obtain ⟨hmem, hunbeaten⟩ := h.unbeaten a ha
    exact ⟨hperm.mem_iff.1 hmem, fun x hx => hunbeaten x (hperm.mem_iff.2 hx)⟩
  · intro x hx hunbeaten
    exact h.complete x (hperm.mem_iff.2 hx) fun y hy => hunbeaten y (hperm.mem_iff.1 hy)

/-- An item is said to be taken in if and only if it is at the end afterwards, behind those that it
does not beat. -/
theorem insert_fst_iff (h : Keeps beats same items front) (hlawful : Lawful beats same) :
    (insert beats same front item).1 = true ↔
      (insert beats same front item).2 = (front.filter fun e => !beats item e) ++ [item] := by
  cases hrejects : rejects beats same front item with
  | false =>
    rw [insert_of_not_rejects hrejects]
    exact iff_of_true rfl rfl
  | true =>
    rw [insert_of_rejects hrejects]
    obtain ⟨a, ha, hanswers⟩ := rejects_iff.1 hrejects
    -- the item beats nothing there, since what stands for it would beat that as well
    have hall : (front.filter fun e => !beats item e) = front := by
      refine List.filter_eq_self.2 fun b hb => ?_
      cases hbeats : beats item b with
      | false => rfl
      | true =>
        have hab := h.beats_eq_false hlawful ha hb
        rw [hlawful.beats_of_answersFor_left hanswers hbeats] at hab
        cases hab
    refine iff_of_false Bool.false_ne_true fun heq => ?_
    have hlength := congrArg List.length heq
    rw [hall, List.length_append, List.length_singleton] at hlength
    exact absurd hlength (Nat.ne_of_lt (Nat.lt_succ_self _))

/-- An insertion that answers no leaves the front as it was. -/
theorem insert_snd_of_fst_eq_false (h : (insert beats same front item).1 = false) :
    (insert beats same front item).2 = front := by
  unfold insert at h ⊢
  split
  · rfl
  · next hnot =>
    rw [if_neg hnot] at h
    cases h

end Front

/-- Whatever items come up at an empty front one by one: it is left with a front of them, which is
the same, but for the order, whatever order they come in; and of each it is said that it is taken in
if and only if it is, and otherwise nothing changes. -/
theorem front_exact {α : Type} {beats same : α → α → Bool} (hlawful : Front.Lawful beats same)
    (items : List α) :
    Front.IsFrontOf beats same items (Front.insertAll beats same [] items) ∧
    (∀ items', items'.Perm items →
      ∃ matched, matched.Perm (Front.insertAll beats same [] items') ∧
        List.Forall₂ (fun a b => same a b = true) (Front.insertAll beats same [] items) matched) ∧
    ∀ item front, front = Front.insertAll beats same [] items →
      ((Front.insert beats same front item).1 = true ↔
        (Front.insert beats same front item).2 =
          (front.filter fun e => !beats item e) ++ [item]) ∧
      ((Front.insert beats same front item).1 = false →
        (Front.insert beats same front item).2 = front) := by
  have hkeeps : ∀ items, Front.Keeps beats same items (Front.insertAll beats same [] items) :=
    fun items => Front.keeps_nil.insertAll hlawful items
  refine ⟨(hkeeps items).isFrontOf hlawful, ?_, ?_⟩
  · intro items' hperm
    have hfront' := ((hkeeps items').isFrontOf hlawful).of_perm hperm
    exact ((hkeeps items).isFrontOf hlawful).exists_matched hfront' hlawful
  · intro item front hfront
    subst hfront
    exact ⟨Front.insert_fst_iff (hkeeps items) hlawful, Front.insert_snd_of_fst_eq_false⟩

namespace Front

/-- An offer with a price and a duration, and a name by which it is not compared. -/
structure Offer where
  price : Nat
  minutes : Nat
  name : Nat
  deriving DecidableEq

/-- One offer is no dearer and no slower than another, and not just as dear and slow. -/
def Offer.beats (a b : Offer) : Bool :=
  a.price ≤ b.price && a.minutes ≤ b.minutes && (a.price < b.price || a.minutes < b.minutes)

def Offer.same (a b : Offer) : Bool := a.price == b.price && a.minutes == b.minutes

/-- Offers compared by price and minutes obey the laws of a front. -/
theorem lawful_offers : Lawful Offer.beats Offer.same := by
  unfold Offer.beats Offer.same
  refine ⟨{ irrefl := ?_, trans := ?_ }, ⟨?_, ?_, ?_⟩, ?_, ?_⟩
  · intro a h
    simp at h
  · intro a b c hab hbc
    simp only [Bool.and_eq_true, Bool.or_eq_true, decide_eq_true_iff] at hab hbc ⊢
    omega
  · intro a
    simp
  · intro a b h
    simp only [Bool.and_eq_true, beq_iff_eq] at h ⊢
    omega
  · intro a b c hab hbc
    simp only [Bool.and_eq_true, beq_iff_eq] at hab hbc ⊢
    omega
  · intro a b c h
    simp only [Bool.and_eq_true, beq_iff_eq] at h
    rw [h.1, h.2]
  · intro a b c h
    simp only [Bool.and_eq_true, beq_iff_eq] at h
    rw [h.1, h.2]

/-- Three offers are driven out by one, which is driven out in its turn; two come twice. -/
def offers : List Offer :=
  [⟨5, 5, 0⟩, ⟨4, 6, 1⟩, ⟨6, 4, 2⟩, ⟨3, 3, 3⟩, ⟨3, 3, 4⟩, ⟨9, 1, 5⟩, ⟨1, 9, 6⟩, ⟨2, 2, 7⟩, ⟨1, 9, 8⟩]

end Front

open Front in
/-- The other way round another one of two offers that are the same is left, in another place. -/
theorem front_exact_offers :
    insertAll Offer.beats Offer.same [] offers = [⟨9, 1, 5⟩, ⟨1, 9, 6⟩, ⟨2, 2, 7⟩] ∧
    insertAll Offer.beats Offer.same [] offers.reverse = [⟨1, 9, 8⟩, ⟨2, 2, 7⟩, ⟨9, 1, 5⟩] ∧
    IsFrontOf Offer.beats Offer.same offers [⟨9, 1, 5⟩, ⟨1, 9, 6⟩, ⟨2, 2, 7⟩] ∧
    ∃ matched : List Offer, matched.Perm [⟨1, 9, 8⟩, ⟨2, 2, 7⟩, ⟨9, 1, 5⟩] ∧
      List.Forall₂ (fun a b : Offer => a.same b = true) [⟨9, 1, 5⟩, ⟨1, 9, 6⟩, ⟨2, 2, 7⟩] matched := by
  have hoffers : insertAll Offer.beats Offer.same [] offers =
      [⟨9, 1, 5⟩, ⟨1, 9, 6⟩, ⟨2, 2, 7⟩] := by decide
  have hreverse : insertAll Offer.beats Offer.same [] offers.reverse =
      [⟨1, 9, 8⟩, ⟨2, 2, 7⟩, ⟨9, 1, 5⟩] := by decide
  obtain ⟨hfront, hperm, -⟩ := front_exact lawful_offers offers
  have hmatched := hperm offers.reverse (List.reverse_perm offers)
  rw [hoffers] at hfront hmatched
  rw [hreverse] at hmatched
  exact ⟨hoffers, hreverse, hfront, hmatched⟩

end JourneyPlanner

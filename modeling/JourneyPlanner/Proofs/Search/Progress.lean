import JourneyPlanner.Proofs.Search.Trail
import Mathlib.Data.List.TakeWhile

/-!
# Progress along the path

Progress counts the stations to pass that have been passed. It is greedy: an arrival passes
all that follow each other at its node (`Target.drop_eq`), so that arriving there once more
passes none (`Target.advance_idem`). It never runs past the last of them, in no label of a
trail (`Trail.progress_le`).
-/

namespace JourneyPlanner

namespace Target

variable (target : Target) (node : NodeId) (passed : Nat)

/-- What an arrival passes are stations at its node, those that are next. -/
theorem drop_eq : ∃ count, target.advance node passed = passed + count ∧
    target.vias.drop passed = List.replicate count node ++ target.vias.drop (passed + count) ∧
    (target.vias.drop (passed + count)).head? ≠ some node := by
  have hsplit := List.takeWhile_append_dropWhile (p := (· == node)) (l := target.vias.drop passed)
  have hrest : target.vias.drop (target.advance node passed) =
      (target.vias.drop passed).dropWhile (· == node) := by
    have hdrop := congrArg (List.drop
      ((target.vias.drop passed).takeWhile (· == node)).length) hsplit
    rw [List.drop_left, List.drop_drop] at hdrop
    exact hdrop.symm
  refine ⟨((target.vias.drop passed).takeWhile (· == node)).length, rfl, ?_, ?_⟩
  · have hsame : (target.vias.drop passed).takeWhile (· == node) =
        List.replicate ((target.vias.drop passed).takeWhile (· == node)).length node :=
      List.eq_replicate_iff.2 ⟨rfl, fun via hvia =>
        beq_iff_eq.1 (List.mem_takeWhile_imp (p := (· == node)) hvia)⟩
    rw [← hsame]
    exact hsplit.symm.trans (congrArg _ hrest.symm)
  · show (target.vias.drop (target.advance node passed)).head? ≠ some node
    rw [hrest]
    intro hhead
    have hnot := List.head?_dropWhile_not (· == node) (target.vias.drop passed)
    rw [hhead] at hnot
    simp at hnot

/-- The stations that have been passed after an arrival. -/
theorem take_eq {count : Nat} (h : target.vias.drop passed =
    List.replicate count node ++ target.vias.drop (passed + count)) :
    target.vias.take (passed + count) =
      target.vias.take passed ++ List.replicate count node := by
  rw [List.take_add, h, List.take_left' List.length_replicate]

/-- Who has come to a node passes nothing more by arriving there again. -/
theorem advance_idem :
    target.advance node (target.advance node passed) = target.advance node passed := by
  obtain ⟨count, hcount, -, hnext⟩ := target.drop_eq node passed
  obtain ⟨more, hmore, hdrop, -⟩ := target.drop_eq node (passed + count)
  rw [hcount, hmore]
  cases more with
  | zero => rfl
  | succ more =>
    rw [hdrop] at hnext
    exact absurd rfl hnext

theorem advance_le {passed : Nat} (h : passed ≤ target.vias.length) :
    target.advance node passed ≤ target.vias.length := by
  have hlen := (List.takeWhile_prefix (l := target.vias.drop passed) (· == node)).length_le
  rw [List.length_drop] at hlen
  unfold Target.advance
  omega

end Target

section Trail

variable {q : Query} {settings : Settings} {measures : List Measure} {label : Label}
  {before : List Label}

/-- No label has passed more stations than there are to pass. -/
theorem Trail.progress_le (h : Trail q settings measures (label :: before)) :
    label.progress ≤ q.target.vias.length := by
  refine Trail.along (P := fun label _ => label.progress ≤ q.target.vias.length) ?_ ?_ h
  · intro time htime
    exact q.target.advance_le _ (Nat.zero_le _)
  · intro id ref label before cost now trail href ht hnow hin ih
    exact q.target.advance_le _ ih

/-- A label has passed all that it can at its node. -/
theorem Trail.advance_eq (h : Trail q settings measures (label :: before)) :
    q.target.advance label.node label.progress = label.progress := by
  refine Trail.along
    (P := fun label _ => q.target.advance label.node label.progress = label.progress) ?_ ?_ h
  · intro time htime
    exact q.target.advance_idem _ _
  · intro id ref label before cost now trail href ht hnow hin ih
    exact q.target.advance_idem _ _

end Trail

end JourneyPlanner
